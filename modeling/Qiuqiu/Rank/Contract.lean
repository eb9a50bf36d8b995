import Mathlib.Data.List.Induction
import Mathlib.Data.Prod.Lex
import Mathlib.Order.Std
import Qiuqiu.Base.Machine
import Qiuqiu.Rank.Model

/-!
What the leaderboard is for, and when it does it. The length of the skip list is
one more than the number of entries, so the board counts as full one entry early,
and looks for its last entry at a rank where there is none: the insertion that
should fill the board raises. An insertion before a present entry loses that
entry from the skip list. The board keeps its contract in exactly those runs in
which every new record ranks last and leaves a place free.
-/
namespace Qiuqiu.Rank
variable {V : Type} [LinearOrder V] {cfg : Config V}

section Order

/-- `rankCmp` is a weak order of the records with all rank keys. -/
abbrev WeakOrder (cfg : Config V) : Prop :=
  Std.TransCmp fun a b : Entry cfg => cfg.rankCmp a.val b.val

theorem compKey_trans (order : WeakOrder cfg) (key : { k // k ∈ cfg.keys }) :
    Std.TransCmp (compKey key) := by
  by_cases own : key.val = firstkeyBirth ∨ key.val = cfg.uniqueKey
  · have values : compKey key = compareOn fun e : Entry cfg => e.field key := by
      funext a b
      simp only [compKey, own, if_true, compareOn]
      rcases lt_trichotomy (a.field key) (b.field key) with lt | eq | gt
      · simp [lt, not_lt_of_gt lt, compare_lt_iff_lt.mpr lt]
      · simp [eq]
      · simp [gt, compare_gt_iff_gt.mpr gt]
    rw [values]
    infer_instance
  · have asked : compKey key = fun a b : Entry cfg => cfg.rankCmp a.val b.val := by
      funext a b
      simp only [compKey, own, if_false]
    rw [asked]
    exact order

theorem compKeys_trans (order : WeakOrder cfg) (keys : List { k // k ∈ cfg.keys }) :
    Std.TransCmp fun a b : Entry cfg => compKeys a b keys := by
  induction keys with
  | nil =>
      have : Std.OrientedCmp fun a b : Entry cfg => compKeys a b [] := ⟨rfl⟩
      exact ⟨fun _ _ => rfl⟩
  | cons key keys ih =>
      have first := compKey_trans order key
      exact inferInstanceAs (Std.TransCmp (compareLex (compKey key) fun a b => compKeys a b keys))

theorem compDataFunc_neg {a b : Entry cfg} :
    compDataFunc a b < 0 ↔ compKeys a b cfg.keys.attach = .lt := by
  simp only [compDataFunc]
  split <;> simp_all

theorem compDataFunc_pos {a b : Entry cfg} :
    0 < compDataFunc a b ↔ compKeys a b cfg.keys.attach = .gt := by
  simp only [compDataFunc]
  split <;> simp_all

theorem threeWay (order : WeakOrder cfg) :
    Skiplist.ThreeWay compDataFunc fun a b : Entry cfg => decide (compDataFunc a b = 0) := by
  have trans := compKeys_trans order cfg.keys.attach
  refine ⟨?_, ?_, fun a b => decide_eq_true_iff⟩
  · intro a b
    rw [compDataFunc_neg, compDataFunc_pos]
    exact trans.toOrientedCmp.gt_iff_lt.symm
  · intro a b c first second
    have le : ∀ a b : Entry cfg,
        compDataFunc a b ≤ 0 ↔ (compKeys a b cfg.keys.attach).isLE = true := by
      intro a b
      rw [← not_lt, compDataFunc_pos]
      cases compKeys a b cfg.keys.attach <;> simp
    rw [le] at *
    exact trans.isLE_trans first second

end Order

section Spec

/-- What holds of a board that is not saved: its table `t` has the elements of the
skip list under their uniques, none of them kicked and not too many. -/
structure Exact (r : Board cfg) (t : Table cfg) : Prop where
  saveData : r.saveData = .entries t
  keyed : ∀ x ∈ t, x.2.unique = x.1
  nodup : Assoc.Keyed t
  elements : ∃ (ids : List Skiplist.NodeId) (elems : List (Entry cfg)),
    Skiplist.Path r.slData 1 r.slData.headerNode ids ∧
    ids.map (fun n => (r.slData.heap n).nData) = elems.map some ∧
    elems.Perm (t.map Prod.snd)
  kicked : ∀ unique ∈ r.kickData, unique ∉ t.map Prod.fst
  bound : (t.length : Int) ≤ cfg.maxNum

/-- The record is one that the board has to consider: with its unique and all keys,
not kicked and not present. -/
structure Fresh (r : Board cfg) (t : Table cfg) (data : Data V) (now unique : V)
    (nData : Entry cfg) : Prop where
  has : data cfg.uniqueKey = some unique
  kicked : unique ∉ r.kickData
  absent : unique ∉ t.map Prod.fst
  nData : nData.val = withBirth data now

/-- No entry of the table ranks behind this one. -/
def Last (t : Table cfg) (x : V × Entry cfg) : Prop :=
  x ∈ t ∧ ∀ y ∈ t, compDataFunc y.2 x.2 ≤ 0

/-- The reasons for which `Insert` may raise. -/
def MayRaise (t : Table cfg) (data : Data V) (now : V) : Prop :=
  data cfg.uniqueKey = none ∨ (∃ unique ∈ t.map Prod.fst, data cfg.uniqueKey = some unique) ∨
    ∃ key ∈ cfg.keys, withBirth data now key = none

/-- An operation from a board with the table `t` to one with the table `t'`. -/
structure Meets (r : Board cfg) (t : Table cfg) (op : Op V) (a : Answer cfg) (r' : Board cfg)
    (t' : Table cfg) : Prop where
  exact : Exact r' t'
  raises : ∀ err, a = .error err →
    ∃ data now level, op = .insert data now level ∧ MayRaise t data now
  below : ∀ data now level unique nData, op = .insert data now level →
    Fresh r t data now unique nData → (t.length : Int) < cfg.maxNum →
    t'.Perm ((unique, nData) :: t)
  full : ∀ data now level unique nData, op = .insert data now level →
    Fresh r t data now unique nData → (t.length : Int) = cfg.maxNum →
    ∀ last, Last t last →
      t'.Perm (if cfg.rankCmp data last.2.val = .lt then (unique, nData) :: Assoc.remove t last.1
        else t)

/-- A record that the board has to consider ranks behind all entries, and there is
more than one place left. -/
def Fits (r : Board cfg) : Op V → Prop
  | .insert data now _ => ∀ t unique nData, r.saveData = .entries t →
      Fresh r t data now unique nData →
      (t.length : Int) + 1 < cfg.maxNum ∧ ∀ x ∈ t, compDataFunc x.2 nData < 0
  | _ => True

end Spec

section Steps
variable {r r' : Board cfg} {t : Table cfg}

/-- The board as its operations keep it. -/
structure Good (r : Board cfg) (t : Table cfg) : Prop where
  saveData : r.saveData = .entries t
  keyed : ∀ x ∈ t, x.2.unique = x.1
  nodup : Assoc.Keyed t
  sized : Skiplist.Sized compDataFunc r.slData (t.map Prod.snd)
  kicked : ∀ unique ∈ r.kickData, unique ∉ t.map Prod.fst
  bound : (t.length : Int) ≤ cfg.maxNum

theorem Good.exact (good : Good r t) : Exact r t := by
  obtain ⟨ids, elems, wf, data, perm⟩ := good.sized.holds
  exact ⟨good.saveData, good.keyed, good.nodup, ⟨ids, elems, wf.path_one, data, perm⟩,
    good.kicked, good.bound⟩

theorem good_init (pos : 1 ≤ cfg.maxNum) : Good (init cfg) [] := by
  refine ⟨rfl, by simp, List.nodup_nil, Skiplist.sized_create, by simp [init], ?_⟩
  change (0 : Int) ≤ cfg.maxNum
  omega

theorem Good.getSaveData (good : Good r t) (unique : V) :
    getSaveData r unique = t.lookup unique := by
  simp only [Rank.getSaveData, good.saveData]

theorem sameDataFunc_self (e : Entry cfg) : sameDataFunc e e = true := by
  simp [sameDataFunc]

theorem delete_good (order : WeakOrder cfg) (good : Good r t) (unique : V) :
    ∃ r' ret, delete r unique = some (r', ret) ∧ r'.kickData = r.kickData ∧
      Good r' (Assoc.remove t unique) := by
  cases held : t.lookup unique with
  | none =>
      refine ⟨r, none, ?_, rfl, ?_⟩
      · simp only [delete, good.getSaveData, held]
      · rwa [Assoc.remove_absent (Assoc.lookup_none.mp held)]
  | some e =>
      have mem := good.nodup.lookup_some.mp held
      have split := (good.nodup.perm_remove mem).map Prod.snd
      obtain ⟨slData, run, sized⟩ := good.sized.delete (threeWay order) (sameDataFunc_self e) split
      refine ⟨{ r with slData := slData, saveData := .entries (Assoc.remove t unique) }, some e,
        ?_, rfl, ?_⟩
      · simp only [delete, good.getSaveData, held, run, Option.bind_eq_bind, Option.bind_some,
          clearSaveData, onSaveData, good.saveData]
      · refine ⟨rfl, ?_, good.nodup.remove, sized, ?_, ?_⟩
        · intro x mem
          exact good.keyed x (Assoc.mem_remove.mp mem).1
        · intro u kicked present
          obtain ⟨x, mem, rfl⟩ := List.mem_map.mp present
          exact good.kicked _ kicked (List.mem_map_of_mem (Assoc.mem_remove.mp mem).1)
        · have shorter : (Assoc.remove t unique).length ≤ t.length := List.length_filter_le _ _
          have := good.bound
          omega

variable {data : Data V} {now unique : V} {nData : Entry cfg} {level : Skiplist.Level}

theorem Good.length (good : Good r t) : r.slData.length = t.length + 1 := by
  rw [good.sized.length, List.length_map]

theorem Good.getMinRank (good : Good r t) : getMinRank r = none := by
  simp [Rank.getMinRank, good.sized.getElementList_length]

omit [LinearOrder V] in
theorem Fresh.keys (fresh : Fresh r t data now unique nData) :
    ∀ key ∈ cfg.keys, (withBirth data now key).isSome = true := by
  rw [← fresh.nData]
  exact nData.property

omit [LinearOrder V] in
theorem withBirth_unique (has : data cfg.uniqueKey = some unique) :
    withBirth data now cfg.uniqueKey = some unique := by
  simp only [withBirth]
  split
  · exact has
  · rename_i absent
    rw [Function.update_of_ne, has]
    intro same
    rw [← same, has] at absent
    exact absent rfl

omit [LinearOrder V] in
theorem Fresh.nData_unique (fresh : Fresh r t data now unique nData) : nData.unique = unique := by
  have read : nData.val cfg.uniqueKey = some unique := by
    rw [fresh.nData]
    exact withBirth_unique fresh.has
  simp only [Entry.unique, Entry.field, read, Option.get_some]

/-- The board takes a record as long as two places are free, and then raises. -/
theorem insert_fresh (good : Good r t) (fresh : Fresh r t data now unique nData) :
    insert r data now level =
      if cfg.maxNum ≤ (t.length : Int) + 1 then none else add r unique nData level none := by
  have kick : kickRole r unique = false := decide_eq_false fresh.kicked
  have absent : (getSaveData r unique).isSome = false := by
    rw [good.getSaveData, Assoc.lookup_none.mpr fresh.absent]
    rfl
  have same : (⟨withBirth data now, fresh.keys⟩ : Entry cfg) = nData := Subtype.ext fresh.nData.symm
  simp only [insert, fresh.has, kick, absent, Bool.false_eq_true, if_false, dif_pos fresh.keys,
    same, good.length, ge_iff_le, good.getMinRank, Option.bind_eq_bind, Option.bind_none]

/-- Any other insertion changes nothing, and raises only for the reasons it may. -/
theorem insert_other (level : Skiplist.Level) (good : Good r t)
    (other : ∀ unique nData, ¬ Fresh r t data now unique nData) :
    ∃ a, insert r data now level = some (r, a) ∧ ∀ err, a = .error err → MayRaise t data now := by
  simp only [insert]
  cases has : data cfg.uniqueKey with
  | none => exact ⟨_, rfl, fun _ _ => .inl has⟩
  | some unique =>
      by_cases kick : kickRole r unique = true
      · simp only [kick, if_true]
        exact ⟨_, rfl, nofun⟩
      · simp only [kick, Bool.false_eq_true, if_false]
        by_cases absent : unique ∈ t.map Prod.fst
        · have held : (getSaveData r unique).isSome = true := by
            rw [good.getSaveData]
            exact Option.isSome_iff_ne_none.mpr (mt Assoc.lookup_none.mp (not_not.mpr absent))
          simp only [held, if_true]
          exact ⟨_, rfl, fun _ _ => .inr (.inl ⟨unique, absent, has⟩)⟩
        · have held : (getSaveData r unique).isSome = false := by
            rw [good.getSaveData, Assoc.lookup_none.mpr absent]
            rfl
          simp only [held, Bool.false_eq_true, if_false]
          split
          case isTrue all =>
              refine (other unique ⟨_, all⟩ ⟨has, ?_, absent, rfl⟩).elim
              simpa [kickRole] using kick
          case isFalse missing =>
              refine ⟨_, rfl, fun _ _ => .inr (.inr ?_)⟩
              push Not at missing
              obtain ⟨key, mem, none⟩ := missing
              exact ⟨key, mem, by simpa using none⟩

theorem add_good (level : Skiplist.Level) (good : Good r t)
    (fresh : Fresh r t data now unique nData)
    (free : (t.length : Int) + 1 ≤ cfg.maxNum) (last : ∀ x ∈ t, compDataFunc x.2 nData < 0) :
    ∃ r' rank, add r unique nData level none = some (r', .rank rank none) ∧
      r'.kickData = r.kickData ∧ Good r' ((unique, nData) :: t) := by
  have atEnd : ∀ e ∈ t.map Prod.snd, compDataFunc e nData < 0 := by
    intro e present
    obtain ⟨x, mem, rfl⟩ := List.mem_map.mp present
    exact last x mem
  obtain ⟨slData, rank, run, sized⟩ := good.sized.insert level atEnd
  have table : Assoc.put t unique nData = (unique, nData) :: t := by
    rw [Assoc.put, Assoc.remove_absent fresh.absent]
  refine ⟨{ r with slData := slData, saveData := .entries ((unique, nData) :: t) }, rank, ?_, rfl,
    rfl, ?_, ?_, sized, ?_, ?_⟩
  · simp only [add, run, Option.bind_eq_bind, Option.bind_some, setSaveData, onSaveData,
      good.saveData, table]
  · intro x mem
    cases List.mem_cons.mp mem with
    | inl new => rw [new, fresh.nData_unique]
    | inr old => exact good.keyed x old
  · exact List.nodup_cons.mpr ⟨fresh.absent, good.nodup⟩
  · intro u kicked present
    cases List.mem_cons.mp present with
    | inl new =>
        obtain rfl : u = unique := new
        exact fresh.kicked kicked
    | inr old => exact good.kicked u kicked old
  · rw [List.length_cons]
    omega

/-- An insertion after which the skip list has all entries was made behind them. -/
theorem last_of_exact {a : Answer cfg} {t' : Table cfg} (order : WeakOrder cfg) (good : Good r t)
    (run : add r unique nData level none = some (r', a)) (exact : Exact r' t')
    (all : t'.Perm ((unique, nData) :: t)) : ∀ x ∈ t, compDataFunc x.2 nData < 0 := by
  simp only [add, Option.bind_eq_bind] at run
  cases made : Skiplist.insert compDataFunc r.slData nData level with
  | none =>
      rw [made] at run
      cases run
  | some result =>
      obtain ⟨slData, node, rank⟩ := result
      simp only [made, Option.bind_some, setSaveData, onSaveData, good.saveData,
        Option.some.injEq, Prod.mk.injEq] at run
      obtain ⟨rfl, -⟩ := run
      obtain ⟨ids, elems, visits, elements, perm⟩ := exact.elements
      have atEnd := Skiplist.insert_atEnd_of_path good.sized.holds (threeWay order) made visits
        elements (perm.trans (all.map Prod.snd))
      intro x mem
      exact atEnd x.2 (List.mem_map_of_mem mem)

theorem kickUnique_good (order : WeakOrder cfg) (good : Good r t) (unique : V) :
    ∃ r', kickUnique r unique = some r' ∧ r'.kickData = List.insert unique r.kickData ∧
      Good r' (Assoc.remove t unique) := by
  obtain ⟨r₁, ret, run, kick, good₁⟩ := delete_good order good unique
  simp only [kickUnique, run, Option.bind_eq_bind, Option.bind_some]
  split
  · rename_i old
    refine ⟨r₁, rfl, ?_, good₁⟩
    rw [List.insert_of_mem (kick ▸ of_decide_eq_true old), kick]
  · rename_i new
    refine ⟨_, rfl, ?_, good₁.saveData, good₁.keyed, good₁.nodup, good₁.sized, ?_, good₁.bound⟩
    · dsimp only
      rw [List.insert_of_not_mem (kick ▸ of_decide_eq_false (Bool.eq_false_iff.mpr new)), kick]
    intro u kicked present
    cases List.mem_cons.mp kicked with
    | inl new =>
        subst new
        exact Assoc.notMem_remove present
    | inr old => exact good₁.kicked u old present

theorem deleteAll_good (order : WeakOrder cfg) (uniques : List V) :
    ∀ (r : Board cfg) (t : Table cfg), Good r t →
      ∃ r' t', deleteAll r uniques = some r' ∧ Good r' t' := by
  induction uniques with
  | nil => exact fun r t good => ⟨r, t, rfl, good⟩
  | cons unique rest ih =>
      intro r t good
      obtain ⟨r₁, ret, run, _, good₁⟩ := delete_good order good unique
      obtain ⟨r', t', rest, good'⟩ := ih r₁ _ good₁
      exact ⟨r', t', by simp [deleteAll, run, rest], good'⟩

/-- An operation other than `Insert` keeps the board. -/
theorem Good.meets {op : Op V} {a : Answer cfg} {t' : Table cfg} (good : Good r' t')
    (silent : ∀ err, a ≠ .error err) (other : ∀ data now level, op ≠ .insert data now level) :
    Meets r t op a r' t' where
  exact := good.exact
  raises := fun err same => absurd same (silent err)
  below := fun data now level _ _ same => absurd same (other data now level)
  full := fun data now level _ _ same => absurd same (other data now level)

/-- An operation that fits keeps the contract. -/
theorem step_meets (order : WeakOrder cfg) (good : Good r t) {op : Op V} (fits : Fits r op) :
    ∃ a r' t', step r op = some (r', a) ∧ Meets r t op a r' t' ∧ Good r' t' := by
  cases op with
  | insert data now level =>
      by_cases fresh : ∃ unique nData, Fresh r t data now unique nData
      · obtain ⟨unique, nData, fresh⟩ := fresh
        obtain ⟨free, last⟩ := fits t unique nData good.saveData fresh
        obtain ⟨r', rank, run, _, good'⟩ := add_good level good fresh free.le last
        refine ⟨.rank rank none, r', _, ?_, ?_, good'⟩
        · rw [step, insert_fresh good fresh, if_neg (not_le.mpr free), run]
        · refine ⟨good'.exact, nofun, ?_, ?_⟩
          · rintro data' now' level' unique' nData' ⟨⟩ fresh' _
            have same : unique' = unique := Option.some.inj (fresh'.has.symm.trans fresh.has)
            have entry : nData' = nData := Subtype.ext (fresh'.nData.trans fresh.nData.symm)
            rw [same, entry]
          · rintro data' now' level' unique' nData' ⟨⟩ fresh' full
            omega
      · push Not at fresh
        obtain ⟨a, run, raises⟩ := insert_other level good fresh
        refine ⟨a, r, t, run, ⟨good.exact, ?_, ?_, ?_⟩, good⟩
        · exact fun err same => ⟨data, now, level, rfl, raises err same⟩
        · rintro data' now' level' unique' nData' ⟨⟩ fresh'
          exact absurd fresh' (fresh unique' nData')
        · rintro data' now' level' unique' nData' ⟨⟩ fresh'
          exact absurd fresh' (fresh unique' nData')
  | delete unique =>
      obtain ⟨r', ret, run, _, good'⟩ := delete_good order good unique
      refine ⟨_, r', _, by rw [step, run]; rfl, good'.meets ?_ nofun, good'⟩
      cases ret <;> exact nofun
  | kickUnique unique =>
      obtain ⟨r', run, -, good'⟩ := kickUnique_good order good unique
      refine ⟨.nothing, r', _, ?_, good'.meets nofun nofun, good'⟩
      rw [step, run]
      rfl
  | clearRank visit =>
      obtain ⟨r', t', run, good'⟩ := deleteAll_good order (visit.visit (uniques r)) r t good
      refine ⟨.cleared (r'.slData.length ≠ 0), r', t', ?_, good'.meets nofun nofun, good'⟩
      simp only [step, clearRank, run]
      rfl

/-- An operation that keeps the contract fits. -/
theorem fits_of_meets (order : WeakOrder cfg) (good : Good r t) {op : Op V} {a : Answer cfg}
    {t' : Table cfg} (run : step r op = some (r', a)) (meets : Meets r t op a r' t') :
    Fits r op := by
  cases op with
  | delete | kickUnique | clearRank => trivial
  | insert data now level =>
      intro t₁ unique nData table fresh
      obtain rfl : t = t₁ := SaveData.entries.inj (good.saveData.symm.trans table)
      rw [step, insert_fresh good fresh] at run
      split at run
      · cases run
      case isFalse free =>
          have free : (t.length : Int) + 1 < cfg.maxNum := not_le.mp free
          refine ⟨free, last_of_exact order good run meets.exact ?_⟩
          exact meets.below data now level unique nData rfl fresh (by omega)

end Steps

section Runs

/-- The contract holds of every operation of a run. -/
def Keeps (cfg : Config V) (ops : List (Op V)) : Prop :=
  ∀ done op rest, ops = done ++ op :: rest →
    ∃ (r : Board cfg) (t : Table cfg) (a : Answer cfg) (r' : Board cfg) (t' : Table cfg),
      run (init cfg) done = some r ∧ Exact r t ∧ step r op = some (r', a) ∧ Meets r t op a r' t'

/-- Every operation fits the board it finds. -/
def AllFit (cfg : Config V) (ops : List (Op V)) : Prop :=
  ∀ done op rest, ops = done ++ op :: rest → ∀ r : Board cfg, run (init cfg) done = some r →
    Fits r op

theorem run_append {r : Board cfg} (done ops : List (Op V)) :
    run r (done ++ ops) = (run r done).bind fun r' => run r' ops := by
  induction done generalizing r with
  | nil => rfl
  | cons op done ih =>
      simp only [List.cons_append, run, Option.bind_eq_bind]
      cases step r op with
      | none => rfl
      | some result => exact ih

theorem AllFit.append_left {done rest : List (Op V)} (fit : AllFit cfg (done ++ rest)) :
    AllFit cfg done := by
  rintro first op mid rfl
  exact fit first op (mid ++ rest) (by simp)

theorem Keeps.append_left {done rest : List (Op V)} (keeps : Keeps cfg (done ++ rest)) :
    Keeps cfg done := by
  rintro first op mid rfl
  exact keeps first op (mid ++ rest) (by simp)

/-- A run whose operations all fit is good to its end. -/
theorem run_good (order : WeakOrder cfg) (pos : 1 ≤ cfg.maxNum) (done : List (Op V)) :
    AllFit cfg done → ∃ r t, run (init cfg) done = some r ∧ Good r t := by
  induction done using List.reverseRecOn with
  | nil => exact fun _ => ⟨_, _, rfl, good_init pos⟩
  | append_singleton done op ih =>
      intro fit
      obtain ⟨r, t, reach, good⟩ := ih fit.append_left
      obtain ⟨a, r', t', moved, _, good'⟩ := step_meets order good (fit done op [] rfl r reach)
      exact ⟨r', t', by simp [run_append, reach, run, moved], good'⟩

theorem Keeps.allFit (order : WeakOrder cfg) (pos : 1 ≤ cfg.maxNum) {ops : List (Op V)} :
    Keeps cfg ops → AllFit cfg ops := by
  induction ops using List.reverseRecOn with
  | nil => exact fun _ done op rest empty => by simp at empty
  | append_singleton ops last ih =>
      intro keeps done op rest split r reach
      have before := ih keeps.append_left
      cases Machine.split_concat split with
      | inl inside =>
          obtain ⟨rest', -, same⟩ := inside
          exact before done op rest' same r reach
      | inr here =>
          obtain ⟨rfl, rfl, rfl⟩ := here
          obtain ⟨r₁, t, reach₁, good⟩ := run_good order pos ops before
          obtain rfl : r₁ = r := Option.some.inj (reach₁.symm.trans reach)
          obtain ⟨r₂, t₂, a, r', t', reach₂, exact, moved, meets⟩ := keeps ops last [] rfl
          obtain rfl : r₁ = r₂ := Option.some.inj (reach₁.symm.trans reach₂)
          obtain rfl : t = t₂ := SaveData.entries.inj (good.saveData.symm.trans exact.saveData)
          exact fits_of_meets order good moved meets

/-- In every run the board keeps its contract exactly when every new record that is
inserted ranks behind all entries and leaves a place free. -/
theorem keeps_iff_allFit (order : WeakOrder cfg) (pos : 1 ≤ cfg.maxNum) (ops : List (Op V)) :
    Keeps cfg ops ↔ AllFit cfg ops := by
  constructor
  · exact Keeps.allFit order pos
  · rintro fit done op rest rfl
    obtain ⟨r, t, reach, good⟩ := run_good order pos done fit.append_left
    obtain ⟨a, r', t', moved, meets, _⟩ := step_meets order good (fit done op rest rfl r reach)
    exact ⟨r, t, a, r', t', reach, good.exact, moved, meets⟩

/-- A run whose operations all fit leaves this table and these kicked uniques. -/
structure Reaches (cfg : Config V) (ops : List (Op V)) (t : Table cfg) (kick : List V) : Prop where
  fit : AllFit cfg ops
  board : ∃ r : Board cfg, run (init cfg) ops = some r ∧ Good r t ∧ r.kickData = kick

namespace Reaches
variable {ops : List (Op V)} {t t' : Table cfg} {kick kick' : List V}

theorem nil (pos : 1 ≤ cfg.maxNum) : Reaches cfg [] [] [] :=
  ⟨fun done op rest empty => by simp at empty, _, rfl, good_init pos, rfl⟩

/-- One operation more, which fits. -/
theorem concat (reaches : Reaches cfg ops t kick) {op : Op V}
    (moves : ∀ r : Board cfg, Good r t → r.kickData = kick → Fits r op ∧
      ∃ r' a, step r op = some (r', a) ∧ Good r' t' ∧ r'.kickData = kick') :
    Reaches cfg (ops ++ [op]) t' kick' := by
  obtain ⟨r, reach, good, kicked⟩ := reaches.board
  obtain ⟨fits, r', a, moved, good', kicked'⟩ := moves r good kicked
  refine ⟨?_, r', by simp [run_append, reach, run, moved], good', kicked'⟩
  intro done op' rest split r₁ reach₁
  cases Machine.split_concat split with
  | inl inside =>
      obtain ⟨rest', -, same⟩ := inside
      exact reaches.fit done op' rest' same r₁ reach₁
  | inr here =>
      obtain ⟨-, rfl, rfl⟩ := here
      obtain rfl : r = r₁ := Option.some.inj (reach.symm.trans reach₁)
      exact fits

/-- A record behind all entries. -/
theorem insert (reaches : Reaches cfg ops t kick) {data : Data V} {now unique : V}
    {nData : Entry cfg} (level : Skiplist.Level) (has : data cfg.uniqueKey = some unique)
    (value : nData.val = withBirth data now) (welcome : unique ∉ kick)
    (absent : unique ∉ t.map Prod.fst) (free : (t.length : Int) + 1 < cfg.maxNum)
    (last : ∀ x ∈ t, compDataFunc x.2 nData < 0) :
    Reaches cfg (ops ++ [.insert data now level]) ((unique, nData) :: t) kick := by
  apply reaches.concat
  intro r good kicked
  have fresh : Fresh r t data now unique nData := ⟨has, kicked ▸ welcome, absent, value⟩
  obtain ⟨r', rank, added, kicked', good'⟩ := add_good level good fresh free.le last
  refine ⟨?_, r', .rank rank none, ?_, good', kicked'.trans kicked⟩
  · intro t₁ unique' nData' table fresh'
    obtain rfl : t = t₁ := SaveData.entries.inj (good.saveData.symm.trans table)
    have entry : nData' = nData := Subtype.ext (fresh'.nData.trans value.symm)
    exact ⟨free, entry ▸ last⟩
  · rw [step, insert_fresh good fresh, if_neg (not_le.mpr free), added]

theorem delete (order : WeakOrder cfg) (reaches : Reaches cfg ops t kick) (unique : V) :
    Reaches cfg (ops ++ [.delete unique]) (Assoc.remove t unique) kick := by
  apply reaches.concat
  intro r good kicked
  obtain ⟨r', ret, moved, kicked', good'⟩ := delete_good order good unique
  exact ⟨trivial, r', _, by rw [step, moved]; rfl, good', kicked'.trans kicked⟩

theorem kickUnique (order : WeakOrder cfg) (reaches : Reaches cfg ops t kick) (unique : V) :
    Reaches cfg (ops ++ [.kickUnique unique]) (Assoc.remove t unique)
      (List.insert unique kick) := by
  apply reaches.concat
  intro r good kicked
  obtain ⟨r', moved, kicked', good'⟩ := kickUnique_good order good unique
  exact ⟨trivial, r', .nothing, by rw [step, moved]; rfl, good', kicked ▸ kicked'⟩

end Reaches

/-- Records with a score, the lower score first. -/
def scoreBoard (maxNum : Int) : Config Int where
  uniqueKey := "uid"
  rankKeyList := ["score"]
  rankCmp := compareOn fun d => (d "score").getD 0
  maxNum := maxNum
  hashNo := fun _ _ => 1

def record (uid score : Int) : Data Int := fun key =>
  if key = "uid" then some uid else if key = "score" then some score else none

theorem scoreBoard_order (maxNum : Int) : WeakOrder (scoreBoard maxNum) :=
  inferInstanceAs (Std.TransCmp (compareOn fun e : Entry (scoreBoard maxNum) =>
    (e.val "score").getD 0))

def entry (maxNum uid score : Int) : Entry (scoreBoard maxNum) :=
  ⟨withBirth (record uid score) 0, by
    intro key mem
    simp only [Config.keys, scoreBoard, List.cons_append, List.nil_append, List.mem_cons,
      List.not_mem_nil, or_false] at mem
    rcases mem with rfl | rfl | rfl <;> simp [withBirth, record, firstkeyBirth]⟩

theorem fresh_entry {maxNum uid score : Int} {r : Board (scoreBoard maxNum)}
    {t : Table (scoreBoard maxNum)} (kick : uid ∉ r.kickData) (absent : uid ∉ t.map Prod.fst) :
    Fresh r t (record uid score) 0 uid (entry maxNum uid score) :=
  ⟨rfl, kick, absent, rfl⟩

/-- A record with a score above all others. -/
theorem Reaches.score {maxNum : Int} {ops : List (Op Int)} {t : Table (scoreBoard maxNum)}
    {kick : List Int} (reaches : Reaches (scoreBoard maxNum) ops t kick) (uid score : Int)
    (welcome : uid ∉ kick) (absent : uid ∉ t.map Prod.fst) (free : (t.length : Int) + 1 < maxNum)
    (last : ∀ x ∈ t, compDataFunc x.2 (entry maxNum uid score) < 0) :
    Reaches (scoreBoard maxNum) (ops ++ [.insert (record uid score) 0 .one])
      ((uid, entry maxNum uid score) :: t) kick :=
  reaches.insert .one rfl rfl welcome absent free last

/-- Two records, of which the first is deleted, and a third one; then the second is kicked, and
the first comes again behind the third. -/
def records : List (Op Int) :=
  [.insert (record 7 30) 0 .one, .insert (record 8 40) 0 .one, .delete 7,
    .insert (record 9 50) 0 .one, .kickUnique 8, .insert (record 7 60) 0 .one]

theorem reaches_records :
    Reaches (scoreBoard 4) records [(7, entry 4 7 60), (9, entry 4 9 50)] [8] := by
  have order := scoreBoard_order 4
  have empty : Reaches (scoreBoard 4) [] [] [] := .nil (by decide)
  have first := empty.score 7 30 (by decide) (by decide) (by decide) (by decide)
  have second := first.score 8 40 (by decide) (by decide) (by decide) (by decide)
  have third := (second.delete order 7).score 9 50 (by decide) (by decide) (by decide) (by decide)
  exact (third.kickUnique order 8).score 7 60 (by decide) (by decide) (by decide) (by decide)

theorem keeps_records : 1 ≤ (scoreBoard 4).maxNum ∧ Keeps (scoreBoard 4) records :=
  ⟨by decide,
    (keeps_iff_allFit (scoreBoard_order 4) (by decide) records).mpr reaches_records.fit⟩

/-- The first record of a board for one raises, and on a board for ten the record
that ranks before the first takes it out of the skip list. -/
theorem not_keeps_single_nor_better :
    ¬ Keeps (scoreBoard 1) [.insert (record 7 30) 0 .one] ∧
      ¬ Keeps (scoreBoard 10) [.insert (record 7 30) 0 .one, .insert (record 8 20) 0 .one] := by
  constructor
  · intro keeps
    have fits := keeps.allFit (scoreBoard_order 1) (by decide) [] _ [] rfl (init _) rfl
    have room := (fits [] 7 (entry 1 7 30) rfl (fresh_entry (by simp [init]) (by simp))).1
    exact absurd room (by decide)
  · intro keeps
    have order := scoreBoard_order 10
    have all := keeps.allFit order (by decide)
    have good : Good (init (scoreBoard 10)) [] := good_init (by decide)
    have fresh : Fresh (init (scoreBoard 10)) [] (record 7 30) 0 7 (entry 10 7 30) :=
      fresh_entry (by simp [init]) (by simp)
    obtain ⟨r, rank, added, kick, good'⟩ := add_good .one good fresh (by decide) (by simp)
    have moved : step (init (scoreBoard 10)) (.insert (record 7 30) 0 .one) =
        some (r, .rank rank none) := by
      rw [step, insert_fresh good fresh, if_neg (by decide), added]
    have fits := all [_] _ [] rfl r (by simp [run, moved])
    have last := (fits _ 8 (entry 10 8 20) good'.saveData
      (fresh_entry (by simp [kick, init]) (by simp))).2 _ List.mem_cons_self
    revert last
    decide

end Runs

section Total

omit [LinearOrder V] in
theorem Config.birth_mem (cfg : Config V) : firstkeyBirth ∈ cfg.keys := by
  simp [Config.keys]

def Entry.birth (e : Entry cfg) : V := e.field ⟨firstkeyBirth, cfg.birth_mem⟩

/-- The comparison orders the records strictly and totally, and an element of the
list is equal to no other one. -/
structure StrictTotal (elems : List (Entry cfg)) : Prop where
  antisymm : ∀ a b : Entry cfg, compDataFunc a b = -compDataFunc b a
  trans : ∀ a b c : Entry cfg, compDataFunc a b < 0 → compDataFunc b c < 0 → compDataFunc a c < 0
  zero : ∀ a b : Entry cfg, compDataFunc a b = 0 → a.unique = b.unique ∧ a.birth = b.birth
  agrees : ∀ a ∈ elems, ∀ b ∈ elems, (compDataFunc a b = 0 ↔ sameDataFunc a b = true)

theorem compKeys_eq {a b : Entry cfg} {keys : List { k // k ∈ cfg.keys }}
    (equal : compKeys a b keys = .eq) : ∀ key ∈ keys, compKey key a b = .eq := by
  induction keys with
  | nil => exact List.forall_mem_nil _
  | cons key keys ih =>
      have parts := Ordering.then_eq_eq.mp equal
      rw [List.forall_mem_cons]
      exact ⟨parts.1, ih parts.2⟩

theorem compKey_eq {a b : Entry cfg} {key : { k // k ∈ cfg.keys }}
    (own : key.val = firstkeyBirth ∨ key.val = cfg.uniqueKey) (equal : compKey key a b = .eq) :
    a.field key = b.field key := by
  simp only [compKey, if_pos own] at equal
  split at equal
  · cases equal
  · split at equal
    · cases equal
    · rename_i notGreater notLess
      exact le_antisymm (not_lt.mp notGreater) (not_lt.mp notLess)

theorem compDataFunc_zero {a b : Entry cfg} :
    compDataFunc a b = 0 ↔ compKeys a b cfg.keys.attach = .eq := by
  simp only [compDataFunc]
  split <;> simp_all

theorem compDataFunc_swap (order : WeakOrder cfg) (a b : Entry cfg) :
    compDataFunc a b = -compDataFunc b a := by
  have swapped := (compKeys_trans order cfg.keys.attach).toOrientedCmp.eq_swap (a := a) (b := b)
  simp only [compDataFunc, swapped]
  cases compKeys b a cfg.keys.attach <;> rfl

/-- Equal entries have the tie-breakers in common. -/
theorem compDataFunc_zero_fields {a b : Entry cfg} (zero : compDataFunc a b = 0) :
    a.unique = b.unique ∧ a.birth = b.birth := by
  have equal := compKeys_eq (compDataFunc_zero.mp zero)
  have unique := equal ⟨cfg.uniqueKey, cfg.uniqueKey_mem⟩ (List.mem_attach ..)
  have birth := equal ⟨firstkeyBirth, cfg.birth_mem⟩ (List.mem_attach ..)
  exact ⟨compKey_eq (.inr rfl) unique, compKey_eq (.inl rfl) birth⟩

theorem sameDataFunc_iff {a b : Entry cfg} : sameDataFunc a b = true ↔ a.unique = b.unique := by
  simp only [sameDataFunc, decide_eq_true_eq, Entry.unique, Entry.field]
  exact Option.get_inj.symm

theorem compDataFunc_strictTotal (order : WeakOrder cfg) {elems : List (Entry cfg)}
    (distinct : (elems.map Entry.unique).Nodup) : StrictTotal elems := by
  have three := threeWay order
  refine ⟨compDataFunc_swap order, ?_, fun a b => compDataFunc_zero_fields, ?_⟩
  · intro a b c first second
    have le := three.trans a b c first.le second.le
    have notEqual : compDataFunc a c ≠ 0 := by
      intro zero
      -- With `c` before `a` as well, `b` would not be before `c`.
      have back : compDataFunc c a ≤ 0 := by
        rw [compDataFunc_swap order, zero]
        decide
      have below := three.trans c a b back first.le
      rw [compDataFunc_swap order] at below
      omega
    omega
  · intro a memA b memB
    rw [sameDataFunc_iff]
    constructor
    · exact fun zero => (compDataFunc_zero_fields zero).1
    · intro same
      obtain rfl := List.inj_on_of_nodup_map distinct memA memB same
      have swap := compDataFunc_swap order a a
      omega

theorem scoreBoard_strictTotal :
    ([entry 10 7 30, entry 10 8 20].map Entry.unique).Nodup ∧
      StrictTotal [entry 10 7 30, entry 10 8 20] := by
  have distinct : ([entry 10 7 30, entry 10 8 20].map Entry.unique).Nodup := by decide
  exact ⟨distinct, compDataFunc_strictTotal (scoreBoard_order 10) distinct⟩

end Total

end Qiuqiu.Rank
