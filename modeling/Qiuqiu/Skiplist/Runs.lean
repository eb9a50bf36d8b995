import Qiuqiu.Skiplist.Insert
import Qiuqiu.Skiplist.Delete

/-!
Runs of `M.Insert` and `M.Delete` from `M.Create`. Every run keeps the
invariant of the list exactly when each insertion is made behind all elements
present: the first insertion made anywhere else loses the rest of the list.
-/
namespace Qiuqiu.Skiplist
open LevelChain
variable {α : Type} (compDataFunc : α → α → Int) (sameDataFunc : α → α → Bool)

inductive Op (α : Type) where
  | insert (nData : α) (level : Level)
  | delete (nData : α)

def step (s : SlData α) : Op α → Option (SlData α)
  | .insert nData level => (insert compDataFunc s nData level).map fun r => r.1
  | .delete nData => (delete compDataFunc sameDataFunc s nData).map fun r => r.1

def run (s : SlData α) : List (Op α) → Option (SlData α)
  | [] => some s
  | op :: ops => do
      let s' ← step compDataFunc sameDataFunc s op
      run s' ops

/-- The elements inserted and not yet deleted. -/
def liveStep (live : List α) : Op α → List α
  | .insert nData _ => nData :: live
  | .delete nData => live.filter fun e => !sameDataFunc e nData

def liveAfter (live : List α) (ops : List (Op α)) : List α :=
  ops.foldl (liveStep sameDataFunc) live

/-- No element is inserted while an equal one is present. -/
def NoClash : List α → List (Op α) → Prop
  | _, [] => True
  | live, op :: ops =>
      (∀ nData level, op = .insert nData level → ∀ e ∈ live, sameDataFunc e nData = false) ∧
        NoClash (liveStep sameDataFunc live op) ops

/-- Every element is inserted behind all those present. -/
def InsertsAtEnd : List α → List (Op α) → Prop
  | _, [] => True
  | live, op :: ops =>
      (∀ nData level, op = .insert nData level → ∀ e ∈ live, compDataFunc e nData < 0) ∧
        InsertsAtEnd (liveStep sameDataFunc live op) ops

/-- The state holds the elements `live` in a laid out list. -/
def Holds (s : SlData α) (live : List α) : Prop :=
  ∃ (ids : List NodeId) (elems : List α), Wf compDataFunc False s ids ∧
    ids.map (fun n => (s.heap n).nData) = elems.map some ∧ elems.Perm live

variable {compDataFunc sameDataFunc}

theorem holds_create : Holds compDataFunc (create : SlData α) [] := by
  refine ⟨[], [], ?_, rfl, List.Perm.nil⟩
  refine {
    nodup := by simp, below := by simp [create], data := by simp, sorted := List.Pairwise.nil
    header := ?_, base := by simp, down := by simp, top := by simp
    level := by simp [create, SKIPLIST_MAXLEVEL], chain := ?_, back := by simp, tail := rfl
    field := fun _ => rfl }
  · intro i
    simp only [SlData.has, SlData.lv, create, slCreateNode]
    split <;> simp_all
  · intro before n after split i slot hslot
    have hafter : after = [] := by
      cases before <;> simp_all
    subst hafter
    simp only [SlData.lv, create, slCreateNode] at hslot
    split at hslot
    · cases hslot
      exact ⟨rfl, fun h => h.1.elim⟩
    · cases hslot

theorem Holds.listInvariant {s : SlData α} {live : List α} (h : Holds compDataFunc s live) :
    ListInvariant compDataFunc s live := by
  obtain ⟨ids, elems, wf, hmap, perm⟩ := h
  exact wf.listInvariant hmap perm

/-- Element by element correspondence of nodes and data. -/
theorem data_mem {s : SlData α} {ids : List NodeId} {elems : List α}
    (hmap : ids.map (fun n => (s.heap n).nData) = elems.map some) :
    (∀ n ∈ ids, ∀ d, (s.heap n).nData = some d → d ∈ elems) := by
  intro n hn d hd
  have : some d ∈ elems.map some := by
    rw [← hmap, ← hd]
    exact List.mem_map_of_mem hn
  simpa using this

theorem insert_atEnd {s : SlData α} {live : List α} (h : Holds compDataFunc s live)
    {nData : α} (level : Level) (atEnd : ∀ e ∈ live, compDataFunc e nData < 0) :
    ∃ s' rank, insert compDataFunc s nData level = some (s', s.nextId, rank) ∧
      s'.length = s.length + 1 ∧ Holds compDataFunc s' (nData :: live) := by
  obtain ⟨ids, elems, wf, hmap, perm⟩ := h
  have cut : Cut compDataFunc s nData ids [] := by
    refine ⟨fun n hn d hd => ?_, by simp⟩
    exact atEnd d (perm.mem_iff.mp (data_mem hmap n hn d hd))
  have wf' : Wf compDataFunc False s (ids ++ []) := by rwa [List.append_nil]
  obtain ⟨s', hrun, ins⟩ := insert_spec wf' cut level
  refine ⟨s', _, hrun, ins.length, ids ++ [s.nextId], elems ++ [nData], ins.wf wf cut, ?_, ?_⟩
  · have oldData : ids.map (fun n => (s'.heap n).nData) = ids.map fun n => (s.heap n).nData := by
      apply List.map_congr_left
      intro n hn
      rw [ins.data, if_neg (ins.has_old wf (List.mem_cons_of_mem _ hn)).1]
    rw [List.map_append, oldData, hmap]
    simp [ins.data]
  · exact (List.perm_append_singleton nData elems).trans (perm.cons nData)

theorem insert_holds {s : SlData α} {live : List α} (h : Holds compDataFunc s live)
    {nData : α} (level : Level) (atEnd : ∀ e ∈ live, compDataFunc e nData < 0) :
    ∃ s', step compDataFunc sameDataFunc s (.insert nData level) = some s' ∧
      Holds compDataFunc s' (nData :: live) := by
  obtain ⟨s', rank, hrun, _, h'⟩ := insert_atEnd h level atEnd
  exact ⟨s', by simp [step, hrun], h'⟩

/-- Elements of the cut part other than the first one are greater than a
target that is not greater than the first. -/
theorem Wf.rest_greater {s : SlData α} {pre rest : List NodeId} {x : NodeId} {nData d : α}
    (wf : Wf compDataFunc False s (pre ++ x :: rest))
    (order : ThreeWay compDataFunc sameDataFunc) (hd : (s.heap x).nData = some d)
    (ge : ¬ compDataFunc d nData < 0) {n : NodeId} (hn : n ∈ rest) {e : α}
    (he : (s.heap n).nData = some e) : 0 < compDataFunc e nData := by
  have sorted := (List.pairwise_append.mp wf.sorted).2.1
  exact order.not_lt_of_not_lt ge ((List.pairwise_cons.mp sorted).1 n hn d e hd he)

theorem delete_holds {s : SlData α} {live : List α} (h : Holds compDataFunc s live)
    (order : ThreeWay compDataFunc sameDataFunc) (nData : α) :
    ∃ s', step compDataFunc sameDataFunc s (.delete nData) = some s' ∧
      Holds compDataFunc s' (live.filter fun e => !sameDataFunc e nData) := by
  obtain ⟨ids, elems, wf, hmap, perm⟩ := h
  obtain ⟨pre, post, rfl, cut⟩ := wf.exists_cut order nData
  obtain ⟨hit, miss⟩ := delete_spec sameDataFunc wf cut
  have differ : ∀ e, compDataFunc e nData ≠ 0 → (!sameDataFunc e nData) = true := by
    intro e he
    cases hsame : sameDataFunc e nData with
    | false => rfl
    | true => exact absurd ((order.same e nData).mp hsame) he
  obtain ⟨epre, epost, rfl, hpre, hpost⟩ := List.map_eq_append_iff.mp
    (hmap.symm.trans (List.map_append ..))
  have keepPre : epre.filter (fun e => !sameDataFunc e nData) = epre := by
    apply List.filter_eq_self.mpr
    intro e he
    have : some e ∈ pre.map fun n => (s.heap n).nData := hpre ▸ List.mem_map_of_mem he
    obtain ⟨n, hn, hne⟩ := List.mem_map.mp this
    have := cut.smaller n hn e hne
    exact differ e (by omega)
  have permFilter := perm.filter fun e => !sameDataFunc e nData
  rw [List.filter_append, keepPre] at permFilter
  cases post with
  | nil =>
      have hrun := miss (by simp)
      cases epost with
      | cons => simp at hpost
      | nil => exact ⟨s, by simp [step, hrun], pre ++ [], epre ++ [], wf, hmap, permFilter⟩
  | cons x rest =>
      cases epost with
      | nil => simp at hpost
      | cons d erest =>
          simp only [List.map_cons, List.cons.injEq] at hpost
          have hd : (s.heap x).nData = some d := hpost.1.symm
          have ge := cut.rest x List.mem_cons_self d hd
          have keepRest : erest.filter (fun e => !sameDataFunc e nData) = erest := by
            apply List.filter_eq_self.mpr
            intro e he
            have : some e ∈ rest.map fun n => (s.heap n).nData :=
              hpost.2 ▸ List.mem_map_of_mem he
            obtain ⟨n, hn, hne⟩ := List.mem_map.mp this
            have := wf.rest_greater order hd ge hn hne
            exact differ e (by omega)
          cases hsame : sameDataFunc d nData with
          | true =>
              obtain ⟨s', hrun, del⟩ := hit x rest d rfl hd hsame
              refine ⟨s', by simp [step, hrun], pre ++ rest, epre ++ erest, del.wf wf, ?_, ?_⟩
              · simp only [del.data, List.map_append, hpre, hpost.2]
              · rw [List.filter_cons_of_neg (by simp [hsame]), keepRest] at permFilter
                exact permFilter
          | false =>
              have hrun := miss (by
                intro y e hy he
                simp only [List.head?_cons, Option.some.injEq] at hy
                rw [← hy, hd, Option.some.injEq] at he
                exact he ▸ hsame)
              refine ⟨s, by simp [step, hrun], pre ++ x :: rest, epre ++ d :: erest, wf, hmap, ?_⟩
              rw [List.filter_cons_of_pos (by simp [hsame]), keepRest] at permFilter
              exact permFilter

/-- Inserting before a present element loses that element from the chain. -/
theorem insert_atEnd_of_path {s s' : SlData α} {live : List α} {r : NodeId × Int}
    (h : Holds compDataFunc s live) (order : ThreeWay compDataFunc sameDataFunc) {nData : α}
    {level : Level} (hrun : insert compDataFunc s nData level = some (s', r))
    {ids' : List NodeId} {elems' : List α} (visits : Path s' 1 s'.headerNode ids')
    (data : ids'.map (fun n => (s'.heap n).nData) = elems'.map some)
    (all : elems'.Perm (nData :: live)) : ∀ e ∈ live, compDataFunc e nData < 0 := by
  obtain ⟨ids, elems, wf, hmap, perm⟩ := h
  obtain ⟨pre, post, rfl, cut⟩ := wf.exists_cut order nData
  obtain ⟨s'', hrun', ins⟩ := insert_spec wf cut level
  obtain rfl : s'' = s' := congrArg Prod.fst (Option.some.inj (hrun'.symm.trans hrun))
  obtain rfl := visits.unique (ins.path wf)
  have count := congrArg List.length data
  have oldCount := congrArg List.length hmap
  have newCount := all.length_eq
  have liveCount := perm.length_eq
  simp only [List.length_map, List.length_append, List.length_cons, List.length_nil] at *
  obtain rfl : post = [] := List.eq_nil_of_length_eq_zero (by omega)
  intro e he
  have : some e ∈ (pre ++ []).map fun n => (s.heap n).nData := by
    rw [hmap]
    exact List.mem_map_of_mem (perm.mem_iff.mpr he)
  obtain ⟨n, hn, hne⟩ := List.mem_map.mp this
  rw [List.append_nil] at hn
  exact cut.smaller n hn e hne

theorem insert_atEnd_of_listInvariant {s s' : SlData α} {live : List α}
    (h : Holds compDataFunc s live) (order : ThreeWay compDataFunc sameDataFunc) {nData : α}
    {level : Level} (hrun : step compDataFunc sameDataFunc s (.insert nData level) = some s')
    (inv : ListInvariant compDataFunc s' (nData :: live)) :
    ∀ e ∈ live, compDataFunc e nData < 0 := by
  obtain ⟨⟨_, r⟩, made, rfl⟩ := Option.map_eq_some_iff.mp hrun
  obtain ⟨ids', elems', layout⟩ := inv
  exact insert_atEnd_of_path h order made layout.visits layout.data layout.live

theorem run_holds (order : ThreeWay compDataFunc sameDataFunc) (ops : List (Op α)) :
    ∀ (s : SlData α) (live : List α), Holds compDataFunc s live →
      InsertsAtEnd compDataFunc sameDataFunc live ops →
      ∃ s', run compDataFunc sameDataFunc s ops = some s' ∧
        Holds compDataFunc s' (liveAfter sameDataFunc live ops) := by
  induction ops with
  | nil => intro s live h _; exact ⟨s, rfl, h⟩
  | cons op ops ih =>
      intro s live h atEnd
      have one : ∃ s', step compDataFunc sameDataFunc s op = some s' ∧
          Holds compDataFunc s' (liveStep sameDataFunc live op) := by
        cases op with
        | insert nData level => exact insert_holds h level (atEnd.1 nData level rfl)
        | delete nData => exact delete_holds h order nData
      obtain ⟨s1, hstep, h1⟩ := one
      obtain ⟨s2, hrun, h2⟩ := ih s1 _ h1 atEnd.2
      exact ⟨s2, by simp [run, hstep, hrun], h2⟩

theorem insertsAtEnd_take {live : List α} {done rest : List (Op α)}
    (h : InsertsAtEnd compDataFunc sameDataFunc live (done ++ rest)) :
    InsertsAtEnd compDataFunc sameDataFunc live done := by
  induction done generalizing live with
  | nil => trivial
  | cons op done ih => exact ⟨h.1, ih h.2⟩

/-- When every state along the run satisfies the invariant, every insertion
was made at the end. -/
theorem insertsAtEnd_of_invariant (order : ThreeWay compDataFunc sameDataFunc)
    (ops : List (Op α)) :
    ∀ (s : SlData α) (live : List α), Holds compDataFunc s live →
      (∀ done rest, ops = done ++ rest → ∃ s', run compDataFunc sameDataFunc s done = some s' ∧
        ListInvariant compDataFunc s' (liveAfter sameDataFunc live done)) →
      InsertsAtEnd compDataFunc sameDataFunc live ops := by
  induction ops with
  | nil => intro s live _ _; trivial
  | cons op ops ih =>
      intro s live h all
      obtain ⟨s1, hrun, inv⟩ := all [op] ops rfl
      have hstep : step compDataFunc sameDataFunc s op = some s1 := by
        cases hs : step compDataFunc sameDataFunc s op with
        | none => simp [run, hs] at hrun
        | some t => simpa [run, hs] using hrun
      have atEnd : ∀ nData level, op = .insert nData level →
          ∀ e ∈ live, compDataFunc e nData < 0 := by
        rintro nData level rfl
        exact insert_atEnd_of_listInvariant h order hstep inv
      have next : Holds compDataFunc s1 (liveStep sameDataFunc live op) := by
        obtain ⟨s2, hrun2, h2⟩ := run_holds order [op] s live h ⟨atEnd, trivial⟩
        rw [hrun, Option.some.injEq] at hrun2
        exact hrun2 ▸ h2
      refine ⟨atEnd, ih s1 _ next ?_⟩
      rintro done rest rfl
      obtain ⟨s2, hrun2, inv2⟩ := all (op :: done) rest rfl
      exact ⟨s2, by simpa [run, hstep] using hrun2, inv2⟩

/-- In a run that inserts no element while an equal one is present, the list
invariant holds in every state reached exactly when every insertion is made
behind all elements present. -/
theorem run_listInvariant_iff_insertsAtEnd (order : ThreeWay compDataFunc sameDataFunc)
    (ops : List (Op α)) (_ : NoClash sameDataFunc [] ops) :
    (∀ done rest, ops = done ++ rest →
      ∃ s, run compDataFunc sameDataFunc create done = some s ∧
        ListInvariant compDataFunc s (liveAfter sameDataFunc [] done)) ↔
      InsertsAtEnd compDataFunc sameDataFunc [] ops := by
  constructor
  · exact insertsAtEnd_of_invariant order ops create [] holds_create
  · rintro atEnd done rest rfl
    obtain ⟨s, hrun, h⟩ := run_holds order done create [] holds_create (insertsAtEnd_take atEnd)
    exact ⟨s, hrun, h.listInvariant⟩

theorem run_listInvariant_ascending :
    ∃ s, run (fun a b : Int => a - b) (fun a b => decide (a = b)) create
        [.insert 1 .one, .insert 2 .one, .delete 1] = some s ∧
      ListInvariant (fun a b => a - b) s [2] := by
  refine (run_listInvariant_iff_insertsAtEnd threeWay_int
    [.insert 1 .one, .insert 2 .one, .delete 1] ?_).mpr ?_
    [.insert 1 .one, .insert 2 .one, .delete 1] [] rfl
  · simp [NoClash, liveStep]
  · simp [InsertsAtEnd, liveStep]

theorem run_listInvariant_descending_false :
    NoClash (fun a b : Int => decide (a = b)) [] [.insert 2 .one, .insert 1 .one] ∧
      ¬ ∃ s, run (fun a b : Int => a - b) (fun a b => decide (a = b)) create
          [.insert 2 .one, .insert 1 .one] = some s ∧
        ListInvariant (fun a b => a - b) s [1, 2] := by
  constructor
  · simp [NoClash, liveStep]
  · intro ⟨s, hrun, inv⟩
    have first : ∃ s1, step (fun a b : Int => a - b) (fun a b => decide (a = b)) create
        (.insert 2 .one) = some s1 ∧ Holds (fun a b : Int => a - b) s1 [2] :=
      insert_holds holds_create .one (by simp)
    obtain ⟨s1, hstep, h1⟩ := first
    rw [run, hstep] at hrun
    have hlast : step (fun a b : Int => a - b) (fun a b => decide (a = b)) s1
        (.insert 1 .one) = some s := by
      simpa [run] using hrun
    have lt := insert_atEnd_of_listInvariant h1 threeWay_int hlast inv 2 List.mem_cons_self
    exact absurd lt (by decide)

end Qiuqiu.Skiplist
