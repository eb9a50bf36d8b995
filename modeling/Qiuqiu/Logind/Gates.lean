import Mathlib.Data.List.Perm.Basic
import Qiuqiu.Logind.Online

/-!
The choice of a gate. `register_gate` sets `online_cnd` where `get_rserver`
reads `online_cnt`: a gate has no count until a login there returned one, and
the comparison of a count with a missing one raises.
-/
namespace Qiuqiu.Logind
variable {Urs Uid Name : Type} [DecidableEq Urs] [DecidableEq Name]

/-- The gate is valid and has this count. -/
def ValidGate (serverList : AList fun _ : Name => Serverinfo) (servername : Name)
    (onlineCnt : Option Nat) : Prop :=
  ∃ serverinfo, serverList.lookup servername = some serverinfo ∧ serverinfo.isvalid = true ∧
    serverinfo.onlineCnt = onlineCnt

/-- The order of the counts; two gates without a count are alike. -/
def cntLe : Option Nat → Option Nat → Prop
  | none, none => True
  | some m, some n => m ≤ n
  | _, _ => False

/-- In every order of the gates `get_rserver` does not raise, and it returns a
valid gate with the least count if a gate is valid. -/
def State.Selects (s : State Urs Uid Name) : Prop :=
  ∀ order : List Name, order.Perm s.serverList.keys →
    ∃ found, s.getRserver order = .ok found ∧
      ∀ servername onlineCnt, ValidGate s.serverList servername onlineCnt →
        ∃ least cnt, found = some least ∧ ValidGate s.serverList least cnt ∧ cntLe cnt onlineCnt

/-- The gate is registered with a count, or a login there returns one. -/
def counts (servername : Name) : Event Urs Uid Name × Output Urs Uid Name → Bool
  | (.registerGate servername' serverinfo, .returns) =>
      servername' = servername && serverinfo.onlineCnt.isSome
  | (_, .loggedIn _ servername' _ _ _ _) => servername' = servername
  | _ => false

def counted (trace : List (Event Urs Uid Name × Output Urs Uid Name)) (servername : Name) : Bool :=
  trace.any (counts servername)

section Loop
variable {serverList : AList fun _ : Name => Serverinfo}

theorem getRserverLoop_cons_of_counted {servername : Name} {n : Nat}
    (valid : ValidGate serverList servername (some n)) (best : Option Name) (cnt : Option Nat)
    (rest : List Name) :
    getRserverLoop serverList best cnt (servername :: rest) =
      if cnt.all (n < ·) then getRserverLoop serverList (some servername) (some n) rest
      else getRserverLoop serverList best cnt rest := by
  obtain ⟨serverinfo, found, isvalid, counted⟩ := valid
  cases cnt with
  | none => simp [getRserverLoop, found, isvalid, counted]
  | some m => simp [getRserverLoop, found, isvalid, counted]

theorem getRserverLoop_cons_of_uncounted {servername : Name}
    (valid : ValidGate serverList servername none) (best : Option Name) (cnt : Option Nat)
    (rest : List Name) :
    getRserverLoop serverList best cnt (servername :: rest) =
      if cnt.isSome then .error () else getRserverLoop serverList (some servername) none rest := by
  obtain ⟨serverinfo, found, isvalid, counted⟩ := valid
  cases cnt with
  | none => simp [getRserverLoop, found, isvalid, counted]
  | some m => simp [getRserverLoop, found, isvalid, counted]

theorem getRserverLoop_cons_of_invalid {servername : Name}
    (invalid : ∀ onlineCnt, ¬ ValidGate serverList servername onlineCnt) (best : Option Name)
    (cnt : Option Nat) (rest : List Name) :
    getRserverLoop serverList best cnt (servername :: rest) =
      getRserverLoop serverList best cnt rest := by
  cases found : serverList.lookup servername with
  | none => simp [getRserverLoop, found]
  | some serverinfo =>
      have isvalid : serverinfo.isvalid = false := by
        by_contra valid
        exact invalid _ ⟨serverinfo, found, by simpa using valid, rfl⟩
      simp [getRserverLoop, found, isvalid]

theorem ValidGate.count_unique {servername : Name} {n k : Nat}
    (valid : ValidGate serverList servername (some n))
    (again : ValidGate serverList servername (some k)) : k = n := by
  obtain ⟨serverinfo, found, _, count⟩ := again
  obtain ⟨serverinfo', found', _, count'⟩ := valid
  cases found.symm.trans found'
  exact Option.some.inj (count.symm.trans count')

theorem invalid_of_neither {servername : Name}
    (uncounted : ¬ ValidGate serverList servername none)
    (counted : ∀ n, ¬ ValidGate serverList servername (some n)) :
    ∀ onlineCnt, ¬ ValidGate serverList servername onlineCnt := by
  intro onlineCnt
  cases onlineCnt with
  | none => exact uncounted
  | some n => exact counted n

/-- What the loop holds: nothing, or a valid gate with its count. -/
def Held (serverList : AList fun _ : Name => Serverinfo) (best : Option Name) (cnt : Option Nat) :
    Prop :=
  best = none ∧ cnt = none ∨
    ∃ servername n, best = some servername ∧ cnt = some n ∧
      ValidGate serverList servername (some n)

/-- Gates with counts: the loop returns one with the least count. -/
theorem getRserverLoop_counted (order : List Name)
    (all : ∀ servername ∈ order, ¬ ValidGate serverList servername none) :
    ∀ best cnt, Held serverList best cnt → ∃ found cnt',
      getRserverLoop serverList best cnt order = .ok found ∧ Held serverList found cnt' ∧
      (∀ n, cnt = some n → ∃ m, cnt' = some m ∧ m ≤ n) ∧
      ∀ servername ∈ order, ∀ n, ValidGate serverList servername (some n) →
        ∃ m, cnt' = some m ∧ m ≤ n := by
  induction order with
  | nil =>
      intro best cnt held
      exact ⟨best, cnt, rfl, held, fun n same => ⟨n, same, Nat.le_refl n⟩, by simp⟩
  | cons servername rest ih =>
      intro best cnt held
      have ih := ih fun name mem => all name (List.mem_cons_of_mem _ mem)
      by_cases valid : ∃ n, ValidGate serverList servername (some n)
      · obtain ⟨n, valid⟩ := valid
        rw [getRserverLoop_cons_of_counted valid]
        split
        · rename_i less
          obtain ⟨found, cnt', result, held', below, least⟩ :=
            ih (some servername) (some n) (.inr ⟨servername, n, rfl, rfl, valid⟩)
          refine ⟨found, cnt', result, held', ?_, List.forall_mem_cons.2 ⟨?_, least⟩⟩
          · rintro k rfl
            obtain ⟨m, same, le⟩ := below n rfl
            exact ⟨m, same, Nat.le_of_lt (Nat.lt_of_le_of_lt le (by simpa using less))⟩
          · intro k gate
            rw [valid.count_unique gate]
            exact below n rfl
        · rename_i notLess
          obtain ⟨found, cnt', result, held', below, least⟩ := ih best cnt held
          refine ⟨found, cnt', result, held', below, List.forall_mem_cons.2 ⟨?_, least⟩⟩
          intro k gate
          rw [valid.count_unique gate]
          cases cnt with
          | none => simp at notLess
          | some j =>
              obtain ⟨m, same, le⟩ := below j rfl
              exact ⟨m, same, Nat.le_trans le (by simpa using notLess)⟩
      · have uncounted := all servername List.mem_cons_self
        have counted : ∀ n, ¬ ValidGate serverList servername (some n) := not_exists.1 valid
        rw [getRserverLoop_cons_of_invalid (invalid_of_neither uncounted counted)]
        obtain ⟨found, cnt', result, held', below, least⟩ := ih best cnt held
        refine ⟨found, cnt', result, held', below, List.forall_mem_cons.2 ⟨?_, least⟩⟩
        intro k gate
        exact absurd gate (counted k)

/-- Gates without counts: the loop returns the last valid one. -/
theorem getRserverLoop_uncounted (order : List Name)
    (all : ∀ servername ∈ order, ∀ n, ¬ ValidGate serverList servername (some n)) :
    ∀ best, ∃ found, getRserverLoop serverList best none order = .ok found ∧
      (((∃ servername, best = some servername ∧ ValidGate serverList servername none) ∨
          ∃ servername ∈ order, ValidGate serverList servername none) →
        ∃ servername, found = some servername ∧ ValidGate serverList servername none) := by
  induction order with
  | nil =>
      intro best
      refine ⟨best, rfl, ?_⟩
      rintro (held | ⟨_, mem, _⟩)
      · exact held
      · cases mem
  | cons servername rest ih =>
      intro best
      have ih := ih fun name mem => all name (List.mem_cons_of_mem _ mem)
      by_cases uncounted : ValidGate serverList servername none
      · rw [getRserverLoop_cons_of_uncounted uncounted]
        obtain ⟨found, result, held⟩ := ih (some servername)
        exact ⟨found, result, fun _ => held (.inl ⟨servername, rfl, uncounted⟩)⟩
      · have invalid := invalid_of_neither uncounted (all servername List.mem_cons_self)
        rw [getRserverLoop_cons_of_invalid invalid]
        obtain ⟨found, result, held⟩ := ih best
        refine ⟨found, result, ?_⟩
        rintro (before | ⟨name, mem, gate⟩)
        · exact held (.inl before)
        · cases List.mem_cons.1 mem with
          | inl here =>
              subst here
              exact absurd gate uncounted
          | inr later => exact held (.inr ⟨name, later, gate⟩)

/-- A count in the loop and a valid gate without one: the loop raises. -/
theorem getRserverLoop_raises {servername : Name} (valid : ValidGate serverList servername none)
    (order : List Name) (mem : servername ∈ order) :
    ∀ best n, getRserverLoop serverList best (some n) order = .error () := by
  induction order with
  | nil => cases mem
  | cons name rest ih =>
      intro best n
      by_cases uncounted : ValidGate serverList name none
      · rw [getRserverLoop_cons_of_uncounted uncounted]
        rfl
      · have later : servername ∈ rest := by
          refine (List.mem_cons.1 mem).resolve_left ?_
          rintro rfl
          exact uncounted valid
        by_cases gate : ∃ k, ValidGate serverList name (some k)
        · obtain ⟨k, gate⟩ := gate
          rw [getRserverLoop_cons_of_counted gate]
          split
          · exact ih later (some name) k
          · exact ih later best n
        · rw [getRserverLoop_cons_of_invalid (invalid_of_neither uncounted (not_exists.1 gate))]
          exact ih later best n

end Loop

theorem ValidGate.mem {serverList : AList fun _ : Name => Serverinfo} {servername : Name}
    {onlineCnt : Option Nat} (valid : ValidGate serverList servername onlineCnt) :
    servername ∈ serverList.keys := by
  obtain ⟨serverinfo, found, _⟩ := valid
  rw [← AList.mem_keys, ← AList.lookup_isSome, found]
  rfl

theorem ValidGate.unique {serverList : AList fun _ : Name => Serverinfo} {servername : Name}
    {m n : Option Nat} (valid : ValidGate serverList servername m)
    (valid' : ValidGate serverList servername n) : m = n := by
  obtain ⟨serverinfo, found, _, count⟩ := valid
  obtain ⟨serverinfo', found', _, count'⟩ := valid'
  cases found.symm.trans found'
  exact count.symm.trans count'

/-- The valid gates all have a count, or none of them has. -/
def State.Uniform (s : State Urs Uid Name) : Prop :=
  (∀ servername, ¬ ValidGate s.serverList servername none) ∨
    ∀ servername n, ¬ ValidGate s.serverList servername (some n)

theorem State.selects_iff_uniform (s : State Urs Uid Name) : s.Selects ↔ s.Uniform := by
  constructor
  · intro selects
    by_contra mixed
    simp only [State.Uniform, not_or, not_forall, not_not] at mixed
    obtain ⟨⟨uncounted, gate⟩, counted, n, gate'⟩ := mixed
    -- the gate with a count comes first
    have order : (counted :: s.serverList.keys.erase counted).Perm s.serverList.keys :=
      (List.perm_cons_erase gate'.mem).symm
    obtain ⟨found, result, _⟩ := selects _ order
    have ne : uncounted ≠ counted := by
      rintro rfl
      cases gate.unique gate'
    have raises := getRserverLoop_raises gate _ ((List.mem_erase_of_ne ne).2 gate.mem)
      (some counted) n
    rw [State.getRserver, getRserverLoop_cons_of_counted gate', if_pos (by simp), raises] at result
    cases result
  · intro uniform order perm
    cases uniform with
    | inl counted =>
        obtain ⟨found, cnt, result, held, _, least⟩ :=
          getRserverLoop_counted order (fun servername _ => counted servername) none none
            (.inl ⟨rfl, rfl⟩)
        refine ⟨found, result, ?_⟩
        intro servername onlineCnt valid
        cases onlineCnt with
        | none => exact absurd valid (counted servername)
        | some n =>
            obtain ⟨m, same, le⟩ := least servername (perm.mem_iff.2 valid.mem) n valid
            cases held with
            | inl nothing =>
                rw [nothing.2] at same
                cases same
            | inr held =>
                obtain ⟨least, k, here, count, gate⟩ := held
                cases same.symm.trans count
                exact ⟨least, some m, here, gate, le⟩
    | inr uncounted =>
        obtain ⟨found, result, held⟩ :=
          getRserverLoop_uncounted order (fun servername _ => uncounted servername) none
        refine ⟨found, result, ?_⟩
        intro servername onlineCnt valid
        cases onlineCnt with
        | some n => exact absurd valid (uncounted servername n)
        | none =>
            obtain ⟨least, here, gate⟩ :=
              held (.inr ⟨servername, perm.mem_iff.2 valid.mem, valid⟩)
            exact ⟨least, none, here, gate, trivial⟩

omit [DecidableEq Urs] in
theorem counted_concat (trace : List (Event Urs Uid Name × Output Urs Uid Name))
    (x : Event Urs Uid Name × Output Urs Uid Name) (servername : Name) :
    counted (trace ++ [x]) servername = (counted trace servername || counts servername x) := by
  simp [counted]

omit [DecidableEq Urs] in
theorem counts_of_plain {e : Event Urs Uid Name} {o : Output Urs Uid Name}
    (plain : e.servername = none ∨ o = .raises) (out : o.isLoggedIn = false) (servername : Name) :
    counts servername (e, o) = false := by
  cases o with
  | loggedIn _ _ _ _ _ _ => cases out
  | returns =>
      have plain := plain.resolve_right (by simp)
      cases e with
      | registerGate _ _ => cases plain
      | _ => rfl
  | _ => cases e <;> rfl

/-- A gate has a count exactly if it has been counted. -/
def Tracked (trace : List (Event Urs Uid Name × Output Urs Uid Name)) (s : State Urs Uid Name) :
    Prop :=
  ∀ servername, match s.serverList.lookup servername with
    | none => counted trace servername = false
    | some serverinfo => serverinfo.onlineCnt.isSome = counted trace servername

theorem Tracked.step {trace : List (Event Urs Uid Name × Output Urs Uid Name)}
    {s s' : State Urs Uid Name} {e : Event Urs Uid Name} {o : Output Urs Uid Name}
    (tracked : Tracked trace s) (change : Change s e o s') :
    Tracked (trace ++ [(e, o)]) s' := by
  intro servername
  have before := tracked servername
  rw [counted_concat]
  cases change with
  | none gates _ plain out =>
      rw [gates, counts_of_plain plain out, Bool.or_false]
      exact before
  | @registered name serverinfo _ _ fresh gates _ out =>
      subst out
      rw [gates]
      by_cases same : servername = name
      · subst same
        rw [fresh] at before
        rw [AList.lookup_insert]
        simp only [counts, decide_true, Bool.true_and, before, Bool.false_or]
      · rw [AList.lookup_insert_ne same]
        simpa only [counts, Ne.symm same, decide_false, Bool.false_and, Bool.or_false] using before
  | @invalidated _ _ _ name serverinfo found gates _ plain out =>
      rw [gates, counts_of_plain (.inl plain) out, Bool.or_false]
      by_cases same : servername = name
      · subst same
        rw [found] at before
        rw [AList.lookup_insert]
        exact before
      · rw [AList.lookup_insert_ne same]
        exact before
  | @entered _ _ _ name serverinfo _ _ _ _ found gates _ =>
      rw [gates]
      by_cases same : servername = name
      · subst same
        rw [AList.lookup_insert]
        simp only [counts, decide_true, Bool.or_true, Option.isSome_some]
      · rw [AList.lookup_insert_ne same]
        simpa only [counts, Ne.symm same, decide_false, Bool.false_and, Bool.or_false] using before

theorem tracked_of_reach {trace : List (Event Urs Uid Name × Output Urs Uid Name)}
    {s : State Urs Uid Name} (reach : machine.Reach trace s) : Tracked trace s := by
  induction reach with
  | init =>
      intro servername
      rw [show machine.init.serverList.lookup servername = none from AList.lookup_empty servername]
      rfl
  | next reach step ih => exact ih.step ((nobodyOnline_of_reach reach).step step).1

theorem ValidGate.counted {trace : List (Event Urs Uid Name × Output Urs Uid Name)}
    {s : State Urs Uid Name} (tracked : Tracked trace s) {servername : Name}
    {onlineCnt : Option Nat} (valid : ValidGate s.serverList servername onlineCnt) :
    counted trace servername = onlineCnt.isSome := by
  obtain ⟨serverinfo, found, _, count⟩ := valid
  have here := tracked servername
  rw [found] at here
  rw [← count]
  exact here.symm

/-- `get_rserver` selects exactly while the valid gates have all been counted
or none of them has. -/
theorem selects_iff_counted {trace : List (Event Urs Uid Name × Output Urs Uid Name)}
    {s : State Urs Uid Name} (reach : machine.Reach trace s) :
    s.Selects ↔
      (∀ servername cnt, ValidGate s.serverList servername cnt → counted trace servername = true) ∨
        ∀ servername cnt, ValidGate s.serverList servername cnt →
          counted trace servername = false := by
  have tracked := tracked_of_reach reach
  rw [State.selects_iff_uniform]
  refine or_congr ⟨?_, ?_⟩ ⟨?_, ?_⟩
  · intro all servername cnt valid
    rw [valid.counted tracked]
    cases cnt with
    | none => exact absurd valid (all servername)
    | some n => rfl
  · intro all servername valid
    have yes := all servername none valid
    rw [valid.counted tracked] at yes
    cases yes
  · intro all servername cnt valid
    rw [valid.counted tracked]
    cases cnt with
    | none => rfl
    | some n => exact absurd valid (all servername n)
  · intro all servername n valid
    have no := all servername (some n) valid
    rw [valid.counted tracked] at no
    cases no

theorem selects_of_two_fresh_gates :
    ∃ trace s, (machine : Machine (State Nat Nat Nat) _ _).Reach trace s ∧
      (∃ cnt, ValidGate s.serverList 0 cnt) ∧ (∃ cnt, ValidGate s.serverList 1 cnt) ∧
      s.Selects := by
  have run : ∃ s, (machine : Machine (State Nat Nat Nat) _ _).Reach
      [(.registerGate 0 ⟨1, "game", "ip", 80, 81, none, none, false⟩, .returns),
        (.registerGate 1 ⟨2, "game", "ip", 82, 83, none, none, false⟩, .returns)] s ∧
      (∃ cnt, ValidGate s.serverList 0 cnt) ∧ ∃ cnt, ValidGate s.serverList 1 cnt :=
    ⟨_, .next (.next .init rfl) rfl, ⟨none, _, rfl, rfl, rfl⟩, ⟨none, _, rfl, rfl, rfl⟩⟩
  obtain ⟨s, reach, zero, one⟩ := run
  refine ⟨_, s, reach, zero, one, (selects_iff_counted reach).2 (.inr ?_)⟩
  intro servername _ _
  simp [counted, counts]

/-- A login on the second gate and a selection that meets the first one later. -/
theorem uncounted_gate_raises :
    ¬ ∀ trace (s : State Nat Nat Nat), machine.Reach trace s → s.Selects := by
  intro all
  have run : ∃ s, (machine : Machine (State Nat Nat Nat) _ _).Reach
      [(.registerGate 0 ⟨1, "game", "ip", 80, 81, none, none, false⟩, .returns),
        (.registerGate 1 ⟨2, "game", "ip", 82, 83, none, none, false⟩, .returns),
        (.loginHandler 0 7 1 [0, 1], .calls 1 .login),
        (.replied 0 5 [], .loggedIn 7 1 1 "ip" 82 83)] s ∧
      s.serverList.keys = [1, 0] ∧ s.getRserver [1, 0] = .error () :=
    ⟨_, .next (.next (.next (.next .init rfl) rfl) rfl) rfl, rfl, rfl⟩
  obtain ⟨s, reach, keys, raises⟩ := run
  obtain ⟨found, result, _⟩ := all _ s reach [1, 0] (by rw [keys])
  rw [raises] at result
  cases result

end Qiuqiu.Logind
