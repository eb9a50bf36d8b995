import Mathlib.Data.List.AList
import Mathlib.Logic.Function.Basic
import Qiuqiu.Base.Machine

/-!
The listeners of lualib/rpc.lua: a pool of tables, the table of the listeners
by number, the callbacks that steal a listener and `FCheck`, which takes the
late ones out first and calls them afterwards. A listener stands for one
registration; between two calls of `FCheck` anything may run.
-/
namespace Qiuqiu.Rpc.Listeners

/-- A table of the pool or of `LISTENER_FUNC`. -/
structure Ctbl where
  listener : Option Nat
  eTime : Option Nat

structure State where
  poolTable : List Nat
  listenerFunc : AList fun _ : Nat => Nat
  listenerNo : Nat
  heap : Nat → Ctbl
  nextRef : Nat
  /-- The late listeners that the coroutines of `FCheck` still have to call. -/
  delListener : Nat → List Nat
  /-- Not in the source: the number of registrations. -/
  registered : Nat

/-- `now` is `os.time()`, `order` is the order of `pairs(LISTENER_FUNC)`. -/
inductive Event where
  | register (sameNode : Bool) (now : Nat)
  | agentCallback (lNo : Nat)
  | agentRecallCallback (lNo : Nat)
  | fCheck (c now : Nat) (order : List Nat)
  | tryCall (c : Nat)

inductive Output where
  | registered (listener no : Nat)
  | invokes (listener : Nat)
  | timesOut (listener : Nat)
  | returns
  | raises

def rpcTimeoutSec : Nat := 2
def snodeRpcTimeoutSec : Nat := 10

/-- The loop of `FCheck` over `LISTENER_FUNC`. -/
def sweep (heap : Nat → Ctbl) (nTime : Nat) : (AList fun _ : Nat => Nat) → List Nat → List Nat →
    Except (AList fun _ : Nat => Nat) ((AList fun _ : Nat => Nat) × List Nat)
  | listenerFunc, delListener, [] => .ok (listenerFunc, delListener)
  | listenerFunc, delListener, no :: rest =>
      match listenerFunc.lookup no with
      | none => sweep heap nTime listenerFunc delListener rest
      | some data =>
          match (heap data).eTime with
          | none => .error listenerFunc
          | some eTime =>
              if eTime < nTime then
                sweep heap nTime (listenerFunc.erase no)
                  (delListener ++ (heap data).listener.toList) rest
              else sweep heap nTime listenerFunc delListener rest

namespace State
variable (s : State)

def createTable (listener eTime : Nat) : State × Nat :=
  match s.poolTable.getLast? with
  | some ctbl =>
      ({ s with
        poolTable := s.poolTable.dropLast
        heap := Function.update s.heap ctbl ⟨some listener, some eTime⟩ }, ctbl)
  | none =>
      ({ s with
        heap := Function.update s.heap s.nextRef ⟨some listener, some eTime⟩
        nextRef := s.nextRef + 1 }, s.nextRef)

def addCacheTable (tbl : Nat) : State :=
  if s.poolTable.length ≥ 200 then s
  else
    { s with
      heap := Function.update s.heap tbl ⟨none, none⟩
      poolTable := s.poolTable ++ [tbl] }

/-- `_AddListener`, called by `obj_cb_send` and `obj_recall_send`. -/
def addListener (listener eTime : Nat) : State × Nat :=
  let listenerNo := if s.listenerNo + 1 > 100000000 then 1 else s.listenerNo + 1
  let (t, ctbl) := s.createTable listener eTime
  ({ t with
    listenerNo := listenerNo
    listenerFunc := t.listenerFunc.insert listenerNo ctbl }, listenerNo)

def stealListener (no : Nat) : State × Option Nat :=
  match s.listenerFunc.lookup no with
  | some tbl =>
      ({ s with listenerFunc := s.listenerFunc.erase no }.addCacheTable tbl, (s.heap tbl).listener)
  | none => (s, none)

/-- `agent_callback` and `agent_recall_callback`. -/
def callback (lNo : Nat) : State × Output :=
  match s.stealListener lNo with
  | (s, some listener) => (s, .invokes listener)
  | (s, none) => (s, .raises)

def register (sameNode : Bool) (now : Nat) : State × Output :=
  let timeout := if sameNode then snodeRpcTimeoutSec else rpcTimeoutSec
  let listener := s.registered + 1
  let (s, no) := { s with registered := listener }.addListener listener (now + timeout)
  (s, .registered listener no)

def fCheck (c nTime : Nat) (order : List Nat) : State × Output :=
  match sweep s.heap nTime s.listenerFunc [] order with
  | .ok (listenerFunc, delListener) =>
      ({ s with
        listenerFunc := listenerFunc
        delListener := Function.update s.delListener c delListener }, .returns)
  | .error listenerFunc => ({ s with listenerFunc := listenerFunc }, .raises)

def step : Event → Option (State × Output)
  | .register sameNode now => some (s.register sameNode now)
  | .agentCallback lNo => some (s.callback lNo)
  | .agentRecallCallback lNo => some (s.callback lNo)
  | .fCheck c now order =>
      if s.delListener c = [] ∧ order.Perm s.listenerFunc.keys then some (s.fCheck c now order)
      else none
  | .tryCall c =>
      match s.delListener c with
      | listener :: rest =>
          some ({ s with delListener := Function.update s.delListener c rest }, .timesOut listener)
      | [] => none

end State

def machine : Machine State Event Output where
  init := ⟨[], ∅, 0, fun _ => ⟨none, none⟩, 0, fun _ => [], 0⟩
  step := State.step

def Output.registers : Output → Bool
  | .registered _ _ => true
  | _ => false

def Output.invoked : Output → Option Nat
  | .invokes listener => some listener
  | .timesOut listener => some listener
  | _ => none

def registrations (trace : List (Event × Output)) : Nat := trace.countP fun x => x.2.registers

/-- The listeners that were called, in this order. -/
def invocations (trace : List (Event × Output)) : List Nat := trace.filterMap fun x => x.2.invoked

/-- The tables: those of the listeners are pairwise distinct and hold them, and
so are those of the pool. -/
structure Tables (s : State) : Prop where
  listener : ∀ no ref, s.listenerFunc.lookup no = some ref → (s.heap ref).listener = some no
  eTime : ∀ no ref, s.listenerFunc.lookup no = some ref → (s.heap ref).eTime.isSome
  old : ∀ no ref, s.listenerFunc.lookup no = some ref → ref < s.nextRef
  pooled : ∀ ref ∈ s.poolTable, ref < s.nextRef
  apart : ∀ ref ∈ s.poolTable, ∀ no, s.listenerFunc.lookup no ≠ some ref
  nodup : s.poolTable.Nodup

namespace Tables
variable {s : State}

theorem injective (tables : Tables s) {no no' ref : Nat}
    (found : s.listenerFunc.lookup no = some ref) (found' : s.listenerFunc.lookup no' = some ref) :
    no = no' :=
  Option.some.inj ((tables.listener no ref found).symm.trans (tables.listener no' ref found'))

/-- A table that is not in use takes the listener. -/
theorem insert (tables : Tables s) {t : State} {no ref eTime : Nat}
    (heap : t.heap = Function.update s.heap ref ⟨some no, some eTime⟩)
    (listenerFunc : t.listenerFunc = s.listenerFunc.insert no ref)
    (free : ∀ no, s.listenerFunc.lookup no ≠ some ref) (below : ref < t.nextRef)
    (grown : s.nextRef ≤ t.nextRef) (pool : ∀ ref' ∈ t.poolTable, ref' ∈ s.poolTable ∧ ref' ≠ ref)
    (nodup : t.poolTable.Nodup) : Tables t := by
  have lookup : ∀ no' ref', t.listenerFunc.lookup no' = some ref' →
      no' = no ∧ ref' = ref ∨ ref' ≠ ref ∧ s.listenerFunc.lookup no' = some ref' := by
    intro no' ref' found
    rw [listenerFunc] at found
    by_cases same : no' = no
    · subst same
      rw [AList.lookup_insert] at found
      exact .inl ⟨rfl, (Option.some.inj found).symm⟩
    · rw [AList.lookup_insert_ne same] at found
      refine .inr ⟨?_, found⟩
      rintro rfl
      exact free no' found
  refine ⟨?_, ?_, ?_, ?_, ?_, nodup⟩
  · intro no' ref' found
    rw [heap]
    obtain ⟨rfl, rfl⟩ | ⟨ne, old⟩ := lookup no' ref' found
    · rw [Function.update_self]
    · rw [Function.update_of_ne ne]
      exact tables.listener no' ref' old
  · intro no' ref' found
    rw [heap]
    obtain ⟨rfl, rfl⟩ | ⟨ne, old⟩ := lookup no' ref' found
    · rw [Function.update_self]
      rfl
    · rw [Function.update_of_ne ne]
      exact tables.eTime no' ref' old
  · intro no' ref' found
    obtain ⟨rfl, rfl⟩ | ⟨_, old⟩ := lookup no' ref' found
    · exact below
    · exact Nat.lt_of_lt_of_le (tables.old no' ref' old) grown
  · intro ref' mem
    exact Nat.lt_of_lt_of_le (tables.pooled ref' (pool ref' mem).1) grown
  · intro ref' mem no' found
    obtain ⟨rfl, rfl⟩ | ⟨_, old⟩ := lookup no' ref' found
    · exact (pool ref' mem).2 rfl
    · exact tables.apart ref' (pool ref' mem).1 no' old

theorem addListener (tables : Tables s) {listener eTime : Nat}
    (number : (if s.listenerNo + 1 > 100000000 then 1 else s.listenerNo + 1) = listener) :
    Tables (s.addListener listener eTime).1 := by
  simp only [State.addListener, State.createTable]
  rw [number]
  split
  · rename_i ctbl last
    have mem : ctbl ∈ s.poolTable := List.mem_of_getLast? last
    have split : s.poolTable = s.poolTable.dropLast ++ [ctbl] :=
      (List.dropLast_append_getLast? ctbl last).symm
    have nodup := tables.nodup
    rw [split] at nodup
    have apart := (List.nodup_append.1 nodup).2.2
    refine tables.insert rfl rfl (tables.apart ctbl mem) (tables.pooled ctbl mem) (Nat.le_refl _) ?_
      (List.nodup_append.1 nodup).1
    intro ref' mem'
    exact ⟨List.dropLast_subset _ mem', apart ref' mem' ctbl (List.mem_singleton_self ctbl)⟩
  · refine tables.insert rfl rfl ?_ (Nat.lt_succ_self _) (Nat.le_succ _) ?_ tables.nodup
    · intro no found
      exact Nat.lt_irrefl _ (tables.old no _ found)
    · intro ref' mem
      exact ⟨mem, Nat.ne_of_lt (tables.pooled ref' mem)⟩

/-- Fewer listeners. -/
theorem remove (tables : Tables s) {listenerFunc : AList fun _ : Nat => Nat}
    (sub : ∀ no ref, listenerFunc.lookup no = some ref → s.listenerFunc.lookup no = some ref)
    (delListener : Nat → List Nat) :
    Tables { s with listenerFunc := listenerFunc, delListener := delListener } where
  listener := fun no ref found => tables.listener no ref (sub no ref found)
  eTime := fun no ref found => tables.eTime no ref (sub no ref found)
  old := fun no ref found => tables.old no ref (sub no ref found)
  pooled := tables.pooled
  apart := fun ref mem no found => tables.apart ref mem no (sub no ref found)
  nodup := tables.nodup

theorem addCacheTable (tables : Tables s) {tbl : Nat} (below : tbl < s.nextRef)
    (free : ∀ no, s.listenerFunc.lookup no ≠ some tbl) (new : tbl ∉ s.poolTable) :
    Tables (s.addCacheTable tbl) := by
  simp only [State.addCacheTable]
  split
  · exact tables
  · have heap : ∀ no ref, s.listenerFunc.lookup no = some ref →
        Function.update s.heap tbl ⟨none, none⟩ ref = s.heap ref := by
      intro no ref found
      refine Function.update_of_ne ?_ _ _
      rintro rfl
      exact free no found
    refine ⟨?_, ?_, tables.old, ?_, ?_, ?_⟩
    · intro no ref found
      exact (congrArg Ctbl.listener (heap no ref found)).trans (tables.listener no ref found)
    · intro no ref found
      exact (congrArg (·.eTime.isSome) (heap no ref found)).trans (tables.eTime no ref found)
    · intro ref mem
      cases List.mem_append.1 mem with
      | inl old => exact tables.pooled ref old
      | inr last => rwa [List.mem_singleton.1 last]
    · intro ref mem
      cases List.mem_append.1 mem with
      | inl old => exact tables.apart ref old
      | inr last => rwa [List.mem_singleton.1 last]
    · refine List.nodup_append.2 ⟨tables.nodup, List.nodup_singleton tbl, ?_⟩
      intro ref mem ref' last same
      rw [same, List.mem_singleton.1 last] at mem
      exact new mem

theorem stealListener (tables : Tables s) (no : Nat) :
    Tables (s.stealListener no).1 ∧
      (s.stealListener no).2 = (s.listenerFunc.lookup no).map fun _ => no := by
  simp only [State.stealListener]
  split
  · rename_i tbl found
    have sub : ∀ no' ref, (s.listenerFunc.erase no).lookup no' = some ref →
        s.listenerFunc.lookup no' = some ref := by
      intro no' ref here
      by_cases same : no' = no
      · rw [same, AList.lookup_erase] at here
        cases here
      · rwa [AList.lookup_erase_ne same] at here
    refine ⟨(tables.remove sub s.delListener).addCacheTable (tables.old no tbl found) ?_ ?_, ?_⟩
    · intro no' here
      have same := tables.injective (sub no' tbl here) found
      rw [same, AList.lookup_erase] at here
      cases here
    · intro mem
      exact tables.apart tbl mem no found
    · rw [found]
      exact tables.listener no tbl found
  · rename_i none
    exact ⟨tables, by rw [none]; rfl⟩

theorem callback (tables : Tables s) (lNo : Nat) : Tables (s.callback lNo).1 := by
  have stolen := (tables.stealListener lNo).1
  simp only [State.callback]
  split
  all_goals
    rename_i answer
    rw [answer] at stolen
    exact stolen

end Tables

/-- What the loop of `FCheck` takes out it puts in the list. -/
structure Swept (before : AList fun _ : Nat => Nat) (delBefore : List Nat)
    (after : AList fun _ : Nat => Nat) (delAfter : List Nat) : Prop where
  sub : ∀ no ref, after.lookup no = some ref → before.lookup no = some ref
  taken : ∀ no ∈ delAfter, no ∈ delBefore ∨ (before.lookup no).isSome
  gone : (∀ no ∈ delBefore, before.lookup no = none) → ∀ no ∈ delAfter, after.lookup no = none
  nodup : (∀ no ∈ delBefore, before.lookup no = none) → delBefore.Nodup → delAfter.Nodup

theorem sweep_swept {heap : Nat → Ctbl} (nTime : Nat) (order : List Nat) :
    ∀ (before : AList fun _ : Nat => Nat) (del : List Nat),
      (∀ no ref, before.lookup no = some ref → (heap ref).listener = some no) →
      (∀ no ref, before.lookup no = some ref → (heap ref).eTime.isSome) →
      ∃ after del', sweep heap nTime before del order = .ok (after, del') ∧
        Swept before del after del' := by
  induction order with
  | nil =>
      intro before del _ _
      exact ⟨before, del, rfl, fun _ _ found => found, fun _ mem => .inl mem, fun gone => gone,
        fun _ nodup => nodup⟩
  | cons no rest ih =>
      intro before del listener eTime
      cases found : before.lookup no with
      | none =>
          simp only [sweep, found]
          exact ih before del listener eTime
      | some data =>
          obtain ⟨time, here⟩ := Option.isSome_iff_exists.1 (eTime no data found)
          simp only [sweep, found, here, listener no data found, Option.toList_some]
          split
          · have sub : ∀ no' ref, (before.erase no).lookup no' = some ref →
                before.lookup no' = some ref := by
              intro no' ref still
              by_cases same : no' = no
              · rw [same, AList.lookup_erase] at still
                cases still
              · rwa [AList.lookup_erase_ne same] at still
            have erased : ∀ no', before.lookup no' = none →
                (before.erase no).lookup no' = none := by
              intro no' none
              cases later : (before.erase no).lookup no' with
              | none => rfl
              | some ref => rw [sub no' ref later] at none; cases none
            obtain ⟨after, del', result, swept⟩ := ih (before.erase no) (del ++ [no])
              (fun no' ref still => listener no' ref (sub no' ref still))
              (fun no' ref still => eTime no' ref (sub no' ref still))
            have gone : (∀ no ∈ del, before.lookup no = none) →
                ∀ no' ∈ del ++ [no], (before.erase no).lookup no' = none := by
              intro none no' mem
              cases List.mem_append.1 mem with
              | inl old => exact erased no' (none no' old)
              | inr last =>
                  rw [List.mem_singleton.1 last]
                  exact AList.lookup_erase no before
            refine ⟨after, del', result, fun no' ref still => sub no' ref (swept.sub no' ref still),
              ?_, fun none => swept.gone (gone none), ?_⟩
            · intro no' mem
              cases swept.taken no' mem with
              | inl listed =>
                  cases List.mem_append.1 listed with
                  | inl old => exact .inl old
                  | inr last =>
                      rw [List.mem_singleton.1 last, found]
                      exact .inr rfl
              | inr some =>
                  obtain ⟨ref, still⟩ := Option.isSome_iff_exists.1 some
                  rw [sub no' ref still]
                  exact .inr rfl
            · intro none nodup
              refine swept.nodup (gone none) ?_
              refine List.nodup_append.2 ⟨nodup, List.nodup_singleton no, ?_⟩
              intro no' mem no'' last same
              rw [same, List.mem_singleton.1 last] at mem
              rw [none no mem] at found
              cases found
          · exact ih before del listener eTime

theorem Tables.fCheck {s : State} (tables : Tables s) (c nTime : Nat) (order : List Nat) :
    Tables (s.fCheck c nTime order).1 := by
  obtain ⟨after, del, result, swept⟩ :=
    sweep_swept nTime order s.listenerFunc [] tables.listener tables.eTime
  simp only [State.fCheck, result]
  exact tables.remove swept.sub _

/-- The number in a callback message. -/
def Event.number : Event → Option Nat
  | .agentCallback lNo => some lNo
  | .agentRecallCallback lNo => some lNo
  | _ => none

theorem registrations_concat (trace : List (Event × Output)) (e : Event) (o : Output) :
    registrations (trace ++ [(e, o)]) = registrations trace + if o.registers then 1 else 0 := by
  simp only [registrations, List.countP_append, List.countP_singleton]

theorem invocations_concat (trace : List (Event × Output)) (e : Event) (o : Output) :
    invocations (trace ++ [(e, o)]) = invocations trace ++ o.invoked.toList :=
  Machine.filterMap_concat _ trace (e, o)

/-- A listener is in `LISTENER_FUNC`, in the list of a `FCheck`, or called. -/
structure Ids (trace : List (Event × Output)) (s : State) : Prop where
  number : s.listenerNo = registrations trace
  registered : s.registered = registrations trace
  given : ∀ e listener no, (e, Output.registered listener no) ∈ trace → listener = no
  known : ∀ listener, 1 ≤ listener → listener ≤ s.listenerNo →
    ∃ e, (e, Output.registered listener listener) ∈ trace
  listed : ∀ no ref, s.listenerFunc.lookup no = some ref → 1 ≤ no ∧ no ≤ s.listenerNo
  late : ∀ c, ∀ listener ∈ s.delListener c, s.listenerFunc.lookup listener = none ∧
    listener ≤ s.listenerNo ∧ listener ∉ invocations trace
  lateNodup : ∀ c, (s.delListener c).Nodup
  lateApart : ∀ c c' listener, listener ∈ s.delListener c → listener ∈ s.delListener c' → c = c'
  called : ∀ listener ∈ invocations trace, s.listenerFunc.lookup listener = none ∧
    listener ≤ s.listenerNo
  calledOnce : (invocations trace).Nodup
  own : ∀ e listener lNo, (e, Output.invokes listener) ∈ trace → e.number = some lNo →
    ∃ e', (e', Output.registered listener lNo) ∈ trace

/-- Where nothing is added, what is absent stays so. -/
theorem lookup_none_of_sub {after before : AList fun _ : Nat => Nat} {no : Nat}
    (sub : ∀ no ref, after.lookup no = some ref → before.lookup no = some ref)
    (none : before.lookup no = none) : after.lookup no = Option.none := by
  cases found : after.lookup no with
  | none => rfl
  | some ref =>
      rw [sub no ref found] at none
      cases none

theorem addListener_eq (s : State) (listener eTime : Nat) (few : s.listenerNo + 1 ≤ 100000000) :
    (s.addListener listener eTime).2 = s.listenerNo + 1 ∧
      (s.addListener listener eTime).1.listenerNo = s.listenerNo + 1 ∧
      (s.addListener listener eTime).1.registered = s.registered ∧
      (s.addListener listener eTime).1.delListener = s.delListener ∧
      ∀ no, no ≠ s.listenerNo + 1 →
        (s.addListener listener eTime).1.listenerFunc.lookup no = s.listenerFunc.lookup no := by
  have number : (if s.listenerNo + 1 > 100000000 then 1 else s.listenerNo + 1) = s.listenerNo + 1 :=
    if_neg (Nat.not_lt.2 few)
  simp only [State.addListener, State.createTable, number]
  split
  all_goals exact ⟨trivial, trivial, rfl, rfl, fun no ne => AList.lookup_insert_ne ne⟩

theorem register_eq (s : State) (sameNode : Bool) (now : Nat)
    (few : s.listenerNo + 1 ≤ 100000000) :
    (s.register sameNode now).2 = .registered (s.registered + 1) (s.listenerNo + 1) ∧
      (s.register sameNode now).1.listenerNo = s.listenerNo + 1 ∧
      (s.register sameNode now).1.registered = s.registered + 1 ∧
      (s.register sameNode now).1.delListener = s.delListener ∧
      ∀ no, no ≠ s.listenerNo + 1 →
        (s.register sameNode now).1.listenerFunc.lookup no = s.listenerFunc.lookup no := by
  obtain ⟨no, rest⟩ := addListener_eq { s with registered := s.registered + 1 } (s.registered + 1)
    (now + if sameNode then snodeRpcTimeoutSec else rpcTimeoutSec) few
  exact ⟨congrArg (Output.registered (s.registered + 1)) no, rest⟩

namespace Ids
variable {trace : List (Event × Output)} {s t : State}

theorem notMem_invocations (ids : Ids trace s) {no ref : Nat}
    (found : s.listenerFunc.lookup no = some ref) : no ∉ invocations trace := by
  intro called
  rw [(ids.called no called).1] at found
  cases found

theorem notMem_delListener (ids : Ids trace s) {no ref : Nat}
    (found : s.listenerFunc.lookup no = some ref) (c : Nat) : no ∉ s.delListener c := by
  intro late
  rw [(ids.late c no late).1] at found
  cases found

/-- A step that registers nothing. -/
theorem next (ids : Ids trace s) {e : Event} {o : Output} (plain : o.registers = false)
    (number : t.listenerNo = s.listenerNo) (registered : t.registered = s.registered)
    (sub : ∀ no ref, t.listenerFunc.lookup no = some ref → s.listenerFunc.lookup no = some ref)
    (late : ∀ c, ∀ listener ∈ t.delListener c, t.listenerFunc.lookup listener = none ∧
      listener ≤ s.listenerNo ∧ listener ∉ invocations trace ∧ o.invoked ≠ some listener)
    (lateNodup : ∀ c, (t.delListener c).Nodup)
    (lateApart : ∀ c c' listener, listener ∈ t.delListener c → listener ∈ t.delListener c' → c = c')
    (fresh : ∀ listener, o.invoked = some listener → t.listenerFunc.lookup listener = none ∧
      listener ≤ s.listenerNo ∧ listener ∉ invocations trace)
    (own : ∀ listener lNo, o = .invokes listener → e.number = some lNo →
      listener = lNo ∧ 1 ≤ lNo ∧ lNo ≤ s.listenerNo) : Ids (trace ++ [(e, o)]) t := by
  have count : registrations (trace ++ [(e, o)]) = registrations trace := by
    rw [registrations_concat, plain]
    rfl
  refine ⟨by rw [number, ids.number, count], by rw [registered, ids.registered, count], ?_, ?_, ?_,
    ?_, lateNodup, lateApart, ?_, ?_, ?_⟩
  · intro e' listener no mem
    cases List.mem_append.1 mem with
    | inl old => exact ids.given e' listener no old
    | inr last =>
        cases List.mem_singleton.1 last
        cases plain
  · intro listener pos le
    obtain ⟨e', mem⟩ := ids.known listener pos (number ▸ le)
    exact ⟨e', List.mem_append_left _ mem⟩
  · intro no ref found
    rw [number]
    exact ids.listed no ref (sub no ref found)
  · intro c listener mem
    obtain ⟨none, le, before, now⟩ := late c listener mem
    refine ⟨none, by rwa [number], ?_⟩
    rw [invocations_concat, List.mem_append, Option.mem_toList]
    exact not_or.2 ⟨before, now⟩
  · intro listener mem
    rw [number]
    rw [invocations_concat, List.mem_append, Option.mem_toList] at mem
    cases mem with
    | inl old =>
        obtain ⟨none, le⟩ := ids.called listener old
        exact ⟨lookup_none_of_sub sub none, le⟩
    | inr now => exact ⟨(fresh listener now).1, (fresh listener now).2.1⟩
  · rw [invocations_concat]
    cases called : o.invoked with
    | none => simpa using ids.calledOnce
    | some listener =>
        refine List.nodup_append.2 ⟨ids.calledOnce, List.nodup_singleton listener, ?_⟩
        intro other mem last here same
        rw [same, List.mem_singleton.1 here] at mem
        exact (fresh listener called).2.2 mem
  · intro e' listener lNo mem event
    cases List.mem_append.1 mem with
    | inl old =>
        obtain ⟨e'', given⟩ := ids.own e' listener lNo old event
        exact ⟨e'', List.mem_append_left _ given⟩
    | inr last =>
        cases List.mem_singleton.1 last
        obtain ⟨rfl, pos, le⟩ := own listener lNo rfl event
        obtain ⟨e'', given⟩ := ids.known listener pos le
        exact ⟨e'', List.mem_append_left _ given⟩

theorem addCacheTable_eq (s : State) (tbl : Nat) :
    (s.addCacheTable tbl).listenerFunc = s.listenerFunc ∧
      (s.addCacheTable tbl).listenerNo = s.listenerNo ∧
      (s.addCacheTable tbl).registered = s.registered ∧
      (s.addCacheTable tbl).delListener = s.delListener := by
  simp only [State.addCacheTable]
  split
  all_goals exact ⟨rfl, rfl, rfl, rfl⟩

/-- Stealing takes the listener with this number out, and no other. -/
theorem stealListener_eq (s : State) (no : Nat) :
    (∀ no', (s.stealListener no).1.listenerFunc.lookup no' =
        if no' = no then none else s.listenerFunc.lookup no') ∧
      (s.stealListener no).1.listenerNo = s.listenerNo ∧
      (s.stealListener no).1.registered = s.registered ∧
      (s.stealListener no).1.delListener = s.delListener := by
  simp only [State.stealListener]
  split
  · rename_i tbl found
    obtain ⟨table, rest⟩ :=
      addCacheTable_eq { s with listenerFunc := s.listenerFunc.erase no } tbl
    refine ⟨?_, rest⟩
    intro no'
    rw [table]
    split
    · rename_i same
      rw [same]
      exact AList.lookup_erase no _
    · rename_i ne
      exact AList.lookup_erase_ne ne
  · rename_i absent
    refine ⟨?_, rfl, rfl, rfl⟩
    intro no'
    split
    · rename_i same
      rw [same, absent]
    · rfl

theorem register (ids : Ids trace s) {sameNode : Bool} {now : Nat}
    (few : registrations trace + 1 ≤ 100000000) :
    Ids (trace ++ [(.register sameNode now, (s.register sameNode now).2)])
      (s.register sameNode now).1 := by
  obtain ⟨answer, number, registered, late, others⟩ :=
    register_eq s sameNode now (by rwa [ids.number])
  have same : s.registered = s.listenerNo := ids.registered.trans ids.number.symm
  rw [same] at answer
  have count : registrations (trace ++ [(.register sameNode now, (s.register sameNode now).2)]) =
      registrations trace + 1 := by
    rw [registrations_concat, answer]
    rfl
  have calls : invocations (trace ++ [(.register sameNode now, (s.register sameNode now).2)]) =
      invocations trace := by
    rw [invocations_concat, answer]
    exact List.append_nil _
  have last : (Event.register sameNode now,
      Output.registered (s.listenerNo + 1) (s.listenerNo + 1)) ∈
      trace ++ [(.register sameNode now, (s.register sameNode now).2)] := by
    rw [answer]
    exact List.mem_append_right _ List.mem_cons_self
  refine ⟨by rw [number, ids.number, count], by rw [registered, ids.registered, count], ?_, ?_, ?_,
    ?_, ?_, ?_, ?_, ?_, ?_⟩
  · intro e listener no mem
    cases List.mem_append.1 mem with
    | inl old => exact ids.given e listener no old
    | inr here =>
        rw [answer] at here
        cases List.mem_singleton.1 here
        rfl
  · intro listener pos le
    rw [number] at le
    by_cases new : listener = s.listenerNo + 1
    · rw [new]
      exact ⟨_, last⟩
    · obtain ⟨e, mem⟩ := ids.known listener pos (by omega)
      exact ⟨e, List.mem_append_left _ mem⟩
  · intro no ref found
    rw [number]
    by_cases new : no = s.listenerNo + 1
    · omega
    · rw [others no new] at found
      have old := ids.listed no ref found
      omega
  · intro c listener mem
    rw [late] at mem
    obtain ⟨none, le, before⟩ := ids.late c listener mem
    rw [number, calls, others listener (by omega)]
    exact ⟨none, by omega, before⟩
  · rw [late]
    exact ids.lateNodup
  · rw [late]
    exact ids.lateApart
  · intro listener mem
    rw [calls] at mem
    obtain ⟨none, le⟩ := ids.called listener mem
    rw [number, others listener (by omega)]
    exact ⟨none, by omega⟩
  · rw [calls]
    exact ids.calledOnce
  · intro e listener lNo mem event
    cases List.mem_append.1 mem with
    | inl old =>
        obtain ⟨e', given⟩ := ids.own e listener lNo old event
        exact ⟨e', List.mem_append_left _ given⟩
    | inr here =>
        rw [answer] at here
        cases List.mem_singleton.1 here

theorem callback (ids : Ids trace s) (tables : Tables s) {e : Event} {lNo : Nat}
    (event : e.number = some lNo) :
    Ids (trace ++ [(e, (s.callback lNo).2)]) (s.callback lNo).1 := by
  obtain ⟨lookup, number, registered, late⟩ := stealListener_eq s lNo
  have stolen := (tables.stealListener lNo).2
  have sub : ∀ no ref, (s.stealListener lNo).1.listenerFunc.lookup no = some ref →
      s.listenerFunc.lookup no = some ref := by
    intro no ref found
    rw [lookup] at found
    split at found
    · cases found
    · exact found
  have state : (s.callback lNo).1 = (s.stealListener lNo).1 := by
    simp only [State.callback]
    split
    all_goals rename_i answer; rw [answer]
  have answer : ∀ listener, (s.callback lNo).2.invoked = some listener →
      listener = lNo ∧ (s.listenerFunc.lookup lNo).isSome := by
    intro listener called
    simp only [State.callback] at called
    split at called
    · rename_i t listener' answer
      rw [answer] at stolen
      obtain ⟨ref, found, same⟩ := Option.map_eq_some_iff.1 stolen.symm
      rw [found]
      exact ⟨(Option.some.inj called).symm.trans same.symm, rfl⟩
    · cases called
  have plain : (s.callback lNo).2.registers = false := by
    simp only [State.callback]
    split <;> rfl
  rw [state]
  refine ids.next plain number registered sub ?_ ?_ ?_ ?_ ?_
  · intro c listener mem
    rw [late] at mem
    obtain ⟨absent, le, before⟩ := ids.late c listener mem
    refine ⟨?_, le, before, ?_⟩
    · rw [lookup, absent, ite_self]
    · intro called
      obtain ⟨rfl, some⟩ := answer listener called
      rw [absent] at some
      cases some
  · rw [late]
    exact ids.lateNodup
  · rw [late]
    exact ids.lateApart
  · intro listener called
    obtain ⟨rfl, some⟩ := answer listener called
    obtain ⟨ref, found⟩ := Option.isSome_iff_exists.1 some
    refine ⟨?_, (ids.listed listener ref found).2, ids.notMem_invocations found⟩
    rw [lookup, if_pos rfl]
  · intro listener lNo' called event'
    obtain ⟨same, some⟩ := answer listener (by rw [called]; rfl)
    obtain ⟨ref, found⟩ := Option.isSome_iff_exists.1 some
    cases event.symm.trans event'
    exact ⟨same, ids.listed lNo ref found⟩

theorem fCheck (ids : Ids trace s) (tables : Tables s) (c now : Nat) (order : List Nat) :
    Ids (trace ++ [(.fCheck c now order, (s.fCheck c now order).2)]) (s.fCheck c now order).1 := by
  obtain ⟨after, del, result, swept⟩ :=
    sweep_swept now order s.listenerFunc [] tables.listener tables.eTime
  simp only [State.fCheck, result]
  have gone := swept.gone (by simp)
  have listed : ∀ no ∈ del, no ≤ s.listenerNo ∧ no ∉ invocations trace ∧
      ∀ c', no ∉ s.delListener c' := by
    intro no mem
    obtain ⟨ref, found⟩ := Option.isSome_iff_exists.1 ((swept.taken no mem).resolve_left (by simp))
    exact ⟨(ids.listed no ref found).2, ids.notMem_invocations found,
      ids.notMem_delListener found⟩
  have lists : ∀ c', ∀ l ∈ Function.update s.delListener c del c', c' = c ∧ l ∈ del ∨
      c' ≠ c ∧ l ∈ s.delListener c' := by
    intro c' l mem
    by_cases same : c' = c
    · rw [same, Function.update_self] at mem
      exact .inl ⟨same, mem⟩
    · rw [Function.update_of_ne same] at mem
      exact .inr ⟨same, mem⟩
  refine ids.next rfl rfl rfl swept.sub ?_ ?_ ?_ ?_ ?_
  · intro c' l mem
    cases lists c' l mem with
    | inl new =>
        obtain ⟨le, before, _⟩ := listed l new.2
        exact ⟨gone l new.2, le, before, by simp [Output.invoked]⟩
    | inr old =>
        obtain ⟨none, le, before⟩ := ids.late c' l old.2
        exact ⟨lookup_none_of_sub swept.sub none, le, before, by simp [Output.invoked]⟩
  · intro c'
    change (Function.update s.delListener c del c').Nodup
    by_cases same : c' = c
    · rw [same, Function.update_self]
      exact swept.nodup (by simp) List.nodup_nil
    · rw [Function.update_of_ne same]
      exact ids.lateNodup c'
  · intro c' c'' l mem mem'
    cases lists c' l mem with
    | inl new =>
        cases lists c'' l mem' with
        | inl new' => exact new.1.trans new'.1.symm
        | inr old' => exact absurd old'.2 ((listed l new.2).2.2 c'')
    | inr old =>
        cases lists c'' l mem' with
        | inl new' => exact absurd old.2 ((listed l new'.2).2.2 c')
        | inr old' => exact ids.lateApart c' c'' l old.2 old'.2
  · intro l called
    cases called
  · intro l lNo called
    cases called

theorem tryCall (ids : Ids trace s) {c listener : Nat} {rest : List Nat}
    (here : s.delListener c = listener :: rest) :
    Ids (trace ++ [(.tryCall c, .timesOut listener)])
      { s with delListener := Function.update s.delListener c rest } := by
  have lists : ∀ c', ∀ l ∈ Function.update s.delListener c rest c', l ∈ s.delListener c' := by
    intro c' l mem
    by_cases same : c' = c
    · rw [same, Function.update_self] at mem
      rw [same, here]
      exact List.mem_cons_of_mem _ mem
    · rwa [Function.update_of_ne same] at mem
  have head : listener ∈ s.delListener c := by
    rw [here]
    exact List.mem_cons_self
  have nodup := ids.lateNodup c
  rw [here] at nodup
  refine ids.next rfl rfl rfl (fun _ _ found => found) ?_ ?_ ?_ ?_ ?_
  · intro c' l mem
    obtain ⟨absent, le, before⟩ := ids.late c' l (lists c' l mem)
    refine ⟨absent, le, before, ?_⟩
    intro called
    cases called
    have same := ids.lateApart c' c listener (lists c' listener mem) head
    subst same
    change listener ∈ Function.update s.delListener c' rest c' at mem
    rw [Function.update_self] at mem
    exact (List.nodup_cons.1 nodup).1 mem
  · intro c'
    change (Function.update s.delListener c rest c').Nodup
    by_cases same : c' = c
    · subst same
      rw [Function.update_self]
      exact (List.nodup_cons.1 nodup).2
    · rw [Function.update_of_ne same]
      exact ids.lateNodup c'
  · intro c' c'' l mem mem'
    exact ids.lateApart c' c'' l (lists c' l mem) (lists c'' l mem')
  · intro l called
    cases called
    exact ids.late c listener head
  · intro l lNo called
    cases called

end Ids

theorem tables_register {s : State} (tables : Tables s) (same : s.registered = s.listenerNo)
    (few : s.listenerNo + 1 ≤ 100000000) (sameNode : Bool) (now : Nat) :
    Tables (s.register sameNode now).1 := by
  have counted : Tables { s with registered := s.registered + 1 } :=
    ⟨tables.listener, tables.eTime, tables.old, tables.pooled, tables.apart, tables.nodup⟩
  refine counted.addListener ?_
  rw [if_neg (Nat.not_lt.2 few), same]

theorem ids_step {trace : List (Event × Output)} {s s' : State} {e : Event} {o : Output}
    (ids : Ids trace s) (tables : Tables s) (step : s.step e = some (s', o))
    (few : registrations (trace ++ [(e, o)]) ≤ 100000000) :
    Ids (trace ++ [(e, o)]) s' ∧ Tables s' := by
  cases e with
  | register sameNode now =>
      cases step
      have below : registrations trace + 1 ≤ 100000000 := by
        rw [registrations_concat] at few
        exact few
      refine ⟨ids.register below, tables_register tables ?_ (by rwa [ids.number]) sameNode now⟩
      rw [ids.registered, ids.number]
  | agentCallback lNo =>
      have answer : s.callback lNo = (s', o) := Option.some.inj step
      have ids' := ids.callback tables (rfl : (Event.agentCallback lNo).number = some lNo)
      have tables' := tables.callback lNo
      rw [answer] at ids' tables'
      exact ⟨ids', tables'⟩
  | agentRecallCallback lNo =>
      have answer : s.callback lNo = (s', o) := Option.some.inj step
      have ids' := ids.callback tables (rfl : (Event.agentRecallCallback lNo).number = some lNo)
      have tables' := tables.callback lNo
      rw [answer] at ids' tables'
      exact ⟨ids', tables'⟩
  | fCheck c now order =>
      simp only [State.step] at step
      split at step
      · have answer : s.fCheck c now order = (s', o) := Option.some.inj step
        have ids' := ids.fCheck tables c now order
        have tables' := tables.fCheck c now order
        rw [answer] at ids' tables'
        exact ⟨ids', tables'⟩
      · cases step
  | tryCall c =>
      simp only [State.step] at step
      split at step
      · rename_i listener rest here
        cases step
        exact ⟨ids.tryCall here, tables.remove (fun _ _ found => found) _⟩
      · cases step

theorem ids_of_reach {trace : List (Event × Output)} {s : State} (reach : machine.Reach trace s)
    (few : registrations trace ≤ 100000000) : Ids trace s ∧ Tables s := by
  induction reach with
  | init =>
      refine ⟨⟨rfl, rfl, ?_, ?_, ?_, ?_, fun _ => List.nodup_nil, ?_, ?_, List.nodup_nil, ?_⟩,
        ⟨?_, ?_, ?_, ?_, ?_, List.nodup_nil⟩⟩
      · intro _ _ _ mem
        cases mem
      · intro listener pos le
        exact absurd pos (Nat.not_le_of_lt (Nat.lt_succ_of_le le))
      · intro _ _ found
        cases found
      · intro _ _ mem
        cases mem
      · intro _ _ _ mem
        cases mem
      · intro _ mem
        cases mem
      · intro _ _ _ mem
        cases mem
      · intro _ _ found
        cases found
      · intro _ _ found
        cases found
      · intro _ _ found
        cases found
      · intro _ mem
        cases mem
      · intro _ mem
        cases mem
  | next _ step ih =>
      have before := few
      rw [registrations_concat] at before
      obtain ⟨ids, tables⟩ := ih (Nat.le_trans (Nat.le_add_right _ _) before)
      exact ids_step ids tables step few

/-- Every listener is called at most once, by its own number or by the timeout,
and no table of the pool is the table of a listener. -/
theorem listener_called_once {trace : List (Event × Output)} {s : State}
    (reach : machine.Reach trace s) (few : registrations trace < 100000000) :
    (invocations trace).Nodup ∧
      (∀ e listener lNo, (e, .invokes listener) ∈ trace → e.number = some lNo →
        (∃ e', (e', .registered listener lNo) ∈ trace) ∧
          ∀ e' other, (e', .registered other lNo) ∈ trace → other = listener) ∧
      s.poolTable.Nodup ∧
      ∀ ref ∈ s.poolTable, ∀ no, s.listenerFunc.lookup no ≠ some ref := by
  obtain ⟨ids, tables⟩ := ids_of_reach reach (Nat.le_of_lt few)
  refine ⟨ids.calledOnce, ?_, tables.nodup, tables.apart⟩
  intro e listener lNo mem event
  obtain ⟨e', given⟩ := ids.own e listener lNo mem event
  refine ⟨⟨e', given⟩, ?_⟩
  intro e'' other mem'
  rw [ids.given e'' other lNo mem', ids.given e' listener lNo given]

theorem listener_called_once_of_reuse :
    ∃ trace s, machine.Reach trace s ∧ invocations trace = [1, 2] ∧ (invocations trace).Nodup ∧
      s.listenerFunc.lookup 3 = some 0 ∧ s.poolTable.Nodup := by
  have run : ∃ s, machine.Reach
      [(.register true 0, .registered 1 1), (.register false 0, .registered 2 2),
        (.agentCallback 1, .invokes 1), (.fCheck 0 5 [2], .returns), (.tryCall 0, .timesOut 2),
        (.agentRecallCallback 2, .raises), (.register true 6, .registered 3 3)] s ∧
      s.listenerFunc.lookup 3 = some 0 :=
    ⟨_, .next (.next (.next (.next (.next (.next (.next .init rfl) rfl) rfl) rfl) rfl) rfl) rfl,
      rfl⟩
  obtain ⟨s, reach, reused⟩ := run
  obtain ⟨once, _, pool, _⟩ := listener_called_once reach (by decide)
  exact ⟨_, s, reach, rfl, once, reused, pool⟩

end Qiuqiu.Rpc.Listeners
