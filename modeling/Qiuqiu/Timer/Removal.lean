import Qiuqiu.Timer.Client
import Qiuqiu.Timer.Orphans

/-!
A client and the timer service. What the client sends is handled in order, in
between come ticks and the messages of other services; callouts are delivered
in any order. `RemoveCallOut` sends `rm_call`, which the timer service does not
know: the dispatch raises and the entry stays. A removed timer is gone only if
it was gone before.
-/
namespace Qiuqiu.Timer
open Lua
namespace Removal

/-- The event of the timer service for a message of the client at `owner`. -/
def event (owner : Nat) (nodeName : String) (now : Int) : Client.Message → Timer.Event
  | .callOnce idx timeout => .callOnce owner nodeName idx timeout now
  | .callMulti idx timeout => .callMulti owner nodeName idx timeout now
  | .callDaily idx hour min sec => .callDaily owner nodeName idx hour min sec now
  | .rmCall idx => .rmCall owner idx now

structure System where
  client : Client.State
  /-- From the client to the timer service. -/
  mailbox : List Client.Message
  stimer : Stimer
  /-- Callouts sent to the client and not delivered yet. -/
  inFlight : List Nat

inductive Event where
  | call (e : Client.Event)
  | deliver (idx : Nat)
  | process (now : Int)
  | other (e : Timer.Event)
  | tick (now : Int)

inductive Output where
  | client (o : Client.Output)
  | stimer (o : Timer.Output)

def sentBy : Client.Output → List Client.Message
  | .returned _ m => [m]
  | .removed (some m) => [m]
  | _ => []

/-- The indices of the callouts for the client. -/
def calloutsTo (owner : Nat) : Timer.Output → List Nat
  | .sent callouts => (callouts.filter fun c => c.source = owner).map fun c => c.index
  | _ => []

def isCallout : Client.Event → Bool
  | .callout _ => true
  | _ => false

/-- The service an event of the timer service comes from. -/
def sourceOf : Timer.Event → Option Nat
  | .callMulti source _ _ _ _ => some source
  | .callOnce source _ _ _ _ => some source
  | .callDaily source _ _ _ _ _ _ => some source
  | .rmCall source _ _ => some source
  | .tick _ => none

section
variable (owner : Nat) (nodeName : String) (todayAt : Int → Int → Int → Int → Int)

def System.step (s : System) : Event → Option (System × Output)
  | .call e =>
      if isCallout e then none
      else (s.client.step e).map fun (client, o) =>
        ({ s with client := client, mailbox := s.mailbox ++ sentBy o }, .client o)
  | .deliver idx =>
      if idx ∈ s.inFlight then
        (s.client.step (.callout idx)).map fun (client, o) =>
          ({ s with client := client, inFlight := s.inFlight.erase idx }, .client o)
      else none
  | .process now =>
      match s.mailbox with
      | [] => none
      | m :: mailbox =>
          (s.stimer.step todayAt (event owner nodeName now m)).map fun (stimer, o) =>
            ({ s with stimer := stimer, mailbox := mailbox }, .stimer o)
  | .other e =>
      match sourceOf e with
      | none => none
      | some source =>
          if source = owner then none
          else (s.stimer.step todayAt e).map fun (stimer, o) =>
            ({ s with stimer := stimer }, .stimer o)
  | .tick now =>
      (s.stimer.step todayAt (.tick now)).map fun (stimer, o) =>
        ({ s with stimer := stimer, inFlight := s.inFlight ++ calloutsTo owner o }, .stimer o)

def system (start : Nat) (functions : Nat → String → Bool) : Machine System Event Output where
  init := ⟨(Client.machine functions).init, [], (machine start todayAt).init, []⟩
  step := System.step owner nodeName todayAt

end

abbrev Trace := List (Event × Output)

/-- An index returned to a caller, and the message sent for it. -/
def registeredAt : Event × Output → Option (Nat × Client.Message)
  | (.call _, .client (.returned idx m)) => some (idx, m)
  | _ => none

def registrations (trace : Trace) : List (Nat × Client.Message) := trace.filterMap registeredAt

/-- The callouts for the client that were sent. -/
def callouts (owner : Nat) (trace : Trace) : List Nat :=
  trace.flatMap fun x =>
    match x.2 with
    | .stimer o => calloutsTo owner o
    | .client _ => []

section
variable (owner : Nat)

/-- No entry is left for the index, and no callout is sent for it any more. -/
def Gone (M : Machine System Event Output) (s : System) (idx : Nat) : Prop :=
  (∀ time, s.stimer.callOutTbl.get time owner idx = none) ∧
    ∀ trace s', (M.restart s).Reach trace s' → idx ∉ callouts owner trace

end

def isOnce : Client.Message → Bool
  | .callOnce _ _ => true
  | _ => false

/-- A timer that the client lets through and the timer service does not: a daily one of no
second, or one whose time is NaN. -/
def refused : Client.Message → Bool
  | .callOnce _ timeout => decide (timeout = .nan)
  | .callDaily _ _ min sec => !decide ((0 ≤ min ∧ min ≤ 60) ∧ (0 ≤ sec ∧ sec ≤ 60))
  | _ => false

end Removal

namespace Slot
variable {e : Entry} {i endTime : Int} {seconds : Nat}

theorem sweep_empty : Slot.sweep endTime seconds i (fun _ => none) = (fun _ => none, 0) := by
  induction seconds generalizing i with
  | zero => rfl
  | succ seconds ih =>
      simp only [Slot.sweep, Slot.deal, ih]

/-- A timer without a period stays, or fires and is gone. -/
theorem sweep_once (once : e.refreshTime = none) (time : Number) (endTime : Int) (seconds : Nat)
    (i : Int) :
    (Slot.only e time).sweep endTime seconds i = (Slot.only e time, 0) ∨
      (Slot.only e time).sweep endTime seconds i = (fun _ => none, 1) := by
  induction seconds generalizing i with
  | zero => exact .inl rfl
  | succ seconds ih =>
      have next : e.nextTime i endTime = none := by rw [Entry.nextTime, once, Option.bind_none]
      by_cases now : .int i = time
      · right
        subst now
        have fires : ∀ nextTime, e.nextTime i endTime = some nextTime → nextTime ≠ .int i := by
          simp [next]
        simp only [Slot.sweep, Slot.deal_only fires, next, Slot.rearmed, sweep_empty]
      · simp only [Slot.sweep, Slot.deal_only_of_ne now]
        rcases ih (i + 1) with kept | fired
        · left
          simp only [kept]
        · right
          simp only [fired]

theorem nextTime_ne (periodic : e.WellPeriodic) (nonneg : 0 ≤ i) (le : i ≤ endTime)
    (small : endTime < 2 ^ 53) {nextTime : Number} (h : e.nextTime i endTime = some nextTime) :
    nextTime ≠ .int i := by
  rintro rfl
  have := nextTime_later periodic nonneg le small nonneg h
  omega

/-- A period is not NaN. -/
theorem nextTime_some (i endTime : Int) (periodic : e.WellPeriodic)
    (refresh : e.refreshTime ≠ none) :
    ∃ nextTime, e.nextTime i endTime = some nextTime := by
  obtain ⟨refreshTime, hr⟩ := Option.ne_none_iff_exists'.1 refresh
  have period := periodic refreshTime hr
  rw [Entry.nextTime, hr, Option.bind_some]
  cases refreshTime with
  | nan => cases period.second
  | _ => exact ⟨_, rfl⟩

/-- A timer with a period stays in the table. -/
theorem sweep_periodic (periodic : e.WellPeriodic) (refresh : e.refreshTime ≠ none)
    (time : Number) (nonneg : 0 ≤ i) (small : endTime < 2 ^ 53) (h : i + seconds = endTime + 1) :
    ∃ time', ((Slot.only e time).sweep endTime seconds i).1 = Slot.only e time' := by
  induction seconds generalizing i time with
  | zero => exact ⟨time, rfl⟩
  | succ seconds ih =>
      push_cast at h
      have le : i ≤ endTime := by omega
      have rest : i + 1 + (seconds : Int) = endTime + 1 := by omega
      by_cases now : .int i = time
      · subst now
        obtain ⟨nextTime, next⟩ := nextTime_some i endTime periodic refresh
        simp only [Slot.sweep]
        rw [Slot.deal_only fun _ => nextTime_ne periodic nonneg le small, next]
        exact ih nextTime (by omega) rest
      · simp only [Slot.sweep, Slot.deal_only_of_ne now]
        exact ih time (by omega) rest

end Slot

namespace Removal
variable {owner : Nat} {nodeName : String} {todayAt : Int → Int → Int → Int → Int}

/-- The index a message registers. -/
def registers : Client.Message → Option Nat
  | .callOnce idx _ => some idx
  | .callMulti idx _ => some idx
  | .callDaily idx _ _ _ => some idx
  | .rmCall _ => none

/-- What a step of the client sends. -/
inductive Sends (s : Client.State) : Client.State → Client.Output → Prop
  | registered {s' m} : registers m = some (s.callIndex + 1) → s'.callIndex = s.callIndex + 1 →
      Sends s s' (.returned (s.callIndex + 1) m)
  | other {s' o} : (∀ idx m, o ≠ .returned idx m) → (∀ m ∈ sentBy o, registers m = none) →
      s.callIndex ≤ s'.callIndex → Sends s s' o

theorem callOutBy_sends {s : Client.State} {env : Nat} {func : Option String}
    {checked sends : Bool} {callType : Client.CallType} {message : Nat → Client.Message}
    (h : ∀ idx, registers (message idx) = some idx) :
    Sends s (s.callOutBy env func checked callType sends message).1
      (s.callOutBy env func checked callType sends message).2 := by
  simp only [Client.State.callOutBy]
  split
  · split
    · simp only [Client.State.register]
      split
      · exact .registered (h _) rfl
      · exact .other (by simp) (by simp [sentBy]) (Nat.le_succ _)
    · exact .other (by simp) (by simp [sentBy]) (Nat.le_refl _)
  · exact .other (by simp) (by simp [sentBy]) (Nat.le_refl _)

theorem handle_sends (s : Client.State) (e : Client.Event) :
    Sends s (s.handle e).1 (s.handle e).2 := by
  cases e with
  | callOut env func timeOut sends => exact callOutBy_sends fun _ => rfl
  | callFre env func freqency sends => exact callOutBy_sends fun _ => rfl
  | daily env hour min sec func sends => exact callOutBy_sends fun _ => rfl
  | removeCallOut env idx sends =>
      simp only [Client.State.handle]
      split
      · split
        · exact .other (by simp) (by simp [sentBy, registers]) (Nat.le_refl _)
        · exact .other (by simp) (by simp [sentBy]) (Nat.le_refl _)
      · exact .other (by simp) (by simp [sentBy]) (Nat.le_refl _)
  | callout callIdx =>
      simp only [Client.State.handle, Client.State.dispatch]
      split
      · exact .other (by simp) (by simp [sentBy]) (Nat.le_refl _)
      · split <;> split <;> exact .other (by simp) (by simp [sentBy]) (Nat.le_refl _)
  | ended idx returns =>
      simp only [Client.State.handle]
      exact .other (by simp) (by simp [sentBy]) (Nat.le_refl _)
  | define env func isFunction =>
      simp only [Client.State.handle]
      exact .other (by simp) (by simp [sentBy]) (Nat.le_refl _)

theorem step_sends {s s' : Client.State} {e : Client.Event} {o : Client.Output}
    (h : s.step e = some (s', o)) : Sends s s' o := by
  have sends := handle_sends s e
  rwa [Client.State.handle_of_step h] at sends

/-- What a run of the timer service keeps by itself. -/
structure InOrder (st : Stimer) : Prop where
  sourced : st.callOutTbl.Sourced
  started : 0 ≤ st.lastTime
  clock : st.lastTime ≤ st.clock

/-- What a registration leaves of the service. -/
structure Puts (owner : Nat) (st st' : Stimer) (o : Timer.Output) (source : Nat) : Prop where
  table : st'.callOutTbl = st.callOutTbl ∨
    ∃ time index entry, entry.source = source ∧
      st'.callOutTbl = st.callOutTbl.put time source index entry
  silent : calloutsTo owner o = []
  lastTime : st'.lastTime = st.lastTime
  clock : st.clock ≤ st'.clock

theorem register_puts {st : Stimer} {now : Int} {nextTime : Option Number} {source index : Nat}
    {entry : Entry} (le : st.clock ≤ now) (hs : entry.source = source) :
    Puts owner st ({ st with clock := now }.register nextTime source index entry).1
      ({ st with clock := now }.register nextTime source index entry).2 source := by
  cases nextTime with
  | none => exact ⟨.inl rfl, rfl, rfl, le⟩
  | some time => exact ⟨.inr ⟨time, index, entry, hs, rfl⟩, rfl, rfl, le⟩

theorem InOrder.puts {st st' : Stimer} {o : Timer.Output} {source : Nat} (inOrder : InOrder st)
    (puts : Puts owner st st' o source) : InOrder st' where
  sourced := by
    rcases puts.table with same | ⟨time, index, entry, hsource, put⟩
    · exact same ▸ inOrder.sourced
    · exact put ▸ sourced_put inOrder.sourced hsource
  started := puts.lastTime ▸ inOrder.started
  clock := puts.lastTime ▸ Int.le_trans inOrder.clock puts.clock

variable (owner) in
/-- A message or a foreign registration adds at most one entry. -/
theorem step_puts {st st' : Stimer} {e : Timer.Event} {o : Timer.Output} {source : Nat}
    (hs : sourceOf e = some source) (h : st.step todayAt e = some (st', o)) :
    Puts owner st st' o source := by
  obtain ⟨le, _, _, handled⟩ := Stimer.step_eq_some h
  have puts : Puts owner st ({ st with clock := e.now }.handle todayAt e).1
      ({ st with clock := e.now }.handle todayAt e).2 source := by
    cases e with
    | callMulti source' nodeName index timeout now =>
        cases hs
        rw [Stimer.handle]
        split
        · exact ⟨.inl rfl, rfl, rfl, le⟩
        · exact register_puts le rfl
    | callOnce source' nodeName index timeout now =>
        cases hs
        exact register_puts le rfl
    | callDaily source' nodeName index hour min sec now =>
        cases hs
        rw [Stimer.handle]
        split
        · exact register_puts le rfl
        · exact ⟨.inl rfl, rfl, rfl, le⟩
    | rmCall source' index now => exact ⟨.inl rfl, rfl, rfl, le⟩
    | tick now => cases hs
  rwa [handled] at puts

theorem sourceOf_event (now : Int) (m : Client.Message) :
    sourceOf (event owner nodeName now m) = some owner := by
  cases m <;> rfl

/-- The clock and a number are no NaN. -/
theorem floorTime_some (now : Int) {timeout : Number} (h : timeout ≠ .nan) :
    ∃ k, Stimer.floorTime now timeout = some k := by
  cases timeout with
  | float x =>
      simp only [Stimer.floorTime, Number.plus, Number.floor]
      split
      · exact ⟨_, rfl⟩
      · exact ⟨_, rfl⟩
  | nan => exact absurd rfl h
  | _ => exact ⟨_, rfl⟩

/-- A message of the client is refused, or registers the one entry it says. -/
theorem process_puts {st st' : Stimer} {m : Client.Message} {o : Timer.Output} {now : Int}
    (h : st.step todayAt (event owner nodeName now m) = some (st', o)) :
    (registers m = none ∨ refused m = true) ∧ st'.callOutTbl = st.callOutTbl ∨
      ∃ idx time entry, registers m = some idx ∧ refused m = false ∧ entry.WellPeriodic ∧
        (entry.refreshTime = none ↔ isOnce m = true) ∧
        st'.callOutTbl = st.callOutTbl.put time owner idx entry := by
  obtain ⟨_, _, admitted, handled⟩ := Stimer.step_eq_some h
  cases m with
  | callOnce idx timeout =>
      by_cases bad : timeout = .nan
      · subst bad
        cases handled
        exact .inl ⟨.inr rfl, rfl⟩
      · have good : Stimer.positive timeout ≠ .nan := by
          rw [Stimer.positive]
          split
          · intro one
            cases one
          · exact bad
        obtain ⟨k, key⟩ := floorTime_some now good
        simp only [event, Stimer.handle, key] at handled
        cases handled
        exact .inr ⟨idx, k, _, rfl, by simp [refused, bad], Stimer.wellPeriodic_of_none,
          by simp [isOnce], rfl⟩
  | callMulti idx timeout =>
      simp only [event, Event.admitted, Bool.and_eq_true] at admitted
      have good : timeout ≠ .nan := by
        rintro rfl
        cases admitted.2
      obtain ⟨k, key⟩ := floorTime_some now good
      simp only [event, Stimer.handle, key] at handled
      split at handled
      · rename_i small
        exact absurd small (by simp [Number.atMost_of_atLeast admitted.2])
      · cases handled
        exact .inr ⟨idx, k, _, rfl, rfl, Stimer.wellPeriodic_normal admitted.1 admitted.2,
          by simp [isOnce], rfl⟩
  | callDaily idx hour min sec =>
      simp only [event, Event.admitted, decide_eq_true_eq] at admitted
      simp only [event, Stimer.handle] at handled
      split at handled
      · rename_i checked
        cases handled
        exact .inr ⟨idx, _, _, rfl, by simp [refused, checked.2], Stimer.wellPeriodic_daily,
          by simp [isOnce], rfl⟩
      · rename_i checked
        cases handled
        refine .inl ⟨.inr ?_, rfl⟩
        simp only [refused, Bool.not_eq_true', decide_eq_false_iff_not]
        exact fun times => checked ⟨admitted, times⟩
  | rmCall idx =>
      cases handled
      exact .inl ⟨.inl rfl, rfl⟩

theorem mem_calloutsTo {cs : List Callout} {idx : Nat} :
    idx ∈ calloutsTo owner (.sent cs) ↔ 0 < cs.count ⟨owner, idx⟩ := by
  rw [List.count_pos_iff, calloutsTo, List.mem_map]
  constructor
  · rintro ⟨c, mem, rfl⟩
    rw [List.mem_filter, decide_eq_true_eq] at mem
    rw [← mem.2]
    exact mem.1
  · intro mem
    exact ⟨⟨owner, idx⟩, List.mem_filter.2 ⟨mem, by simp⟩, rfl⟩

variable (owner) in
/-- A tick sweeps the slot of every index. -/
theorem tick_slot {st st' : Stimer} {o : Timer.Output} {now : Int} (inOrder : InOrder st)
    (h : st.step todayAt (.tick now) = some (st', o)) :
    InOrder st' ∧ 0 ≤ st.sweepFrom ∧ now < 2 ^ 53 ∧
      ∃ seconds : Nat, st.sweepFrom + seconds = now + 1 ∧ ∀ idx,
        st'.callOutTbl.slot owner idx =
          ((st.callOutTbl.slot owner idx).sweep now seconds st.sweepFrom).1 ∧
        (idx ∈ calloutsTo owner o ↔
          0 < ((st.callOutTbl.slot owner idx).sweep now seconds st.sweepFrom).2) := by
  obtain ⟨le, small, _, handled⟩ := Stimer.step_eq_some h
  cases handled
  have nonneg : 0 ≤ now := Int.le_trans inOrder.started (Int.le_trans inOrder.clock le)
  refine ⟨⟨sourced_sweep inOrder.sourced, nonneg, Int.le_refl now⟩,
    Stimer.sweepFrom_nonneg inOrder.started, small, (now + 1 - st.sweepFrom).toNat, ?_, ?_⟩
  · have := Stimer.sweepFrom_le inOrder.clock (show st.clock ≤ now from le)
    omega
  · intro idx
    refine ⟨slot_sweep, ?_⟩
    rw [mem_calloutsTo, ← count_sweep inOrder.sourced]
    rfl

/-- The registrations of an index that are not handled yet. -/
def unhandled (mailbox : List Client.Message) (idx : Nat) : List Client.Message :=
  mailbox.filter fun m => registers m = some idx

/-- Nothing of the index is in the mailbox or in the table. -/
structure Absent (owner : Nat) (s : System) (idx : Nat) : Prop where
  mailbox : unhandled s.mailbox idx = []
  slot : s.stimer.callOutTbl.slot owner idx = fun _ => none

/-- How far an index is that was registered by `m`; `sent` tells whether a
callout was sent for it. -/
inductive Phase (owner : Nat) (s : System) (idx : Nat) (m : Client.Message) (sent : Prop) : Prop
  | waiting : unhandled s.mailbox idx = [m] →
      (s.stimer.callOutTbl.slot owner idx = fun _ => none) → ¬ sent → Phase owner s idx m sent
  | refused : Absent owner s idx → refused m = true → Phase owner s idx m sent
  | pending (entry time) : unhandled s.mailbox idx = [] →
      s.stimer.callOutTbl.slot owner idx = Slot.only entry time → entry.WellPeriodic →
      (entry.refreshTime = none ↔ isOnce m = true) → Removal.refused m = false →
      (isOnce m = true → ¬ sent) → Phase owner s idx m sent
  | fired : Absent owner s idx → isOnce m = true → sent → Phase owner s idx m sent

/-- The step leaves what concerns the index as it is. -/
structure Unmoved (owner : Nat) (s s' : System) (idx : Nat) : Prop where
  mailbox : unhandled s'.mailbox idx = unhandled s.mailbox idx
  slot : s'.stimer.callOutTbl.slot owner idx = s.stimer.callOutTbl.slot owner idx

section
variable {s s' : System} {idx : Nat} {m : Client.Message} {sent : Prop}

theorem Absent.of_unmoved (h : Unmoved owner s s' idx) (absent : Absent owner s idx) :
    Absent owner s' idx :=
  ⟨h.mailbox.trans absent.mailbox, h.slot.trans absent.slot⟩

theorem Phase.of_unmoved (h : Unmoved owner s s' idx) (phase : Phase owner s idx m sent) :
    Phase owner s' idx m sent := by
  cases phase with
  | waiting mailbox slot unsent =>
      exact .waiting (h.mailbox.trans mailbox) (h.slot.trans slot) unsent
  | refused absent bad => exact .refused (absent.of_unmoved h) bad
  | pending entry time mailbox slot periodic once good unsent =>
      exact .pending entry time (h.mailbox.trans mailbox) (h.slot.trans slot) periodic once good
        unsent
  | fired absent once sent => exact .fired (absent.of_unmoved h) once sent

theorem unhandled_append (l r : List Client.Message) :
    unhandled (l ++ r) idx = unhandled l idx ++ unhandled r idx :=
  List.filter_append l r

theorem unhandled_of_registers {k : Nat} (h : registers m = some k) :
    unhandled [m] idx = if k = idx then [m] else [] := by
  by_cases same : k = idx
  · subst same
    simp [unhandled, h]
  · simp [unhandled, h, same]

theorem unhandled_nil {l : List Client.Message} (h : ∀ m ∈ l, registers m = none) :
    unhandled l idx = [] := by
  rw [unhandled, List.filter_eq_nil_iff]
  intro m mem
  simp [h m mem]

/-- A tick, for an index that is not there. -/
theorem Absent.tick {now : Int} {o : Timer.Output} {stimer : Stimer} (inFlight : List Nat)
    (inOrder : InOrder s.stimer)
    (absent : Absent owner s idx) (h : s.stimer.step todayAt (.tick now) = some (stimer, o)) :
    Absent owner { s with stimer := stimer, inFlight := inFlight } idx ∧
      idx ∉ calloutsTo owner o := by
  obtain ⟨_, _, _, seconds, _, swept⟩ := tick_slot owner inOrder h
  have slot := swept idx
  rw [absent.slot, Slot.sweep_empty] at slot
  exact ⟨⟨absent.mailbox, slot.1⟩, fun mem => Nat.lt_irrefl 0 (slot.2.1 mem)⟩

theorem Phase.tick {now : Int} {o : Timer.Output} {stimer : Stimer} {inFlight : List Nat}
    (inOrder : InOrder s.stimer)
    (phase : Phase owner s idx m sent) (h : s.stimer.step todayAt (.tick now) = some (stimer, o)) :
    Phase owner { s with stimer := stimer, inFlight := inFlight } idx m
      (sent ∨ idx ∈ calloutsTo owner o) := by
  obtain ⟨_, nonneg, small, seconds, range, swept⟩ := tick_slot owner inOrder h
  cases phase with
  | waiting mailbox slot unsent =>
      have slot' := swept idx
      rw [slot, Slot.sweep_empty] at slot'
      refine .waiting mailbox slot'.1 ?_
      rintro (old | new)
      · exact unsent old
      · exact Nat.lt_irrefl 0 (slot'.2.1 new)
  | refused absent bad => exact .refused (absent.tick inFlight inOrder h).1 bad
  | pending entry time mailbox slot periodic once good unsent =>
      have slot' := swept idx
      rw [slot] at slot'
      by_cases refresh : entry.refreshTime = none
      · rcases Slot.sweep_once refresh time now seconds s.stimer.sweepFrom with kept | fired
        · rw [kept] at slot'
          refine .pending entry time mailbox slot'.1 periodic once good ?_
          rintro isOnce (old | new)
          · exact unsent isOnce old
          · exact Nat.lt_irrefl 0 (slot'.2.1 new)
        · rw [fired] at slot'
          exact .fired ⟨mailbox, slot'.1⟩ (once.1 refresh) (.inr (slot'.2.2 Nat.one_pos))
      · obtain ⟨time', next⟩ := Slot.sweep_periodic periodic refresh time nonneg small range
        rw [next] at slot'
        exact .pending entry time' mailbox slot'.1 periodic once good
          fun isOnce => absurd (once.2 isOnce) refresh
  | fired absent once sent => exact .fired (absent.tick inFlight inOrder h).1 once (.inl sent)

/-- The invariant of the client and the timer service. -/
structure Sound (owner : Nat) (trace : Trace) (s : System) : Prop where
  inOrder : InOrder s.stimer
  fresh : ∀ idx, s.client.callIndex < idx → Absent owner s idx ∧ idx ∉ callouts owner trace
  bound : ∀ idx m, (idx, m) ∈ registrations trace → idx ≤ s.client.callIndex
  phase : ∀ idx m, (idx, m) ∈ registrations trace →
    Phase owner s idx m (idx ∈ callouts owner trace)

variable {trace : Trace} {x : Event × Output}

theorem registrations_concat :
    registrations (trace ++ [x]) = registrations trace ++ (registeredAt x).toList :=
  Machine.filterMap_concat registeredAt trace x

theorem callouts_concat :
    callouts owner (trace ++ [x]) = callouts owner trace ++ callouts owner [x] :=
  List.flatMap_append

/-- A step that registers nothing, sends nothing and moves no slot. -/
theorem Sound.unmoved (sound : Sound owner trace s) (quiet : registeredAt x = none)
    (silent : callouts owner [x] = []) (index : s.client.callIndex ≤ s'.client.callIndex)
    (inOrder : InOrder s'.stimer)
    (unmoved : ∀ idx, Unmoved owner s s' idx) : Sound owner (trace ++ [x]) s' := by
  have same : registrations (trace ++ [x]) = registrations trace :=
    Machine.filterMap_concat_none quiet
  have sent : callouts owner (trace ++ [x]) = callouts owner trace := by
    rw [callouts_concat, silent, List.append_nil]
  exact
    { inOrder := inOrder
      fresh := by
        intro idx h
        rw [sent]
        have old := sound.fresh idx (Nat.lt_of_le_of_lt index h)
        exact ⟨old.1.of_unmoved (unmoved idx), old.2⟩
      bound := by
        intro idx m mem
        rw [same] at mem
        exact Nat.le_trans (sound.bound idx m mem) index
      phase := by
        intro idx m mem
        rw [same] at mem
        rw [sent]
        exact (sound.phase idx m mem).of_unmoved (unmoved idx) }

theorem callIndex_le {client client' : Client.State} {e : Client.Event} {o : Client.Output}
    (h : client.step e = some (client', o)) : client.callIndex ≤ client'.callIndex := by
  cases step_sends h with
  | registered _ index => exact Nat.le_of_lt (index ▸ Nat.lt_succ_self _)
  | other _ _ index => exact index

theorem unmoved_call {e : Client.Event} {client : Client.State} {o : Client.Output}
    (ne : idx ≠ s.client.callIndex + 1) (h : s.client.step e = some (client, o)) :
    Unmoved owner s { s with client := client, mailbox := s.mailbox ++ sentBy o } idx := by
  refine ⟨?_, rfl⟩
  rw [unhandled_append]
  cases step_sends h with
  | other _ quiet _ => rw [unhandled_nil quiet, List.append_nil]
  | registered registers _ =>
      rw [sentBy, unhandled_of_registers registers, if_neg (Ne.symm ne), List.append_nil]

theorem Sound.call {e : Client.Event} {client : Client.State} {o : Client.Output}
    (sound : Sound owner trace s) (h : s.client.step e = some (client, o)) :
    Sound owner (trace ++ [(.call e, .client o)])
      { s with client := client, mailbox := s.mailbox ++ sentBy o } := by
  cases step_sends h with
  | other noReturn quiet index =>
      refine sound.unmoved ?_ rfl index sound.inOrder ?_
      · simp only [registeredAt]
        split
        · rename_i idx m label
          cases label
          exact absurd rfl (noReturn idx m)
        · rfl
      · intro idx
        refine ⟨?_, rfl⟩
        rw [unhandled_append, unhandled_nil quiet, List.append_nil]
  | @registered m registers index =>
      have silent : callouts owner
          (trace ++ [(.call e, .client (.returned (s.client.callIndex + 1) m))]) =
          callouts owner trace := by
        rw [callouts_concat]
        exact List.append_nil _
      have label : ∀ {idx m'}, (idx, m') ∈ (registeredAt (.call e, .client
          (.returned (s.client.callIndex + 1) m))).toList →
            idx = s.client.callIndex + 1 ∧ m' = m := by
        intro idx m' mem
        simpa [registeredAt] using mem
      exact
        { inOrder := sound.inOrder
          fresh := by
            intro idx later
            change client.callIndex < idx at later
            rw [index] at later
            rw [silent]
            have old := sound.fresh idx (by omega)
            exact ⟨old.1.of_unmoved (unmoved_call (by omega) h), old.2⟩
          bound := by
            intro idx m' mem
            change idx ≤ client.callIndex
            rw [registrations_concat, List.mem_append] at mem
            rw [index]
            rcases mem with old | new
            · exact Nat.le_succ_of_le (sound.bound idx m' old)
            · rw [(label new).1]
          phase := by
            intro idx m' mem
            rw [silent]
            rw [registrations_concat, List.mem_append] at mem
            rcases mem with old | new
            · have le := sound.bound idx m' old
              exact (sound.phase idx m' old).of_unmoved (unmoved_call (by omega) h)
            · obtain ⟨rfl, rfl⟩ := label new
              have free := sound.fresh (s.client.callIndex + 1) (by omega)
              refine .waiting ?_ free.1.slot free.2
              change unhandled (s.mailbox ++ [m']) _ = [m']
              rw [unhandled_append, free.1.mailbox, unhandled_of_registers registers, if_pos rfl]
              rfl }

theorem Sound.deliver {k : Nat} {client : Client.State} {o : Client.Output} {inFlight : List Nat}
    (sound : Sound owner trace s) (h : s.client.step (.callout k) = some (client, o)) :
    Sound owner (trace ++ [(.deliver k, .client o)])
      { s with client := client, inFlight := inFlight } := by
  exact sound.unmoved rfl rfl (callIndex_le h) sound.inOrder fun idx => ⟨rfl, rfl⟩

theorem Sound.tick {now : Int} {o : Timer.Output} {stimer : Stimer} {inFlight : List Nat}
    (sound : Sound owner trace s) (h : s.stimer.step todayAt (.tick now) = some (stimer, o)) :
    Sound owner (trace ++ [(.tick now, .stimer o)])
      { s with stimer := stimer, inFlight := inFlight } := by
  obtain ⟨inOrder, _⟩ := tick_slot owner sound.inOrder h
  have same : registrations (trace ++ [(.tick now, .stimer o)]) = registrations trace :=
    Machine.filterMap_concat_none rfl
  have sent : callouts owner (trace ++ [(.tick now, .stimer o)]) =
      callouts owner trace ++ calloutsTo owner o := by
    rw [callouts_concat]
    exact congrArg (callouts owner trace ++ ·) (List.append_nil _)
  exact
    { inOrder := inOrder
      fresh := by
        intro idx later
        have old := sound.fresh idx later
        have new := old.1.tick inFlight sound.inOrder h
        refine ⟨new.1, ?_⟩
        rw [sent, List.mem_append, not_or]
        exact ⟨old.2, new.2⟩
      bound := by
        rw [same]
        exact sound.bound
      phase := by
        intro idx m mem
        rw [same] at mem
        rw [sent, List.mem_append]
        exact (sound.phase idx m mem).tick sound.inOrder h }

theorem unmoved_other {e : Timer.Event} {o : Timer.Output} {stimer : Stimer} {source : Nat}
    (hs : sourceOf e = some source) (foreign : source ≠ owner)
    (h : s.stimer.step todayAt e = some (stimer, o)) :
    Unmoved owner s { s with stimer := stimer } idx := by
  refine ⟨rfl, ?_⟩
  change stimer.callOutTbl.slot owner idx = _
  rcases (step_puts owner hs h).table with same | ⟨time, index, entry, _, put⟩
  · rw [same]
  · rw [put, slot_put_other time entry fun h => absurd h.symm foreign]

theorem Sound.other {e : Timer.Event} {o : Timer.Output} {stimer : Stimer} {source : Nat}
    (sound : Sound owner trace s) (hs : sourceOf e = some source) (foreign : source ≠ owner)
    (h : s.stimer.step todayAt e = some (stimer, o)) :
    Sound owner (trace ++ [(.other e, .stimer o)]) { s with stimer := stimer } := by
  have puts := step_puts owner hs h
  refine sound.unmoved rfl ?_ (Nat.le_refl _) (sound.inOrder.puts puts) ?_
  · simpa [callouts] using puts.silent
  · intro idx
    exact unmoved_other hs foreign h

/-- The timer service handles the registration of an index. -/
theorem Phase.process {m' : Client.Message} {mailbox : List Client.Message} {now : Int}
    {o : Timer.Output} {stimer : Stimer} (phase : Phase owner s idx m sent)
    (first : s.mailbox = m' :: mailbox) (hm : registers m' = some idx)
    (h : s.stimer.step todayAt (event owner nodeName now m') = some (stimer, o)) :
    Phase owner { s with stimer := stimer, mailbox := mailbox } idx m sent := by
  have head : unhandled s.mailbox idx = m' :: unhandled mailbox idx := by
    rw [first, unhandled, List.filter_cons_of_pos (by simpa using hm)]
    rfl
  cases phase with
  | waiting waiting slot unsent =>
      rw [head, List.cons.injEq] at waiting
      obtain ⟨rfl, rest⟩ := waiting
      rcases process_puts h with ⟨bad, same⟩ | ⟨k, time, entry, hk, good, periodic, once, put⟩
      · refine .refused ⟨rest, ?_⟩ ?_
        · change stimer.callOutTbl.slot owner idx = _
          rw [same, slot]
        · exact bad.resolve_left (by simp [hm])
      · rw [hm] at hk
        cases hk
        refine .pending entry time rest ?_ periodic once good fun _ => unsent
        change stimer.callOutTbl.slot owner idx = _
        rw [put, slot_put, slot]
        rfl
  | refused absent bad => exact absurd (head.symm.trans absent.mailbox) (List.cons_ne_nil _ _)
  | pending entry time empty slot periodic once good unsent =>
      exact absurd (head.symm.trans empty) (List.cons_ne_nil _ _)
  | fired absent once sent => exact absurd (head.symm.trans absent.mailbox) (List.cons_ne_nil _ _)

theorem unmoved_process {m : Client.Message} {mailbox : List Client.Message} {now : Int}
    {o : Timer.Output} {stimer : Stimer} (first : s.mailbox = m :: mailbox)
    (hm : registers m ≠ some idx)
    (h : s.stimer.step todayAt (event owner nodeName now m) = some (stimer, o)) :
    Unmoved owner s { s with stimer := stimer, mailbox := mailbox } idx where
  mailbox := by
    change unhandled mailbox idx = unhandled s.mailbox idx
    rw [first, unhandled, unhandled, List.filter_cons_of_neg (by simpa using hm)]
  slot := by
    change stimer.callOutTbl.slot owner idx = _
    rcases process_puts h with ⟨_, same⟩ | ⟨k, time, entry, hk, _, _, _, put⟩
    · rw [same]
    · have ne : idx ≠ k := by
        rintro rfl
        exact hm hk
      rw [put, slot_put_other time entry fun _ => ne]

theorem Sound.process {m : Client.Message} {mailbox : List Client.Message} {now : Int}
    {o : Timer.Output} {stimer : Stimer} (sound : Sound owner trace s)
    (first : s.mailbox = m :: mailbox)
    (h : s.stimer.step todayAt (event owner nodeName now m) = some (stimer, o)) :
    Sound owner (trace ++ [(.process now, .stimer o)])
      { s with stimer := stimer, mailbox := mailbox } := by
  have puts := step_puts owner (sourceOf_event now m) h
  have same : registrations (trace ++ [(.process now, .stimer o)]) = registrations trace :=
    Machine.filterMap_concat_none rfl
  have sent : callouts owner (trace ++ [(.process now, .stimer o)]) = callouts owner trace := by
    rw [callouts_concat]
    simpa [callouts] using puts.silent
  exact
    { inOrder := sound.inOrder.puts puts
      fresh := by
        intro idx later
        have old := sound.fresh idx later
        have ne : registers m ≠ some idx := by
          intro hm
          have mem : m ∈ unhandled s.mailbox idx :=
            List.mem_filter.2 ⟨by simp [first], by simpa using hm⟩
          rw [old.1.mailbox] at mem
          cases mem
        rw [sent]
        exact ⟨old.1.of_unmoved (unmoved_process first ne h), old.2⟩
      bound := by
        rw [same]
        exact sound.bound
      phase := by
        intro idx m' mem
        rw [same] at mem
        rw [sent]
        have old := sound.phase idx m' mem
        by_cases hm : registers m = some idx
        · exact old.process first hm h
        · exact old.of_unmoved (unmoved_process first hm h) }

/-- What a step can do. -/
inductive Moves (owner : Nat) (nodeName : String) (todayAt : Int → Int → Int → Int → Int)
    (s : System) : Event → System → Output → Prop
  | call {e client o} : s.client.step e = some (client, o) →
      Moves owner nodeName todayAt s (.call e)
        { s with client := client, mailbox := s.mailbox ++ sentBy o } (.client o)
  | deliver {idx client o} : s.client.step (.callout idx) = some (client, o) →
      Moves owner nodeName todayAt s (.deliver idx)
        { s with client := client, inFlight := s.inFlight.erase idx } (.client o)
  | process {now m mailbox stimer o} : s.mailbox = m :: mailbox →
      s.stimer.step todayAt (event owner nodeName now m) = some (stimer, o) →
      Moves owner nodeName todayAt s (.process now)
        { s with stimer := stimer, mailbox := mailbox } (.stimer o)
  | other {e source stimer o} : sourceOf e = some source → source ≠ owner →
      s.stimer.step todayAt e = some (stimer, o) →
      Moves owner nodeName todayAt s (.other e) { s with stimer := stimer } (.stimer o)
  | tick {now stimer o} : s.stimer.step todayAt (.tick now) = some (stimer, o) →
      Moves owner nodeName todayAt s (.tick now)
        { s with stimer := stimer, inFlight := s.inFlight ++ calloutsTo owner o } (.stimer o)

theorem step_moves {e : Event} {o : Output}
    (h : s.step owner nodeName todayAt e = some (s', o)) :
    Moves owner nodeName todayAt s e s' o := by
  cases e with
  | call e =>
      simp only [System.step] at h
      split at h
      · cases h
      · obtain ⟨⟨client, o'⟩, step, label⟩ := Option.map_eq_some_iff.1 h
        cases label
        exact .call step
  | deliver idx =>
      simp only [System.step] at h
      split at h
      · obtain ⟨⟨client, o'⟩, step, label⟩ := Option.map_eq_some_iff.1 h
        cases label
        exact .deliver step
      · cases h
  | process now =>
      simp only [System.step] at h
      split at h
      · cases h
      case h_2 m mailbox first =>
          obtain ⟨⟨stimer, o'⟩, step, label⟩ := Option.map_eq_some_iff.1 h
          cases label
          exact .process first step
  | other e =>
      simp only [System.step] at h
      split at h
      · cases h
      case h_2 source hs =>
          split at h
          · cases h
          case isFalse foreign =>
              obtain ⟨⟨stimer, o'⟩, step, label⟩ := Option.map_eq_some_iff.1 h
              cases label
              exact .other hs foreign step
  | tick now =>
      obtain ⟨⟨stimer, o'⟩, step, label⟩ := Option.map_eq_some_iff.1 h
      cases label
      exact .tick step

theorem Sound.step {e : Event} {o : Output} (sound : Sound owner trace s)
    (h : s.step owner nodeName todayAt e = some (s', o)) : Sound owner (trace ++ [(e, o)]) s' := by
  cases step_moves h with
  | call step => exact sound.call step
  | deliver step => exact sound.deliver step
  | process first step => exact sound.process first step
  | other hs foreign step => exact sound.other hs foreign step
  | tick step => exact sound.tick step

/-- An index that is gone stays gone. -/
theorem Absent.step {e : Event} {o : Output} (sound : Sound owner trace s)
    (absent : Absent owner s idx) (old : idx ≤ s.client.callIndex)
    (h : s.step owner nodeName todayAt e = some (s', o)) :
    Absent owner s' idx ∧ idx ≤ s'.client.callIndex ∧ idx ∉ callouts owner [(e, o)] := by
  cases step_moves h with
  | call step =>
      exact ⟨absent.of_unmoved (unmoved_call (by omega) step),
        Nat.le_trans old (callIndex_le step), List.not_mem_nil⟩
  | deliver step =>
      exact ⟨⟨absent.mailbox, absent.slot⟩, Nat.le_trans old (callIndex_le step),
        List.not_mem_nil⟩
  | @process now m mailbox stimer o first step =>
      have ne : registers m ≠ some idx := by
        intro hm
        have mem : m ∈ unhandled s.mailbox idx :=
          List.mem_filter.2 ⟨by simp [first], by simpa using hm⟩
        rw [absent.mailbox] at mem
        cases mem
      refine ⟨absent.of_unmoved (unmoved_process first ne step), old, ?_⟩
      simp [callouts, (step_puts owner (sourceOf_event now m) step).silent]
  | other hs foreign step =>
      refine ⟨absent.of_unmoved (unmoved_other hs foreign step), old, ?_⟩
      simp [callouts, (step_puts owner hs step).silent]
  | @tick now stimer o step =>
      have gone := absent.tick (s.inFlight ++ calloutsTo owner o) sound.inOrder step
      refine ⟨gone.1, old, ?_⟩
      simpa [callouts] using gone.2

end

section
variable {start : Nat} {functions : Nat → String → Bool} {trace : Trace} {s : System} {idx : Nat}
  {m : Client.Message}

theorem sound_of_reach (reach : (system owner nodeName todayAt start functions).Reach trace s) :
    Sound owner trace s := by
  apply Machine.Reach.invariant (Sound owner) ?_ ?_ reach
  · exact
      { inOrder :=
          { sourced := fun time source index e found => by cases found
            started := Int.natCast_nonneg start
            clock := Int.le_refl start }
        fresh := fun idx _ => ⟨⟨rfl, rfl⟩, List.not_mem_nil⟩
        bound := by simp [registrations]
        phase := by simp [registrations] }
  · intro trace s e s' o sound step
    exact sound.step step

theorem gone_of_absent (sound : Sound owner trace s) (absent : Absent owner s idx)
    (old : idx ≤ s.client.callIndex) :
    Gone owner (system owner nodeName todayAt start functions) s idx := by
  refine ⟨fun time => congrFun absent.slot time, ?_⟩
  intro trace' s' reach
  have stays : Sound owner (trace ++ trace') s' ∧ Absent owner s' idx ∧
      idx ≤ s'.client.callIndex ∧ idx ∉ callouts owner trace' := by
    apply Machine.Reach.invariant (fun trace' s' => Sound owner (trace ++ trace') s' ∧
      Absent owner s' idx ∧ idx ≤ s'.client.callIndex ∧ idx ∉ callouts owner trace') ?_ ?_ reach
    · exact ⟨by rwa [List.append_nil], absent, old, List.not_mem_nil⟩
    · rintro trace₁ s₁ e s₂ o ⟨sound₁, absent₁, old₁, unsent⟩ step
      have next := absent₁.step sound₁ old₁ step
      refine ⟨?_, next.1, next.2.1, ?_⟩
      · rw [← List.append_assoc]
        exact sound₁.step step
      · rw [callouts_concat, List.mem_append, not_or]
        exact ⟨unsent, next.2.2⟩
  exact stays.2.2.2

theorem not_gone_of_pending {entry : Entry} {time : Number}
    (slot : s.stimer.callOutTbl.slot owner idx = Slot.only entry time) :
    ¬ Gone owner (system owner nodeName todayAt start functions) s idx := by
  intro gone
  have empty : s.stimer.callOutTbl.slot owner idx time = none := gone.1 time
  rw [slot, Slot.only_self] at empty
  cases empty

/-- After a removal that is processed the timer is gone exactly if the timer
service had refused it, or it was a `CallOut` and its callout has been sent. -/
theorem removed_gone_iff {pre post : Trace} {env : Nat} {sends : Bool} {o : Output}
    (reach : (system owner nodeName todayAt start functions).Reach
      (pre ++ (.call (.removeCallOut env idx sends), o) :: post) s)
    (registered : (idx, m) ∈ registrations pre) (processed : s.mailbox = []) :
    Gone owner (system owner nodeName todayAt start functions) s idx ↔
      refused m = true ∨ isOnce m = true ∧
        idx ∈ callouts owner (pre ++ (.call (.removeCallOut env idx sends), o) :: post) := by
  have sound := sound_of_reach reach
  have mem : (idx, m) ∈
      registrations (pre ++ (.call (.removeCallOut env idx sends), o) :: post) := by
    rw [registrations, List.filterMap_append]
    exact List.mem_append_left _ registered
  have old := sound.bound idx m mem
  cases sound.phase idx m mem with
  | waiting waiting =>
      rw [processed] at waiting
      cases waiting
  | refused absent bad => exact ⟨fun _ => .inl bad, fun _ => gone_of_absent sound absent old⟩
  | pending entry time _ slot _ _ good unsent =>
      constructor
      · intro gone
        exact absurd gone (not_gone_of_pending slot)
      · rintro (bad | sent)
        · rw [good] at bad
          cases bad
        · exact absurd sent.2 (unsent sent.1)
  | fired absent once sent =>
      exact ⟨fun _ => .inr ⟨once, sent⟩, fun _ => gone_of_absent sound absent old⟩

end

/-- `Daily(12, min, 0, ...)` and its removal, all processed at second 10. -/
def dailyRemoved (min : Int) : List Event :=
  [.call (.daily 7 12 min 0 (some "onNoon") true), .process 10,
    .call (.removeCallOut 7 1 true), .process 10]

theorem reach_dailyRemoved {min : Int} {s : System}
    (run : (system 5 "game" utcToday 10 fun _ _ => true).exec
      (system 5 "game" utcToday 10 fun _ _ => true).init (dailyRemoved min) = some s) :
    ∃ pre o post, (system 5 "game" utcToday 10 fun _ _ => true).Reach
        (pre ++ (.call (.removeCallOut 7 1 true), o) :: post) s ∧
      (1, .callDaily 1 12 min 0) ∈ registrations pre := by
  have first : (system 5 "game" utcToday 10 fun _ _ => true).step
      (system 5 "game" utcToday 10 fun _ _ => true).init
      (.call (.daily 7 12 min 0 (some "onNoon") true)) =
        some (_, .client (.returned 1 (.callDaily 1 12 min 0))) := rfl
  rw [dailyRemoved, Machine.exec, first] at run
  obtain ⟨more, labels, reach⟩ := (Machine.Reach.init.next first).exec_events run
  obtain ⟨processed, rest, rfl, _, labels⟩ := List.map_eq_cons_iff.1 labels
  obtain ⟨⟨_, o⟩, post, rfl, rfl, _⟩ := List.map_eq_cons_iff.1 labels
  refine ⟨[_, processed], o, post, reach, ?_⟩
  exact List.mem_filterMap.2 ⟨_, List.mem_cons_self, rfl⟩

/-- A daily timer that the timer service refused is gone after its removal. -/
theorem refused_daily_gone :
    ∃ pre o post s, (system 5 "game" utcToday 10 fun _ _ => true).Reach
        (pre ++ (.call (.removeCallOut 7 1 true), o) :: post) s ∧
      (1, .callDaily 1 12 61 0) ∈ registrations pre ∧ s.mailbox = [] ∧
      Gone 5 (system 5 "game" utcToday 10 fun _ _ => true) s 1 := by
  have run : ((system 5 "game" utcToday 10 fun _ _ => true).exec
      (system 5 "game" utcToday 10 fun _ _ => true).init (dailyRemoved 61)).map
        (fun s => s.mailbox.isEmpty) = some true := by
    decide +kernel
  obtain ⟨s, run, empty⟩ := Option.map_eq_some_iff.1 run
  obtain ⟨pre, o, post, reach, registered⟩ := reach_dailyRemoved run
  have processed : s.mailbox = [] := List.isEmpty_iff.1 empty
  exact ⟨pre, o, post, s, reach, registered, processed,
    (removed_gone_iff reach registered processed).2 (.inl rfl)⟩

/-- A daily timer stays in the table after its removal. -/
theorem removed_daily_stays :
    ∃ pre o post s, (system 5 "game" utcToday 10 fun _ _ => true).Reach
        (pre ++ (.call (.removeCallOut 7 1 true), o) :: post) s ∧
      (1, .callDaily 1 12 0 0) ∈ registrations pre ∧ s.mailbox = [] ∧
      s.stimer.callOutTbl.get (.int 43200) 5 1 =
        some ⟨5, "game", some (.int oneDaySec), some .accurate⟩ ∧
      ¬ Gone 5 (system 5 "game" utcToday 10 fun _ _ => true) s 1 := by
  have run : ((system 5 "game" utcToday 10 fun _ _ => true).exec
      (system 5 "game" utcToday 10 fun _ _ => true).init (dailyRemoved 0)).map
        (fun s => (s.mailbox.isEmpty, s.stimer.callOutTbl.get (.int 43200) 5 1)) =
      some (true, some ⟨5, "game", some (.int oneDaySec), some .accurate⟩) := by
    decide +kernel
  obtain ⟨s, run, found⟩ := Option.map_eq_some_iff.1 run
  rw [Prod.mk.injEq] at found
  obtain ⟨pre, o, post, reach, registered⟩ := reach_dailyRemoved run
  refine ⟨pre, o, post, s, reach, registered, List.isEmpty_iff.1 found.1, found.2, ?_⟩
  intro gone
  have empty := gone.1 (.int 43200)
  rw [found.2] at empty
  cases empty

end Removal

end Qiuqiu.Timer
