import Qiuqiu.Base.Schedule
import Qiuqiu.Timer.Stimer

/-!
When timers of whole seconds fire. A slot that holds one entry is a timer of
`Schedule`: a sweep, whatever its length and whatever else it deals with, is
one tick of the schedule. Along a run the callouts of a source and index are
the ticks its registration is scheduled for.
-/
namespace Qiuqiu.Timer
open Lua
variable {start : Nat} {todayAt : Int → Int → Int → Int → Int}

/-- An entry with a whole period, or none. -/
structure Entry.Every (e : Entry) (period : Option Int) : Prop where
  once : period = none → e.refreshTime = none
  again : ∀ p, period = some p →
    ∃ refreshTime, e.refreshTime = some refreshTime ∧ refreshTime.held = true ∧
      refreshTime.whole = some p ∧ 1 ≤ p
  nextType : e.nextType ≠ some .accurate

/-- The key of what is due at a second. The clock does not come to a second that no double
holds, and its key is none that a tick visits. -/
def KeyFor (key : Number) (due : Int) : Prop :=
  if due < 2 ^ 53 then key = .int due else ∀ i : Int, 0 ≤ i → i < 2 ^ 53 → key ≠ .int i

/-- The slot with one entry that is due at a second, or with none. -/
inductive Slot.Holding (e : Entry) : Slot → Option Int → Prop
  | empty : Holding e (fun _ => none) none
  | one {key : Number} {due : Int} : KeyFor key due → Holding e (Slot.only e key) (some due)

section
variable {x key : Number} {n p i due : Int}

theorem KeyFor.ne (keyFor : KeyFor key due) (lo : 0 ≤ i) (hi : i < 2 ^ 53) (ne : i ≠ due) :
    .int i ≠ key := by
  rw [KeyFor] at keyFor
  split at keyFor
  · rw [keyFor]
    simpa using ne
  · exact (keyFor i lo hi).symm

theorem KeyFor.eq (keyFor : KeyFor key due) (hi : due < 2 ^ 53) : key = .int due := by
  rwa [KeyFor, if_pos hi] at keyFor

/-- The key of a sum with a whole number. -/
theorem keyFor_plus (held : x.held = true) (whole : x.whole = some p) (one : 1 ≤ p)
    (nonneg : 0 ≤ n) (small : n < 2 ^ 53) :
    (∃ k, (x.plus n).key = some k ∧ KeyFor k (n + p)) ∧
      ∃ k, (x.plus n).floor.key = some k ∧ KeyFor k (n + p) := by
  by_cases near : n + p < 2 ^ 53
  · obtain ⟨key, floor⟩ := Number.plus_near whole one nonneg near
    have exact : KeyFor (.int (n + p)) (n + p) := by rw [KeyFor, if_pos near]
    exact ⟨⟨_, key, exact⟩, ⟨_, floor, exact⟩⟩
  · obtain ⟨⟨k, key⟩, k', floor⟩ := Number.plus_some (n := n) whole
    have never : ∀ k, (x.plus n).key = some k ∨ (x.plus n).floor.key = some k →
        KeyFor k (n + p) := by
      intro k h
      rw [KeyFor, if_neg near]
      rintro i lo hi rfl
      have := Number.plus_far held whole one nonneg small (not_lt.1 near) lo h
      omega
    exact ⟨⟨k, key, never k (.inl key)⟩, ⟨k', floor, never k' (.inr floor)⟩⟩

end

namespace Slot
variable {slot : Slot} {e : Entry} {period due : Option Int} {i endTime : Int} {seconds : Nat}

theorem Holding.deal_of_ne (holding : Holding e slot due) (lo : 0 ≤ i) (hi : i < 2 ^ 53)
    (h : ∀ d ∈ due, i ≠ d) : slot.deal i endTime = (slot, 0) := by
  cases holding with
  | empty => rfl
  | one keyFor => exact deal_only_of_ne (keyFor.ne lo hi (h _ rfl))

/-- An entry that fires is due again after the tick. -/
theorem Holding.deal (holding : Holding e slot (some i)) (every : e.Every period) (lo : 0 ≤ i)
    (le : i ≤ endTime) (small : endTime < 2 ^ 53) :
    Holding e (slot.deal i endTime).1 (period.map (endTime + ·)) ∧
      (slot.deal i endTime).2 = 1 := by
  cases holding with
  | one keyFor =>
      rw [keyFor.eq (by omega)]
      cases period with
      | none =>
          have last : e.nextTime i endTime = none := by
            rw [Entry.nextTime, every.once rfl, Option.bind_none]
          have later : ∀ nextTime, e.nextTime i endTime = some nextTime → nextTime ≠ .int i := by
            simp [last]
          rw [deal_only later, last]
          exact ⟨.empty, rfl⟩
      | some p =>
          obtain ⟨refreshTime, refresh, held, whole, one⟩ := every.again p rfl
          obtain ⟨⟨k, key, keyFor⟩, _⟩ := keyFor_plus held whole one (by omega) small
          have next : e.nextTime i endTime = some k := by
            rw [Entry.nextTime, refresh, Option.bind_some, if_neg every.nextType, key]
          have later : ∀ nextTime, e.nextTime i endTime = some nextTime → nextTime ≠ .int i := by
            intro nextTime h
            rw [next] at h
            cases h
            exact (keyFor.ne lo (by omega) (by omega)).symm
          rw [deal_only later, next]
          exact ⟨.one keyFor, rfl⟩

/-- What is due after the sweep stays. -/
theorem Holding.sweep_later (holding : Holding e slot due) (lo : 0 ≤ i) (small : endTime < 2 ^ 53)
    (later : ∀ d ∈ due, endTime < d) (h : i + seconds = endTime + 1) :
    slot.sweep endTime seconds i = (slot, 0) := by
  induction seconds generalizing i with
  | zero => rfl
  | succ seconds ih =>
      push_cast at h
      have ne : ∀ d ∈ due, i ≠ d := by
        intro d hd
        have := later d hd
        omega
      have rest : slot.sweep endTime seconds (i + 1) = (slot, 0) := ih (by omega) (by omega)
      simp only [Slot.sweep, holding.deal_of_ne lo (by omega) ne, rest]

/-- What is due within the sweep fires once and is re-armed after it. -/
theorem Holding.sweep_due {d : Int} (holding : Holding e slot (some d)) (every : e.Every period)
    (nonneg : 0 ≤ i) (small : endTime < 2 ^ 53) (lo : i ≤ d) (hi : d ≤ endTime)
    (h : i + seconds = endTime + 1) :
    Holding e (slot.sweep endTime seconds i).1 (period.map (endTime + ·)) ∧
      (slot.sweep endTime seconds i).2 = 1 := by
  induction seconds generalizing i with
  | zero =>
      simp only [Int.natCast_zero, Int.add_zero] at h
      omega
  | succ seconds ih =>
      push_cast at h
      rw [Slot.sweep]
      by_cases now : i = d
      · subst now
        obtain ⟨next, fires⟩ := holding.deal every nonneg hi small
        have later : ∀ d ∈ period.map (endTime + ·), endTime < d := by
          intro d hd
          obtain ⟨p, hp, rfl⟩ := Option.map_eq_some_iff.1 hd
          obtain ⟨_, _, _, _, one⟩ := every.again p hp
          omega
        rw [next.sweep_later (by omega) small later (by omega), fires]
        exact ⟨next, rfl⟩
      · have ne : ∀ d' ∈ some d, i ≠ d' := by
          rintro d' ⟨⟩
          exact now
        have rest : Holding e (slot.sweep endTime seconds (i + 1)).1 (period.map (endTime + ·)) ∧
            (slot.sweep endTime seconds (i + 1)).2 = 1 :=
          ih (by omega) (by omega) (by omega)
        rw [holding.deal_of_ne nonneg (by omega) ne]
        exact ⟨rest.1, by simpa using rest.2⟩

/-- A sweep is a tick of the schedule. -/
theorem Holding.sweep (holding : Holding e slot due) (every : e.Every period) (nonneg : 0 ≤ i)
    (small : endTime < 2 ^ 53) (from_i : ∀ d ∈ due, i ≤ d) (h : i + seconds = endTime + 1) :
    Holding e (slot.sweep endTime seconds i).1 (Schedule.next period due endTime) ∧
      (slot.sweep endTime seconds i).2 = if Schedule.firesAt due endTime then 1 else 0 := by
  cases due with
  | none =>
      rw [holding.sweep_later nonneg small (by simp) h]
      exact ⟨holding, rfl⟩
  | some d =>
      by_cases le : d ≤ endTime
      · obtain ⟨next, fires⟩ := holding.sweep_due every nonneg small (from_i d rfl) le h
        rw [Schedule.next_of_le le]
        exact ⟨next, by simpa [Schedule.firesAt, le] using fires⟩
      · have later : ∀ d' ∈ some d, endTime < d' := by
          rintro d' ⟨⟩
          omega
        rw [holding.sweep_later nonneg small later h, Schedule.next_of_lt (by omega)]
        exact ⟨holding, by simp [Schedule.firesAt, le]⟩

end Slot

abbrev Trace := List (Event × Output)

namespace Event

/-- A registration for whole seconds, or a tick. -/
def Whole : Event → Prop
  | .callMulti _ _ _ timeout _ => timeout.whole.isSome
  | .callOnce _ _ _ timeout _ => timeout.whole.isSome
  | .tick _ => True
  | _ => False

def registers : Event → Option (Nat × Nat)
  | .callMulti source _ index _ _ => some (source, index)
  | .callOnce source _ index _ _ => some (source, index)
  | .callDaily source _ index _ _ _ _ => some (source, index)
  | _ => none

def period : Event → Option Int
  | .callMulti _ _ _ timeout _ => timeout.whole
  | _ => none

/-- When a timer of whole seconds is due first. -/
def dueAt : Event → Int
  | .callMulti _ _ _ timeout now => now + timeout.whole.getD 0
  | .callOnce _ _ _ timeout now => now + max (timeout.whole.getD 0) 1
  | e => e.now

def tickAt : Event → Option Int
  | .tick now => some now
  | _ => none

end Event

def ticks (trace : Trace) : List Int := trace.filterMap fun x => x.1.tickAt

def registered (trace : Trace) : List (Nat × Nat) := trace.filterMap fun x => x.1.registers

/-- The tick an event sends callouts at, once for each. -/
def sentAt (source index : Nat) : Event × Output → List Int
  | (.tick now, .sent callouts) => .replicate (callouts.count ⟨source, index⟩) now
  | _ => []

def sentTimes (source index : Nat) (trace : Trace) : List Int := trace.flatMap (sentAt source index)

namespace Stimer
variable {s s' : Stimer} {source index : Nat} {period due : Option Int}

/-- The slot of a source and index is a timer of the schedule. -/
def Holds (s : Stimer) (source index : Nat) (period due : Option Int) : Prop :=
  ∃ entry : Entry, entry.Every period ∧
    Slot.Holding entry (s.callOutTbl.slot source index) due ∧ ∀ d ∈ due, s.sweepFrom ≤ d

theorem next_later (pos : ∀ p ∈ period, 1 ≤ p) {now d : Int}
    (h : d ∈ Schedule.next period due now) : now + 1 ≤ d := by
  obtain ⟨d', _, next⟩ := Option.bind_eq_some_iff.1 h
  split at next
  · obtain ⟨p, hp, rfl⟩ := Option.map_eq_some_iff.1 next
    have := pos p hp
    omega
  · cases next
    omega

theorem Holds.tick (holds : s.Holds source index period due) (started : 0 ≤ s.lastTime)
    (clock : s.lastTime ≤ s.clock) (sourced : s.callOutTbl.Sourced) {now : Int} {o : Output}
    (le : s.clock ≤ now) (small : now < 2 ^ 53)
    (h : { s with clock := now }.handle todayAt (.tick now) = (s', o)) :
    s'.Holds source index period (Schedule.next period due now) ∧
      sentAt source index (.tick now, o) = if Schedule.firesAt due now then [now] else [] := by
  obtain ⟨entry, every, slot, later⟩ := holds
  have nonneg : 0 ≤ s.sweepFrom := by
    simp only [sweepFrom]
    split <;> omega
  have seconds : s.sweepFrom + ((now + 1 - s.sweepFrom).toNat : Int) = now + 1 := by
    have : s.sweepFrom ≤ now + 1 := by
      simp only [sweepFrom]
      split <;> omega
    omega
  obtain ⟨swept, fires⟩ := slot.sweep every nonneg small later seconds
  cases h
  refine ⟨⟨entry, every, ?_, ?_⟩, ?_⟩
  · change Slot.Holding entry ((Timer.sweep now (now + 1 - s.sweepFrom).toNat s.sweepFrom
      s.callOutTbl).1.slot source index) _
    rwa [slot_sweep]
  · intro d hd
    apply next_later ?_ hd
    intro p hp
    obtain ⟨_, _, _, _, one⟩ := every.again p hp
    exact one
  · change List.replicate ((Timer.sweep now (now + 1 - s.sweepFrom).toNat s.sweepFrom
      s.callOutTbl).2.count ⟨source, index⟩) now = _
    rw [count_sweep sourced, fires]
    split
    · rfl
    · rfl

theorem Holds.put (holds : s.Holds source index period due) {source' index' : Nat}
    {nextTime : Number} {e : Entry} (other : source = source' → index ≠ index') :
    { s with callOutTbl := s.callOutTbl.put nextTime source' index' e }.Holds source index
      period due := by
  obtain ⟨entry, every, slot, later⟩ := holds
  refine ⟨entry, every, ?_, later⟩
  change Slot.Holding entry ((s.callOutTbl.put nextTime source' index' e).slot source index) due
  rwa [slot_put_other nextTime e other]

theorem holds_put {nextTime : Number} {e : Entry} {d : Int}
    (free : s.Holds source index period none) (every : e.Every due) (keyFor : KeyFor nextTime d)
    (later : s.sweepFrom ≤ d) :
    { s with callOutTbl := s.callOutTbl.put nextTime source index e }.Holds source index
      due (some d) := by
  obtain ⟨entry, _, slot, _⟩ := free
  refine ⟨e, every, ?_, ?_⟩
  · change Slot.Holding e ((s.callOutTbl.put nextTime source index e).slot source index) (some d)
    rw [slot_put]
    generalize s.callOutTbl.slot source index = old at slot
    cases slot with
    | empty => exact .one keyFor
  · rintro d' ⟨⟩
    exact later

/-- What `call_once` makes of a whole number. -/
theorem positive_whole {timeout : Number} {p : Int} (held : timeout.held = true)
    (whole : timeout.whole = some p) :
    (positive timeout).held = true ∧ (positive timeout).whole = some (max p 1) := by
  rw [positive]
  cases timeout with
  | int n =>
      cases whole
      simp only [Number.atMost, decide_eq_true_eq]
      split
      · exact ⟨rfl, by rw [Number.whole, max_eq_right (by omega)]⟩
      · exact ⟨held, by rw [Number.whole, max_eq_left (by omega)]⟩
  | float y =>
      have value := Number.whole_float whole
      simp only [Number.atMost, decide_eq_true_eq, value]
      split
      · rename_i small
        have : p ≤ 0 := by exact_mod_cast small
        exact ⟨rfl, by rw [Number.whole, max_eq_right (by omega)]⟩
      · rename_i large
        have : ¬ p ≤ 0 := fun le => large (by exact_mod_cast le)
        rw [← value]
        exact ⟨held, by rw [whole, max_eq_left (by omega)]⟩
  | inf negative => cases whole
  | nan => cases whole

variable (todayAt) in
/-- A registration for whole seconds puts one entry, at its due time. -/
theorem handle_registers {e : Event} (whole : e.Whole) (admitted : e.admitted = true)
    (nonneg : 0 ≤ e.now) (small : e.now < 2 ^ 53) (h : e.registers = some (source, index)) :
    ∃ (entry : Entry) (k : Number), entry.Every e.period ∧ entry.source = source ∧
      e.now + 1 ≤ e.dueAt ∧ KeyFor k e.dueAt ∧
      ∀ s : Stimer, s.handle todayAt e =
        ({ s with callOutTbl := s.callOutTbl.put k source index entry }, .returned index) := by
  cases e with
  | callMulti source' nodeName index' timeout now =>
      cases h
      rw [Event.admitted, Bool.and_eq_true] at admitted
      obtain ⟨p, value⟩ := Option.isSome_iff_exists.1 whole
      have one := Number.le_whole value admitted.2
      obtain ⟨_, k, key, keyFor⟩ := keyFor_plus (n := now) admitted.1 value one nonneg small
      refine ⟨⟨source, nodeName, some timeout, some .normal⟩, k, ?_, rfl, ?_, ?_, ?_⟩
      · exact
          { once := by
              rw [Event.period, value]
              exact nofun
            again := by
              intro p' hp
              rw [Event.period, value] at hp
              cases hp
              exact ⟨timeout, rfl, admitted.1, value, one⟩
            nextType := by simp }
      · simp only [Event.now, Event.dueAt, value, Option.getD_some]
        omega
      · simpa only [Event.dueAt, value, Option.getD_some] using keyFor
      · intro s
        rw [handle, Number.atMost_of_atLeast admitted.2, floorTime, key]
        rfl
  | callOnce source' nodeName index' timeout now =>
      cases h
      obtain ⟨p, value⟩ := Option.isSome_iff_exists.1 whole
      obtain ⟨held, value'⟩ := positive_whole admitted value
      obtain ⟨_, k, key, keyFor⟩ := keyFor_plus (n := now) held value' (by omega) nonneg small
      refine ⟨⟨source, nodeName, none, none⟩, k, ⟨fun _ => rfl, ?_, by simp⟩, rfl, ?_, ?_, ?_⟩
      · rintro p' ⟨⟩
      · simp only [Event.now, Event.dueAt]
        omega
      · simpa only [Event.dueAt, value, Option.getD_some] using keyFor
      · intro s
        rw [handle, floorTime, key]
        rfl
  | callDaily source' nodeName index' hour min sec now => exact whole.elim
  | rmCall source' index' now => cases h
  | tick now => cases h

end Stimer

/-- How a run stands with the timer of a source and index. -/
structure Timeline (source index : Nat) (trace : Trace) (s : Stimer) : Prop where
  sourced : s.callOutTbl.Sourced
  started : 0 ≤ s.lastTime
  clock : s.lastTime ≤ s.clock
  before : (source, index) ∉ registered trace →
    s.Holds source index none none ∧ sentTimes source index trace = []
  since : ∀ pre reg o post, trace = pre ++ (reg, o) :: post →
    reg.registers = some (source, index) →
    s.Holds source index reg.period
        (Schedule.after reg.period (some reg.dueAt) (ticks post)) ∧
      sentTimes source index trace = Schedule.fires reg.period (some reg.dueAt) (ticks post)

section
variable {source index : Nat} {trace : Trace} {s s' : Stimer} {e : Event} {o : Output}

theorem sentTimes_concat :
    sentTimes source index (trace ++ [(e, o)]) =
      sentTimes source index trace ++ sentAt source index (e, o) := by
  simp [sentTimes, List.flatMap_append]

theorem ticks_concat : ticks (trace ++ [(e, o)]) = ticks trace ++ e.tickAt.toList :=
  Machine.filterMap_concat _ trace (e, o)

theorem registered_concat :
    registered (trace ++ [(e, o)]) = registered trace ++ e.registers.toList :=
  Machine.filterMap_concat _ trace (e, o)

theorem mem_registered {pre post : Trace} {reg : Event} {o : Output}
    (h : reg.registers = some (source, index)) :
    (source, index) ∈ registered (pre ++ (reg, o) :: post) :=
  List.mem_filterMap.2 ⟨(reg, o), by simp, h⟩

theorem Timeline.init : Timeline source index [] ⟨∅, start, true, start⟩ where
  sourced := by
    intro time source index e found
    cases found
  started := Int.natCast_nonneg start
  clock := Int.le_refl start
  before := by
    intro _
    exact ⟨⟨⟨source, "", none, none⟩, ⟨fun _ => rfl, nofun, nofun⟩, .empty, nofun⟩, rfl⟩
  since := by
    intro pre reg o post h
    simp at h

theorem Timeline.tick (timeline : Timeline source index trace s) {now : Int}
    (le : s.clock ≤ now) (small : now < 2 ^ 53)
    (h : { s with clock := now }.handle todayAt (.tick now) = (s', o)) :
    Timeline source index (trace ++ [(.tick now, o)]) s' := by
  have moves : ∀ {period due}, s.Holds source index period due →
      s'.Holds source index period (Schedule.next period due now) ∧
        sentAt source index (.tick now, o) = if Schedule.firesAt due now then [now] else [] :=
    fun holds => holds.tick timeline.started timeline.clock timeline.sourced le small h
  have started := timeline.started
  have clock := timeline.clock
  exact
    { sourced := by
        cases h
        exact sourced_sweep timeline.sourced
      started := by
        cases h
        change 0 ≤ now
        omega
      clock := by
        cases h
        exact Int.le_refl now
      before := by
        intro absent
        rw [registered_concat] at absent
        have old := timeline.before fun mem => absent (List.mem_append_left _ mem)
        have new := moves old.1
        refine ⟨new.1, ?_⟩
        rw [sentTimes_concat, old.2, new.2]
        rfl
      since := by
        intro pre reg o' post split registers
        rcases Machine.split_concat split with ⟨post', rfl, rfl⟩ | ⟨_, _, last⟩
        · have old := timeline.since pre reg o' post' rfl registers
          have new := moves old.1
          rw [ticks_concat, Event.tickAt, Option.toList_some, Schedule.after_concat,
            Schedule.fires_concat, sentTimes_concat, old.2, new.2]
          exact ⟨new.1, rfl⟩
        · cases last
          cases registers }

theorem Timeline.registers (timeline : Timeline source index trace s) (le : s.clock ≤ e.now)
    (small : e.now < 2 ^ 53) (admitted : e.admitted = true) (whole : e.Whole) {source' index' : Nat}
    (registers : e.registers = some (source', index'))
    (fresh : (source', index') ∉ registered trace)
    (h : { s with clock := e.now }.handle todayAt e = (s', o)) :
    Timeline source index (trace ++ [(e, o)]) s' := by
  have nonneg : 0 ≤ e.now :=
    Int.le_trans timeline.started (Int.le_trans timeline.clock le)
  obtain ⟨entry, k, every, hsource, later, keyFor, handled⟩ :=
    Stimer.handle_registers todayAt whole admitted nonneg small registers
  rw [handled] at h
  cases h
  have quiet : e.tickAt = none ∧ ∀ o, sentAt source index (e, o) = [] := by
    cases e with
    | tick now => cases registers
    | _ => exact ⟨rfl, fun _ => rfl⟩
  have keeps : ∀ {period due}, (source = source' → index ≠ index') →
      s.Holds source index period due →
      { s with
        callOutTbl := s.callOutTbl.put k source' index' entry
        clock := e.now }.Holds source index period due :=
    fun other holds => Stimer.Holds.put (s := { s with clock := e.now }) holds other
  have other_of_mem : (source, index) ∈ registered trace → source = source' → index ≠ index' := by
    rintro mem rfl rfl
    exact fresh mem
  exact
    { sourced := sourced_put timeline.sourced hsource
      started := timeline.started
      clock := Int.le_trans timeline.clock le
      before := by
        intro absent
        rw [registered_concat, registers, Option.toList_some, List.mem_append,
          List.mem_singleton, not_or, Prod.mk.injEq] at absent
        have old := timeline.before absent.1
        refine ⟨keeps (fun hs hi => absent.2 ⟨hs, hi⟩) old.1, ?_⟩
        rw [sentTimes_concat, old.2, quiet.2, List.append_nil]
      since := by
        intro pre reg o' post split hreg
        rcases Machine.split_concat split with ⟨post', rfl, rfl⟩ | ⟨rfl, rfl, last⟩
        · have old := timeline.since pre reg o' post' rfl hreg
          rw [ticks_concat, quiet.1, Option.toList_none, List.append_nil, sentTimes_concat,
            quiet.2, List.append_nil]
          exact ⟨keeps (other_of_mem (mem_registered hreg)) old.1, old.2⟩
        · cases last
          rw [registers] at hreg
          cases hreg
          obtain ⟨free, sent⟩ := timeline.before fresh
          refine ⟨Stimer.holds_put (s := { s with clock := e.now }) free every keyFor ?_, ?_⟩
          · have := timeline.clock
            unfold Stimer.sweepFrom
            split <;> simp only <;> omega
          · rw [sentTimes_concat, sent, quiet.2]
            rfl }

theorem timeline_of_reach (reach : (machine start todayAt).Reach trace s)
    (whole : ∀ x ∈ trace, x.1.Whole) (distinct : (registered trace).Nodup) :
    Timeline source index trace s := by
  induction reach with
  | init => exact Timeline.init
  | @next trace s e s' o _ step ih =>
      obtain ⟨le, small, admitted, handled⟩ := Stimer.step_eq_some step
      rw [registered_concat] at distinct
      have old := ih (fun x mem => whole x (List.mem_append_left _ mem))
        (List.Nodup.of_append_left distinct)
      have last : e.Whole := whole (e, o) (by simp)
      cases registers : e.registers with
      | some key =>
          rw [registers] at distinct
          refine old.registers le small admitted last registers ?_ handled
          intro mem
          exact List.disjoint_of_nodup_append distinct mem (by simp)
      | none =>
          cases e with
          | tick now => exact old.tick le small handled
          | rmCall _ _ _ => exact last.elim
          | _ => cases registers

/-- Timers of whole seconds fire at the ticks they are scheduled for. -/
theorem whole_timers_fire {pre post : Trace} {reg : Event}
    (reach : (machine start todayAt).Reach (pre ++ (reg, o) :: post) s)
    (whole : ∀ x ∈ pre ++ (reg, o) :: post, x.1.Whole)
    (distinct : (registered (pre ++ (reg, o) :: post)).Nodup) :
    (∀ source nodeName index timeout now t, timeout.whole = some t →
      reg = .callOnce source nodeName index timeout now →
        sentTimes source index (pre ++ (reg, o) :: post) =
          ((ticks post).find? fun tick => now + max t 1 ≤ tick).toList) ∧
    (∀ source nodeName index timeout now p, timeout.whole = some p →
      reg = .callMulti source nodeName index timeout now →
      (∃! time, (s.callOutTbl.get time source index).isSome) ∧
        sentTimes source index (pre ++ (reg, o) :: post) =
          Schedule.fires (some p) (some (now + p)) (ticks post) ∧
        (sentTimes source index (pre ++ (reg, o) :: post)).head? =
          ((ticks post).find? fun tick => now + p ≤ tick) ∧
        (sentTimes source index (pre ++ (reg, o) :: post)).IsChain fun a b => a + p ≤ b) := by
  constructor
  · rintro source nodeName index timeout now t value rfl
    have line := (timeline_of_reach reach whole distinct).since pre _ o post rfl rfl
    have sent := line.2
    simp only [Event.period, Event.dueAt, value, Option.getD_some] at sent
    rw [sent]
    exact Schedule.fires_once
  · rintro source nodeName index timeout now p value rfl
    have line := (timeline_of_reach reach whole distinct).since pre _ o post rfl rfl
    simp only [Event.period, Event.dueAt, value, Option.getD_some] at line
    have sent := line.2
    refine ⟨?_, sent, ?_, ?_⟩
    · obtain ⟨entry, _, slot, _⟩ := line.1
      obtain ⟨d, pending⟩ := Schedule.after_periodic p (now + p) (ticks post)
      rw [pending] at slot
      generalize one : s.callOutTbl.slot source index = old at slot
      cases slot with
      | @one key _ _ =>
          refine ⟨key, ?_, ?_⟩
          · change (s.callOutTbl.slot source index key).isSome = true
            rw [one]
            exact congrArg Option.isSome (Slot.only_self entry key)
          · intro time found
            change (s.callOutTbl.slot source index time).isSome = true at found
            by_contra ne
            rw [one] at found
            exact absurd (congrArg Option.isSome (Slot.only_of_ne (e := entry) ne))
              (ne_of_eq_of_ne found (by simp))
    · rw [sent]
      exact Schedule.head_fires
    · rw [sent]
      exact Schedule.isChain_fires p (now + p)

end

/-- A period of two seconds, and timers of another source: one in the same second, one beyond
the end of the clock. -/
theorem whole_timers_fire_run :
    ∃ o post s, (machine 10 fun now _ _ _ => now).Reach
        ([] ++ (.callMulti 1 "game" 1 (.float 2) 10, o) :: post) s ∧
      ticks post = [11, 14, 15, 16] ∧
      sentTimes 1 1 ([] ++ (.callMulti 1 "game" 1 (.float 2) 10, o) :: post) = [14, 16] := by
  have run : ((machine 10 fun now _ _ _ => now).exec ⟨∅, 10, true, 10⟩
      [.callMulti 1 "game" 1 (.float 2) 10, .callOnce 2 "game" 1 (.int (-3)) 11,
        .callOnce 2 "game" 2 (.int (2 ^ 63 - 1)) 11, .tick 11, .tick 14, .tick 15,
        .tick 16]).isSome = true := by
    decide +kernel
  obtain ⟨s, run⟩ := Option.isSome_iff_exists.1 run
  obtain ⟨trace, labels, reach⟩ := Machine.Reach.init.exec_events run
  obtain ⟨⟨reg, o⟩, post, rfl, rfl, tail⟩ := List.map_eq_cons_iff.1 labels
  have events : ticks post = [11, 14, 15, 16] ∧ registered post = [(2, 1), (2, 2)] := by
    have ticks_eq : ticks post = (post.map Prod.fst).filterMap Event.tickAt := by
      rw [List.filterMap_map]
      rfl
    have registered_eq : registered post = (post.map Prod.fst).filterMap Event.registers := by
      rw [List.filterMap_map]
      rfl
    rw [ticks_eq, registered_eq, tail]
    exact ⟨rfl, rfl⟩
  have two : (Number.float 2).whole = some 2 := by decide +kernel
  have whole : ∀ x ∈ ([] : Trace) ++ (.callMulti 1 "game" 1 (.float 2) 10, o) :: post,
      x.1.Whole := by
    intro x mem
    cases mem with
    | head => exact Option.isSome_iff_exists.2 ⟨2, two⟩
    | tail _ mem =>
        have label : x.1 ∈ post.map Prod.fst := List.mem_map_of_mem mem
        rw [tail] at label
        simp only [List.mem_cons, List.not_mem_nil, or_false] at label
        rcases label with h | h | h | h | h | h <;> rw [h] <;> simp [Event.Whole, Number.whole]
  have distinct : (registered
      ([] ++ (.callMulti 1 "game" 1 (.float 2) 10, o) :: post)).Nodup := by
    change ((1, 1) :: registered post).Nodup
    rw [events.2]
    decide
  have fires := (whole_timers_fire reach whole distinct).2 1 "game" 1 (.float 2) 10 2 two rfl
  refine ⟨o, post, s, reach, events.1, ?_⟩
  rw [fires.2.1, events.1]
  rfl

end Qiuqiu.Timer
