import Qiuqiu.Timer.Stimer

/-!
Which entries of the timer service a later tick visits. An entry is lost when
it is put into a second that is swept already, or under a key that is no second
at all: `call_once` with less than a second, `call_daily` for a second that is
swept, a timeout whose sum with the clock is no integer or wraps around, and a
period with a fraction once it has fired.
-/
namespace Qiuqiu.Timer
open Lua
variable {start : Nat} {todayAt : Int → Int → Int → Int → Int}

/-- Added to the time of a tick, the period gives an integer. -/
def addsWhole (now : Int) : Number → Bool
  | .int n => decide (now + n < 2 ^ 63)
  | .float x =>
      decide (Double.round (now + x) = (Double.round (now + x)).num ∧
        Double.round (now + x) < 2 ^ 63)
  | .inf _ | .nan => false

/-- A period after which the entry is not due at an integer, fired by a tick at `now`. -/
def Entry.fractional (now : Int) (e : Entry) : Bool :=
  match e.refreshTime with
  | some refreshTime => e.nextType ≠ some .accurate && !addsWhole now refreshTime
  | none => false

namespace Stimer
variable (s : Stimer)

/-- A tick after this state sweeps the second. -/
def ToVisit (time : Int) : Prop := if s.first then s.lastTime ≤ time else s.lastTime < time

/-- No timer is orphaned. -/
def NoOrphan : Prop :=
  ∀ time source index e, s.callOutTbl.get time source index = some e →
    ∃ n : Int, time = .int n ∧ s.ToVisit n

/-- A tick at `now` visits the key. -/
def visits (now : Int) : Number → Bool
  | .int n => decide (s.sweepFrom ≤ n ∧ n ≤ now)
  | _ => false

/-- No period with a fraction is due until `now`. -/
def wholeUntil (now : Int) : Bool :=
  s.callOutTbl.entries.all fun bucket =>
    !s.visits now bucket.1 ||
      bucket.2.entries.all fun sources => sources.2.entries.all fun entry =>
        !entry.2.fractional now

/-- The clock and the timeout add up to an integer of Lua, in a second that is not swept yet. -/
def timely (now : Int) : Number → Bool
  | .int n => decide (now + n < 2 ^ 63)
  | .float x =>
      decide (s.sweepFrom ≤ Double.round (now + x) ∧ Double.round (now + x) < 2 ^ 63)
  | .inf _ => false
  | .nan => true

/-- The condition on a step: the second a timer is registered for is not swept
yet, and what a tick re-arms has a whole period. -/
def keeps (todayAt : Int → Int → Int → Int → Int) : Event → Bool
  | .callMulti _ _ _ timeout now => s.timely now timeout
  | .callOnce _ _ _ timeout now => s.timely now (positive timeout)
  | .callDaily _ _ _ hour min sec now =>
      decide (¬ ((0 ≤ hour ∧ hour ≤ 23) ∧ (0 ≤ min ∧ min ≤ 60) ∧ (0 ≤ sec ∧ sec ≤ 60)) ∨
        (todayAt now hour min sec < now ∧ s.sweepFrom ≤ todayAt now hour min sec + oneDaySec) ∨
        (now ≤ todayAt now hour min sec ∧ s.sweepFrom ≤ todayAt now hour min sec))
  | .tick now => s.wholeUntil now
  | .rmCall _ _ _ => true

theorem toVisit_iff {time : Int} : s.ToVisit time ↔ s.sweepFrom ≤ time := by
  simp only [ToVisit, sweepFrom]
  split
  · rfl
  · exact Int.add_one_le_iff.symm

end Stimer

/-- A period is a second at least, and that of a daily timer is a day. -/
structure Period (e : Entry) (refreshTime : Number) : Prop where
  held : refreshTime.held = true
  second : refreshTime.atLeast 1 = true
  daily : e.nextType = some .accurate → refreshTime = .int oneDaySec

def Entry.WellPeriodic (e : Entry) : Prop :=
  ∀ refreshTime, e.refreshTime = some refreshTime → Period e refreshTime

/-- A sweep that goes on at second `i` finds every entry of the slot. -/
def Slot.Due (slot : Slot) (i endTime : Int) : Prop :=
  ∀ time e, slot time = some e →
    e.WellPeriodic ∧ ∃ n : Int, time = .int n ∧ i ≤ n ∧ (e.fractional endTime = true → endTime < n)

section
variable {e : Entry} {nowTime endTime i : Int} {k refreshTime : Number}

/-- A period that is due again at an integer is due later. -/
theorem nextTime_later (periodic : e.WellPeriodic) (nonneg : 0 ≤ nowTime) (le : nowTime ≤ endTime)
    (small : endTime < 2 ^ 53) (lo : 0 ≤ i) (h : e.nextTime nowTime endTime = some (.int i)) :
    nowTime < i := by
  obtain ⟨refreshTime, refresh, key⟩ := Option.bind_eq_some_iff.1 h
  have period := periodic refreshTime refresh
  split at key
  · exact Number.plus_later period.held period.second nonneg (by omega) key lo
  · have := Number.plus_later period.held period.second (by omega) small key lo
    omega

theorem plus_of_addsWhole (adds : addsWhole endTime refreshTime = true)
    (second : refreshTime.atLeast 1 = true) (nonneg : 0 ≤ endTime) (small : endTime < 2 ^ 53) :
    ∃ n : Int, (refreshTime.plus endTime).key = some (.int n) ∧ 0 ≤ n := by
  cases refreshTime with
  | int m =>
      simp only [addsWhole, Number.atLeast, decide_eq_true_eq] at adds second
      refine ⟨endTime + m, ?_, by omega⟩
      rw [Number.plus, Number.bmod_of_lt (by omega) adds]
      rfl
  | float x =>
      simp only [addsWhole, Number.atLeast, decide_eq_true_eq, Int.cast_one] at adds second
      obtain ⟨whole, fits⟩ := adds
      have above : ((0 : Int) : Rat) ≤ Double.round (endTime + x) := by
        have : (0 : Rat) ≤ endTime := by exact_mod_cast nonneg
        refine Number.le_sum nonneg (by linarith) (Int.le_refl 0) (by omega) ?_
        push_cast
        linarith
      rw [whole] at above fits
      have lo : 0 ≤ (Double.round (endTime + x)).num := by exact_mod_cast above
      have hi : (Double.round (endTime + x)).num < 2 ^ 63 := by exact_mod_cast fits
      refine ⟨(Double.round (endTime + x)).num, ?_, lo⟩
      rw [Number.plus_float nonneg small, whole, Rat.num_intCast]
      exact Number.key_intCast lo hi
  | inf negative => cases adds
  | nan => cases adds

/-- The time a fired entry is due again. -/
theorem Entry.nextTime_whole (periodic : e.WellPeriodic) (nonneg : 0 ≤ nowTime)
    (le : nowTime ≤ endTime) (small : endTime < 2 ^ 53) (whole : e.fractional endTime = false)
    (h : e.nextTime nowTime endTime = some k) : ∃ n : Int, k = .int n ∧ nowTime + 1 ≤ n := by
  have due : ∃ n : Int, k = .int n ∧ 0 ≤ n := by
    obtain ⟨refreshTime, refresh, key⟩ := Option.bind_eq_some_iff.1 h
    have period := periodic refreshTime refresh
    split at key
    · rename_i accurate
      rw [period.daily accurate, Number.plus, oneDaySec,
        Number.bmod_of_lt (by omega) (by omega)] at key
      cases key
      exact ⟨nowTime + 86400, rfl, by omega⟩
    · rename_i normal
      have adds : addsWhole endTime refreshTime = true := by
        simpa [Entry.fractional, refresh, normal] using whole
      obtain ⟨n, exact, lo⟩ := plus_of_addsWhole adds period.second (by omega) small
      rw [exact] at key
      cases key
      exact ⟨n, rfl, lo⟩
  obtain ⟨n, rfl, lo⟩ := due
  exact ⟨n, rfl, nextTime_later periodic nonneg le small lo h⟩

theorem Slot.Due.deal {slot : Slot} (due : slot.Due i endTime) (nonneg : 0 ≤ i) (le : i ≤ endTime)
    (small : endTime < 2 ^ 53) : (slot.deal i endTime).1.Due (i + 1) endTime := by
  intro time e found
  obtain ⟨ne, origin⟩ := Slot.deal_some found
  cases origin with
  | inl kept =>
      obtain ⟨periodic, n, rfl, from_i, later⟩ := due time e kept
      refine ⟨periodic, n, rfl, ?_, later⟩
      have : n ≠ i := by
        rintro rfl
        exact ne rfl
      omega
  | inr fired =>
      obtain ⟨periodic, n, at_i, _, later⟩ := due (.int i) e fired.1
      cases at_i
      have whole : e.fractional endTime = false := by
        by_contra fractional
        have := later (by simpa using fractional)
        omega
      obtain ⟨n, rfl, after⟩ := Entry.nextTime_whole periodic nonneg le small whole fired.2
      refine ⟨periodic, n, rfl, after, ?_⟩
      intro fractional
      rw [whole] at fractional
      cases fractional

theorem Slot.Due.sweep {slot : Slot} {seconds : Nat} (due : slot.Due i endTime) (nonneg : 0 ≤ i)
    (small : endTime < 2 ^ 53) (h : i + seconds = endTime + 1) :
    (slot.sweep endTime seconds i).1.Due (endTime + 1) endTime := by
  induction seconds generalizing i slot with
  | zero =>
      have : i = endTime + 1 := by simpa using h
      exact this ▸ due
  | succ seconds ih =>
      push_cast at h
      exact ih (due.deal nonneg (by omega) small) (by omega) (by omega)

end

namespace Stimer
variable {s : Stimer}

/-- What every step that meets the condition keeps. -/
structure Sound (s : Stimer) : Prop where
  noOrphan : s.NoOrphan
  started : 0 ≤ s.lastTime
  clock : s.lastTime ≤ s.clock
  periodic : ∀ time source index e, s.callOutTbl.get time source index = some e → e.WellPeriodic

theorem sweepFrom_le (clock : s.lastTime ≤ s.clock) {now : Int} (le : s.clock ≤ now) :
    s.sweepFrom ≤ now + 1 := by
  simp only [sweepFrom]
  split <;> omega

theorem sweepFrom_nonneg (started : 0 ≤ s.lastTime) : 0 ≤ s.sweepFrom := by
  simp only [sweepFrom]
  split <;> omega

theorem Sound.at (sound : s.Sound) {now : Int} (le : s.clock ≤ now) :
    { s with clock := now }.Sound :=
  { sound with clock := Int.le_trans sound.clock le }

theorem Sound.register (sound : s.Sound) {nextTime : Option Number} {source index : Nat}
    {e : Entry} (later : ∀ k, nextTime = some k → ∃ n : Int, k = .int n ∧ s.sweepFrom ≤ n)
    (periodic : e.WellPeriodic) : (s.register nextTime source index e).1.Sound := by
  cases nextTime with
  | none => exact sound
  | some k =>
      obtain ⟨n, rfl, unswept⟩ := later k rfl
      exact
        { noOrphan := by
            intro time source' index' e' found
            cases put_some found with
            | inl new => exact ⟨n, new.2.1, (toVisit_iff s).2 unswept⟩
            | inr old => exact sound.noOrphan time source' index' e' old
          started := sound.started
          clock := sound.clock
          periodic := by
            intro time source' index' e' found
            cases put_some found with
            | inl new => exact new.2.2 ▸ periodic
            | inr old => exact sound.periodic time source' index' e' old }

theorem wholeUntil_entry {now n : Int} (whole : s.wholeUntil now = true)
    {source index : Nat} {e : Entry}
    (found : s.callOutTbl.get (.int n) source index = some e)
    (lo : s.sweepFrom ≤ n) (hi : n ≤ now) : e.fractional now = false := by
  obtain ⟨indices, hbucket, hindex⟩ := Option.bind_eq_some_iff.1 found
  obtain ⟨sources, htime, hsource⟩ := Option.bind_eq_some_iff.1 hbucket
  have bucket := List.all_eq_true.1 whole _ (AList.mem_lookup_iff.1 htime)
  simp only [visits, lo, hi, and_self, decide_true, Bool.not_true, Bool.false_or] at bucket
  have inner := List.all_eq_true.1 bucket _ (AList.mem_lookup_iff.1 hsource)
  have entry := List.all_eq_true.1 inner _ (AList.mem_lookup_iff.1 hindex)
  simpa using entry

theorem Sound.due (sound : s.Sound) {now : Int} (whole : s.wholeUntil now = true)
    (source index : Nat) : (s.callOutTbl.slot source index).Due s.sweepFrom now := by
  intro time e found
  obtain ⟨n, rfl, visit⟩ := sound.noOrphan time source index e found
  have lo := (toVisit_iff s).1 visit
  refine ⟨sound.periodic _ _ _ _ found, n, rfl, lo, ?_⟩
  intro fractional
  by_contra hi
  have := wholeUntil_entry whole found lo (not_lt.1 hi)
  rw [this] at fractional
  cases fractional

theorem Sound.tick (sound : s.Sound) {now : Int} (le : s.clock ≤ now) (small : now < 2 ^ 53)
    (whole : s.wholeUntil now = true) :
    ({ s with clock := now }.handle todayAt (.tick now)).1.Sound := by
  have from_now := sweepFrom_le sound.clock le
  have seconds : s.sweepFrom + ((now + 1 - s.sweepFrom).toNat : Int) = now + 1 := by omega
  have due : ∀ time source index e,
      (sweep now (now + 1 - s.sweepFrom).toNat s.sweepFrom s.callOutTbl).1.get time source index =
        some e → e.WellPeriodic ∧ ∃ n : Int, time = .int n ∧ now + 1 ≤ n := by
    intro time source index e found
    change (sweep now _ _ s.callOutTbl).1.slot source index time = some e at found
    rw [slot_sweep] at found
    obtain ⟨periodic, n, rfl, later, _⟩ := (sound.due whole source index).sweep
      (sweepFrom_nonneg sound.started) small seconds time e found
    exact ⟨periodic, n, rfl, later⟩
  have started := sound.started
  have clock := sound.clock
  exact
    { noOrphan := fun time source index e found => (due time source index e found).2
      started := show 0 ≤ now by omega
      clock := Int.le_refl now
      periodic := fun time source index e found => (due time source index e found).1 }

theorem atLeast_positive {timeout : Number} {n : Int} (h : positive timeout = .int n) : 1 ≤ n := by
  rw [positive] at h
  split at h
  · cases h
    exact Int.le_refl 1
  · rename_i large
    rw [h, Number.atMost, decide_eq_true_eq] at large
    omega

/-- A registration in time gets a second to come. -/
theorem floorTime_timely {now : Int} {timeout : Number} (timely : s.timely now timeout = true)
    (nonneg : 0 ≤ now) (small : now < 2 ^ 53) (from_now : s.sweepFrom ≤ now + 1)
    (started : 0 ≤ s.sweepFrom) (second : ∀ n, timeout = .int n → 1 ≤ n) {k : Number}
    (h : floorTime now timeout = some k) : ∃ n : Int, k = .int n ∧ s.sweepFrom ≤ n := by
  cases timeout with
  | int n =>
      have one := second n rfl
      simp only [Stimer.timely, decide_eq_true_eq] at timely
      rw [floorTime, Number.plus, Number.bmod_of_lt (by omega) timely] at h
      cases h
      exact ⟨now + n, rfl, by omega⟩
  | float x =>
      simp only [Stimer.timely, decide_eq_true_eq] at timely
      have lo : s.sweepFrom ≤ ⌊Double.round (now + x)⌋ := Int.le_floor.2 timely.1
      have hi : ⌊Double.round (now + x)⌋ < 2 ^ 63 := by
        rw [Int.floor_lt]
        exact_mod_cast timely.2
      rw [floorTime, Number.plus_float nonneg small, Number.floor, if_pos ⟨by omega, hi⟩] at h
      cases h
      exact ⟨_, rfl, lo⟩
  | inf negative => cases timely
  | nan => cases h

theorem wellPeriodic_of_none {source : Nat} {nodeName : String} :
    (Entry.mk source nodeName none none).WellPeriodic := by
  intro refreshTime h
  cases h

theorem wellPeriodic_daily {source : Nat} {nodeName : String} :
    (Entry.mk source nodeName (some (.int oneDaySec)) (some .accurate)).WellPeriodic := by
  intro refreshTime h
  cases h
  exact ⟨by decide, by decide, fun _ => rfl⟩

theorem wellPeriodic_normal {source : Nat} {nodeName : String} {timeout : Number}
    (held : timeout.held = true) (second : timeout.atLeast 1 = true) :
    (Entry.mk source nodeName (some timeout) (some .normal)).WellPeriodic := by
  intro refreshTime h
  cases h
  exact ⟨held, second, nofun⟩

theorem Sound.handle (sound : s.Sound) {e : Event} (le : s.clock ≤ e.now) (small : e.now < 2 ^ 53)
    (admitted : e.admitted = true) (keeps : s.keeps todayAt e = true) :
    ({ s with clock := e.now }.handle todayAt e).1.Sound := by
  have now := sound.at le
  have from_now : s.sweepFrom ≤ e.now + 1 := sweepFrom_le sound.clock le
  have started := sweepFrom_nonneg sound.started
  have nonneg : 0 ≤ e.now := Int.le_trans sound.started (Int.le_trans sound.clock le)
  cases e with
  | callMulti source nodeName index timeout n =>
      rw [Event.admitted, Bool.and_eq_true] at admitted
      simp only [Stimer.handle]
      split
      · exact now
      · refine now.register ?_ (wellPeriodic_normal admitted.1 admitted.2)
        intro k h
        refine floorTime_timely keeps nonneg small from_now started ?_ h
        rintro m rfl
        simpa [Number.atLeast] using admitted.2
  | callOnce source nodeName index timeout n =>
      refine now.register ?_ wellPeriodic_of_none
      intro k h
      exact floorTime_timely keeps nonneg small from_now started (fun _ => atLeast_positive) h
  | callDaily source nodeName index hour min sec n =>
      simp only [Stimer.keeps, decide_eq_true_eq] at keeps
      simp only [Stimer.handle]
      split
      · rename_i checked
        refine now.register ?_ wellPeriodic_daily
        rintro k ⟨⟩
        refine ⟨_, rfl, ?_⟩
        rcases keeps with refused | past | future
        · exact absurd checked refused
        · rw [dailyTime, if_pos past.1]
          exact past.2
        · rw [dailyTime, if_neg (not_lt.2 future.1)]
          exact future.2
      · exact now
  | rmCall source index n => exact now
  | tick n => exact sound.tick le small keeps

/-- A registration that is not in time gets no second to come. -/
theorem floorTime_not_timely {now : Int} {timeout : Number}
    (late : s.timely now timeout = false) (held : timeout.held = true) (nonneg : 0 ≤ now)
    (small : now < 2 ^ 53) (started : 0 ≤ s.sweepFrom) (second : ∀ n, timeout = .int n → 1 ≤ n) :
    ∃ k, floorTime now timeout = some k ∧ ∀ n : Int, k = .int n → n < s.sweepFrom := by
  cases timeout with
  | int m =>
      have one := second m rfl
      simp only [Stimer.timely, decide_eq_false_iff_not, not_lt] at late
      simp only [Number.held, decide_eq_true_eq] at held
      refine ⟨_, rfl, ?_⟩
      rintro n ⟨⟩
      have := Number.bmod_of_ge (n := now + m) late (by omega)
      omega
  | float x =>
      simp only [Stimer.timely, decide_eq_false_iff_not, not_and_or, not_le, not_lt] at late
      rw [floorTime, Number.plus_float nonneg small]
      obtain ⟨k, key⟩ : ∃ k, (Number.float (Double.round (now + x))).floor.key = some k := by
        rw [Number.floor]
        split
        · exact ⟨_, rfl⟩
        · exact ⟨_, rfl⟩
      refine ⟨k, key, ?_⟩
      rintro n rfl
      obtain ⟨floor, fits⟩ := Number.key_floor key
      rcases late with swept | beyond
      · rw [← floor, Int.floor_lt]
        exact swept
      · -- a float from 2^63 on stays a float
        have above : 2 ^ 63 ≤ ⌊Double.round (now + x)⌋ := by
          rw [Int.le_floor]
          exact_mod_cast beyond
        omega
  | inf negative => exact ⟨_, rfl, fun n same => by cases same⟩
  | nan => cases late

theorem orphan_of_register {nextTime : Option Number} {k : Number} {source index : Nat} {e : Entry}
    (put : nextTime = some k) (swept : ∀ n : Int, k = .int n → n < s.sweepFrom) :
    ¬ (s.register nextTime source index e).1.NoOrphan := by
  subst put
  intro noOrphan
  have found : (s.register (some k) source index e).1.callOutTbl.get k source index = some e := by
    change (s.callOutTbl.put k source index e).slot source index k = some e
    rw [slot_put, Function.update_self]
  obtain ⟨n, hn, visit⟩ := noOrphan k source index e found
  have later : s.sweepFrom ≤ n := (toVisit_iff s).1 visit
  have := swept n hn
  omega

/-- A registration that does not meet the condition is lost. -/
theorem orphan_of_not_keeps {e : Event} {s' : Stimer} {o : Output} (started : 0 ≤ s.lastTime)
    (clock : s.lastTime ≤ s.clock) (h : s.step todayAt e = some (s', o))
    (registers : ∀ now, e ≠ .tick now) (broken : s.keeps todayAt e = false) : ¬ s'.NoOrphan := by
  obtain ⟨le, small, admitted, handled⟩ := step_eq_some h
  have state : s' = ({ s with clock := e.now }.handle todayAt e).1 := by rw [handled]
  subst state
  have nonneg : 0 ≤ e.now := Int.le_trans started (Int.le_trans clock le)
  have sweepFrom := sweepFrom_nonneg started
  cases e with
  | callMulti source nodeName index timeout now =>
      rw [Event.admitted, Bool.and_eq_true] at admitted
      have second : ∀ n, timeout = .int n → 1 ≤ n := by
        rintro n rfl
        simpa [Number.atLeast] using admitted.2
      obtain ⟨k, put, swept⟩ := floorTime_not_timely broken admitted.1 nonneg small sweepFrom second
      have large : ¬ timeout.atMost 0 = true := by simp [Number.atMost_of_atLeast admitted.2]
      rw [handle, if_neg large]
      exact orphan_of_register put swept
  | callOnce source nodeName index timeout now =>
      have held : (positive timeout).held = true := by
        rw [positive]
        split
        · rfl
        · exact admitted
      obtain ⟨k, put, swept⟩ := floorTime_not_timely broken held nonneg small sweepFrom
        fun _ => atLeast_positive
      exact orphan_of_register put swept
  | callDaily source nodeName index hour min sec now =>
      rw [keeps, decide_eq_false_iff_not, not_or, not_or, not_not] at broken
      simp only [handle, if_pos broken.1]
      apply orphan_of_register rfl
      rintro n ⟨⟩
      simp only [dailyTime]
      split
      · rename_i past
        exact not_le.1 fun later => broken.2.1 ⟨past, later⟩
      · rename_i future
        exact not_le.1 fun later => broken.2.2 ⟨not_lt.1 future, later⟩
  | rmCall source index now => cases broken
  | tick now => exact absurd rfl (registers now)

end Stimer

/-- In every run whose steps meet the condition no timer is orphaned. -/
theorem noOrphan_of_keeps {trace : List (Event × Output)} {s : Stimer}
    (reach : ((machine start todayAt).guard fun s e => s.keeps todayAt e).Reach trace s) :
    s.NoOrphan := by
  have sound : s.Sound := by
    apply Machine.Reach.invariant (fun _ s => s.Sound) ?_ ?_ reach
    · exact
        { noOrphan := fun time source index e found => by cases found
          started := Int.natCast_nonneg start
          clock := Int.le_refl start
          periodic := fun time source index e found => by cases found }
    · intro trace s e s' o sound step
      obtain ⟨keeps, step⟩ := Machine.guard_step step
      obtain ⟨le, small, admitted, handled⟩ := Stimer.step_eq_some step
      have next := sound.handle le small admitted keeps
      rwa [handled] at next
  exact sound.noOrphan

/-- `os.time` on the day of a time, in UTC. -/
def utcToday (now hour min sec : Int) : Int :=
  now / oneDaySec * oneDaySec + hour * 3600 + min * 60 + sec

/-- A timeout that rounds up to the next second, and periods of two seconds and of the double
after one. -/
theorem noOrphan_run :
    ∃ trace s, ((machine 10 utcToday).guard fun s e => s.keeps utcToday e).Reach trace s ∧
      s.callOutTbl.get (.int 14) 1 1 = some ⟨1, "game", some (.int 2), some .normal⟩ ∧
      s.callOutTbl.get (.int 13) 1 4 =
        some ⟨1, "game", some (.float (1 + 1 / 2 ^ 52)), some .normal⟩ ∧ s.NoOrphan := by
  have run : (((machine 10 utcToday).guard fun s e => s.keeps utcToday e).exec ⟨∅, 10, true, 10⟩
      [.callOnce 1 "game" 2 (.float (1 / 2)) 10, .callMulti 1 "game" 1 (.int 2) 10, .tick 10,
        .callOnce 1 "game" 3 (.float (1 - 1 / 2 ^ 53)) 10,
        .callMulti 1 "game" 4 (.float (1 + 1 / 2 ^ 52)) 10, .tick 12]).map
        (fun s => (s.callOutTbl.get (.int 14) 1 1, s.callOutTbl.get (.int 13) 1 4)) =
      some (some ⟨1, "game", some (.int 2), some .normal⟩,
        some ⟨1, "game", some (.float (1 + 1 / 2 ^ 52)), some .normal⟩) := by
    decide +kernel
  obtain ⟨s, run, found⟩ := Option.map_eq_some_iff.1 run
  rw [Prod.mk.injEq] at found
  obtain ⟨trace, reach⟩ := Machine.Reach.init.exec run
  exact ⟨trace, s, reach, found.1, found.2, noOrphan_of_keeps reach⟩

/-- A timer of half a second registered in a second that is swept already, and
a period of one and a half seconds that has fired once. -/
theorem orphans_run :
    ∃ trace s, (machine 10 utcToday).Reach trace s ∧
      s.callOutTbl.get (.int 10) 1 2 = some ⟨1, "game", none, none⟩ ∧
      s.callOutTbl.get (.float (25 / 2)) 1 1 =
        some ⟨1, "game", some (.float (3 / 2)), some .normal⟩ ∧
      s.lastTime = 11 ∧ s.first = false ∧ ¬ s.NoOrphan := by
  have run : ((machine 10 utcToday).exec ⟨∅, 10, true, 10⟩
      [.tick 10, .callMulti 1 "game" 1 (.float (3 / 2)) 10,
        .callOnce 1 "game" 2 (.float (1 / 2)) 10, .tick 11]).map
        (fun s => (s.callOutTbl.get (.int 10) 1 2, s.callOutTbl.get (.float (25 / 2)) 1 1,
          s.lastTime, s.first)) =
      some (some ⟨1, "game", none, none⟩,
        some ⟨1, "game", some (.float (3 / 2)), some .normal⟩, 11, false) := by
    decide +kernel
  obtain ⟨s, run, found⟩ := Option.map_eq_some_iff.1 run
  simp only [Prod.mk.injEq] at found
  obtain ⟨trace, reach⟩ := Machine.Reach.init.exec run
  refine ⟨trace, s, reach, found.1, found.2.1, found.2.2.1, found.2.2.2, ?_⟩
  intro noOrphan
  obtain ⟨n, hn, visit⟩ := noOrphan (.int 10) 1 2 _ found.1
  cases hn
  rw [Stimer.ToVisit, found.2.2.2, found.2.2.1] at visit
  simp at visit

end Qiuqiu.Timer
