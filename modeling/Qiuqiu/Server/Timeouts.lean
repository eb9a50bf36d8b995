import Qiuqiu.Base.Machine
import Qiuqiu.Server.TimerWheel

/-!
The timer thread of skynet with the threads that ask for a time-out
(skynet-src/skynet_timer.c). `skynet_updatetime` makes a tick for every centisecond that has
gone by. A tick holds the lock of the wheel except while it pushes the messages of a list,
and whenever the lock is free other threads add nodes.
-/
namespace Qiuqiu.Server.Timeouts
open TimerWheel

/-- Where the timer thread stands in `timer_update`. -/
inductive Thread where
  | rest
  | executesBefore
  | dispatchesBefore (batch : List Node)
  | shifts
  | executesAfter
  | dispatchesAfter (batch : List Node)
  deriving DecidableEq

namespace Thread

def locked : Thread → Bool
  | .executesBefore | .shifts | .executesAfter => true
  | _ => false

/-- The nodes it has taken out of the wheel. -/
def batch : Thread → List Node
  | .dispatchesBefore batch | .dispatchesAfter batch => batch
  | _ => []

/-- A tick that has begun and has not moved the time. -/
def owes : Thread → Nat
  | .executesBefore | .dispatchesBefore _ | .shifts => 1
  | _ => 0

end Thread

/-- `left` counts the rounds the loop of `skynet_updatetime` still has to begin. -/
structure State where
  timer : Timer
  current : UInt64
  currentPoint : UInt64
  left : Nat
  thread : Thread

inductive Event where
  | timeout (handle : UInt32) (time session : Int32)
  | updatetime (cp : UInt64)
  | turn
  deriving DecidableEq

inductive Output where
  | quiet
  | added
  | shifted
  | pushed (message : TimerEvent)
  deriving DecidableEq

namespace State
variable (s : State)

/-- `skynet_timeout`, by any thread. -/
def timeout (handle : UInt32) (time session : Int32) : Option (State × Output) :=
  if time ≤ 0 then some (s, .pushed ⟨handle, session⟩)
  else if s.thread.locked then none
  else some ({ s with timer := timerAdd s.timer ⟨handle, session⟩ time }, .added)

/-- `skynet_updatetime` up to its loop. -/
def updatetime (cp : UInt64) : Option (State × Output) :=
  if s.thread = .rest ∧ s.left = 0 then
    if cp < s.currentPoint then some ({ s with currentPoint := cp }, .quiet)
    else if cp ≠ s.currentPoint then
      let diff := (cp - s.currentPoint).toUInt32
      some ({ s with
        currentPoint := cp
        current := s.current + diff.toUInt64
        left := diff.toNat }, .quiet)
    else some (s, .quiet)
  else none

/-- A test of the loop of `timer_execute`. -/
def execute (dispatches : List Node → Thread) (ends : Thread) : State :=
  match s.timer.lists (nearIdx s.timer) with
  | [] => { s with thread := ends }
  | node :: nodes =>
      { s with
        timer := linkClear s.timer (nearIdx s.timer)
        thread := dispatches (node :: nodes) }

/-- The timer thread goes on in `timer_update`. -/
def turn : Thread → Option (State × Output)
  | .rest =>
      if 0 < s.left then some ({ s with left := s.left - 1, thread := .executesBefore }, .quiet)
      else none
  | .executesBefore => some (s.execute .dispatchesBefore .shifts, .quiet)
  | .dispatchesBefore [] => some ({ s with thread := .executesBefore }, .quiet)
  | .dispatchesBefore (node :: batch) =>
      some ({ s with thread := .dispatchesBefore batch }, .pushed node.event)
  | .shifts =>
      some ({ s with timer := timerShift s.timer, thread := .executesAfter }, .shifted)
  | .executesAfter => some (s.execute .dispatchesAfter .rest, .quiet)
  | .dispatchesAfter [] => some ({ s with thread := .executesAfter }, .quiet)
  | .dispatchesAfter (node :: batch) =>
      some ({ s with thread := .dispatchesAfter batch }, .pushed node.event)

def step : Event → Option (State × Output)
  | .timeout handle time session => s.timeout handle time session
  | .updatetime cp => s.updatetime cp
  | .turn => s.turn s.thread

end State

/-- `skynet_timer_init`, with the centiseconds of the system time and the monotonic clock. -/
def machine (current point : UInt64) : Machine State Event Output where
  init := ⟨⟨fun _ => [], 0⟩, current, point, 0, .rest⟩
  step := State.step

/-- The ticks of a run, the events asked for with the tick they are due at, and the events
the timer thread has pushed with the tick it pushed them at. -/
structure Log where
  tick : Nat
  asked : List (Nat × TimerEvent)
  fired : List (Nat × TimerEvent)
  deriving DecidableEq

def Log.note (log : Log) : Event × Output → Log
  | (.timeout handle time session, .added) =>
      { log with asked := log.asked ++ [(log.tick + time.toNatClampNeg, ⟨handle, session⟩)] }
  | (.turn, .pushed message) => { log with fired := log.fired ++ [(log.tick, message)] }
  | (.turn, .shifted) => { log with tick := log.tick + 1 }
  | _ => log

def Log.of (trace : List (Event × Output)) : Log := trace.foldl Log.note ⟨0, [], []⟩

def atTick (n : Nat) (events : List (Nat × TimerEvent)) : List (Nat × TimerEvent) :=
  events.filter fun x => x.1 = n

/-- Every event is pushed at the tick it is due at, once and in the order of asking, and
`skynet_now` counts the ticks with those that are still owed. -/
structure Punctual (current : UInt64) (log : Log) (s : State) : Prop where
  past : ∀ n < log.tick, atTick n log.fired = atTick n log.asked
  present : atTick log.tick log.fired <+: atTick log.tick log.asked
  settled : s.thread = .rest → atTick log.tick log.fired = atTick log.tick log.asked
  future : ∀ x ∈ log.fired, x.1 ≤ log.tick
  now : s.current = current + UInt64.ofNat (log.tick + s.thread.owes + s.left)
  time : s.timer.time = UInt32.ofNat log.tick

/-- The wheel and the nodes taken out of it are the events asked for and not yet pushed. -/
structure Inv (current : UInt64) (log : Log) (s : State) (batch pending : List (Nat × TimerEvent)) :
    Prop where
  taken : s.thread.batch = batch.map toNode
  due : ∀ x ∈ batch, x.1 = log.tick
  holds : Holds s.timer log.tick pending
  later : s.thread ≠ .executesAfter → ∀ x ∈ pending, log.tick < x.1
  owed : ∀ n, atTick n log.asked = atTick n log.fired ++ atTick n (batch ++ pending)
  future : ∀ x ∈ log.fired, x.1 ≤ log.tick
  now : s.current = current + UInt64.ofNat (log.tick + s.thread.owes + s.left)

variable {current : UInt64} {log : Log} {s s' : State} {o : Output}
  {batch pending : List (Nat × TimerEvent)} {x : Nat × TimerEvent} {n : Nat}

theorem mem_atTick {events : List (Nat × TimerEvent)} :
    x ∈ atTick n events ↔ x ∈ events ∧ x.1 = n := by
  simp [atTick]

theorem atTick_append (events more : List (Nat × TimerEvent)) :
    atTick n (events ++ more) = atTick n events ++ atTick n more := List.filter_append ..

theorem atTick_of_other (events : List (Nat × TimerEvent)) (other : ∀ x ∈ events, x.1 ≠ n) :
    atTick n events = [] := by
  rw [atTick, List.filter_eq_nil_iff]
  intro x mem
  simpa using other x mem

/-- What is due at a tick and what is not, tick by tick. -/
theorem atTick_split (tick : Nat) (events : List (Nat × TimerEvent)) :
    atTick n (atTick tick events ++ events.filter fun x => ¬ x.1 = tick) = atTick n events := by
  rw [atTick_append]
  by_cases here : n = tick
  · subst here
    rw [atTick_of_other (events.filter _) (by simp), List.append_nil, atTick, atTick,
      List.filter_filter]
    simp
  · rw [atTick_of_other (atTick tick events), List.nil_append, atTick, atTick,
      List.filter_filter]
    · apply List.filter_congr
      intro x _
      by_cases due : x.1 = n
      · simp [due, here]
      · simp [due]
    · intro x mem due
      exact here (due.symm.trans (mem_atTick.mp mem).2)

namespace Inv

theorem punctual (inv : Inv current log s batch pending) : Punctual current log s := by
  have none : s.thread = .rest → atTick log.tick (batch ++ pending) = [] := by
    intro rest
    have empty : batch = [] := by
      have taken := inv.taken
      rw [rest] at taken
      exact List.map_eq_nil_iff.mp taken.symm
    apply atTick_of_other
    intro x mem due
    rw [empty, List.nil_append] at mem
    have later := inv.later (by rw [rest]; exact fun h => by cases h) x mem
    omega
  refine ⟨?_, ?_, ?_, inv.future, inv.now, inv.holds.time⟩
  · intro n past
    rw [inv.owed n, atTick_of_other (batch ++ pending), List.append_nil]
    intro x mem due
    cases List.mem_append.mp mem with
    | inl out =>
        have := inv.due x out
        omega
    | inr waits =>
        have := (inv.holds.within x waits).1
        omega
  · rw [inv.owed]
    exact List.prefix_append _ _
  · intro rest
    rw [inv.owed, none rest, List.append_nil]

theorem timeout (inv : Inv current log s batch pending) {handle : UInt32} {time session : Int32}
    (step : s.timeout handle time session = some (s', o)) :
    ∃ pending', Inv current (log.note (.timeout handle time session, o)) s' batch pending' := by
  rw [State.timeout] at step
  split at step
  · cases step
    exact ⟨pending, inv⟩
  · rename_i late
    have pos : 0 < time := Int32.not_le.mp late
    split at step
    · cases step
    · cases step
      have delay : 0 < time.toNatClampNeg := by
        rw [Int32.lt_iff_toInt_lt] at pos
        exact Int.lt_toNat.mpr pos
      refine ⟨_, inv.taken, inv.due, inv.holds.add pos, ?_, ?_, inv.future, inv.now⟩
      · intro other x mem
        cases List.mem_append.mp mem with
        | inl old => exact inv.later other x old
        | inr new =>
            cases List.mem_singleton.mp new
            change log.tick < log.tick + _
            omega
      · intro n
        change atTick n (log.asked ++ _) = _
        rw [atTick_append, inv.owed n, ← List.append_assoc batch, atTick_append (batch ++ pending),
          List.append_assoc]
        rfl

theorem updatetime (inv : Inv current log s batch pending) {cp : UInt64}
    (step : s.updatetime cp = some (s', o)) :
    Inv current (log.note (.updatetime cp, o)) s' batch pending := by
  rw [State.updatetime] at step
  split at step
  · rename_i idle
    obtain ⟨rest, none⟩ := idle
    split at step
    · cases step
      exact ⟨inv.taken, inv.due, inv.holds, inv.later, inv.owed, inv.future, inv.now⟩
    · split at step
      · cases step
        refine ⟨inv.taken, inv.due, inv.holds, inv.later, inv.owed, inv.future, ?_⟩
        change s.current + _ = _
        rw [inv.now, none, Nat.add_zero]
        dsimp only [Log.note]
        rw [UInt64.ofNat_add _ (UInt32.toNat _), ← UInt64.add_assoc, UInt64.ofNat_uInt32ToNat]
      · cases step
        exact inv
  · cases step

theorem execute (inv : Inv current log s batch pending) {dispatches : List Node → Thread}
    {ends : Thread} (none : batch = []) (takes : ∀ nodes, (dispatches nodes).batch = nodes)
    (begun : ∀ nodes, (dispatches nodes).owes = s.thread.owes)
    (free : ends.batch = []) (ended : ends.owes = s.thread.owes) :
    ∃ batch' pending', Inv current log (s.execute dispatches ends) batch' pending' := by
  subst none
  obtain ⟨here, cleared⟩ := inv.holds.clear
  have later : ∀ x ∈ pending.filter fun x => ¬ x.1 = log.tick, log.tick < x.1 := by
    intro x mem
    rw [List.mem_filter, decide_eq_true_iff] at mem
    have := (inv.holds.within x mem.1).1
    have := mem.2
    omega
  have owed : ∀ n, atTick n log.asked = atTick n log.fired ++
      atTick n (atTick log.tick pending ++ pending.filter fun x => ¬ x.1 = log.tick) := by
    intro n
    rw [atTick_split, inv.owed n, List.nil_append]
  rw [State.execute]
  cases nodes : s.timer.lists (nearIdx s.timer) with
  | nil =>
      -- nothing is due, so that all that waits is later
      have nothing : atTick log.tick pending = [] := List.map_eq_nil_iff.mp (here.symm.trans nodes)
      refine ⟨[], pending, free, inv.due, inv.holds, ?_, inv.owed, inv.future, ?_⟩
      · intro _ x mem
        refine later x (List.mem_filter.mpr ⟨mem, ?_⟩)
        rw [decide_eq_true_iff]
        intro due
        have here := mem_atTick.mpr ⟨mem, due⟩
        rw [nothing] at here
        cases here
      · dsimp only
        rw [ended]
        exact inv.now
  | cons node nodes' =>
      refine ⟨_, _, ?_, ?_, cleared, fun _ => later, owed, inv.future, ?_⟩
      · dsimp only
        rw [takes, ← nodes, here]
        rfl
      · intro x mem
        exact (mem_atTick.mp mem).2
      · dsimp only
        rw [begun]
        exact inv.now

/-- The thread changes its place and nothing else. -/
theorem become (inv : Inv current log s batch pending) {thread : Thread}
    (taken : thread.batch = s.thread.batch) (owes : thread.owes = s.thread.owes)
    (strict : s.thread ≠ .executesAfter) :
    Inv current log { s with thread := thread } batch pending := by
  refine ⟨taken.trans inv.taken, inv.due, inv.holds, fun _ => inv.later strict, inv.owed,
    inv.future, ?_⟩
  dsimp only
  rw [owes]
  exact inv.now

/-- A message is pushed. -/
theorem push (inv : Inv current log s batch pending) (thread : Thread) {node : Node}
    (taken : s.thread.batch = node :: thread.batch) (owes : thread.owes = s.thread.owes)
    (strict : s.thread ≠ .executesAfter) :
    ∃ batch', Inv current { log with fired := log.fired ++ [(log.tick, node.event)] }
      { s with thread := thread } batch' pending := by
  have whole := taken.symm.trans inv.taken
  cases batch with
  | nil => cases whole
  | cons x batch =>
      rw [List.map_cons, List.cons.injEq] at whole
      obtain ⟨rfl, rest⟩ := whole
      have due := inv.due x List.mem_cons_self
      refine ⟨batch, rest, ?_, inv.holds, fun _ => inv.later strict, ?_, ?_, ?_⟩
      · intro y mem
        exact inv.due y (List.mem_cons_of_mem x mem)
      · intro n
        have same : (log.tick, (toNode x).event) = x := Prod.ext due.symm rfl
        rw [inv.owed n, atTick_append log.fired, List.append_assoc, same]
        exact congrArg _ (atTick_append [x] (batch ++ pending))
      · intro y mem
        cases List.mem_append.mp mem with
        | inl old => exact inv.future y old
        | inr new =>
            cases List.mem_singleton.mp new
            exact Nat.le_refl _
      · dsimp only
        rw [owes]
        exact inv.now

/-- The time moves on. -/
theorem shift (inv : Inv current log s batch pending) (at_ : s.thread = .shifts) :
    Inv current { log with tick := log.tick + 1 }
      { s with timer := timerShift s.timer, thread := .executesAfter } batch pending := by
  have none : batch = [] := by
    have taken := inv.taken
    rw [at_] at taken
    exact List.map_eq_nil_iff.mp taken.symm
  subst none
  have later := inv.later (by rw [at_]; exact fun h => by cases h)
  refine ⟨rfl, List.forall_mem_nil _, inv.holds.shift later, fun other => absurd rfl other,
    inv.owed, ?_, ?_⟩
  · intro x mem
    exact Nat.le_succ_of_le (inv.future x mem)
  · have now := inv.now
    rw [at_] at now
    exact now

theorem turn (inv : Inv current log s batch pending) (step : s.turn s.thread = some (s', o)) :
    ∃ batch' pending', Inv current (log.note (.turn, o)) s' batch' pending' := by
  have empty : s.thread.batch = [] → batch = [] := by
    intro none
    exact List.map_eq_nil_iff.mp (inv.taken.symm.trans none)
  cases at_ : s.thread with
  | rest =>
      rw [at_, State.turn] at step
      split at step
      · rename_i left
        cases step
        refine ⟨batch, pending, ?_⟩
        have strict : s.thread ≠ .executesAfter := by rw [at_]; exact fun h => by cases h
        have taken := inv.taken
        rw [at_] at taken
        refine ⟨taken, inv.due, inv.holds, fun _ => inv.later strict, inv.owed, inv.future, ?_⟩
        have now := inv.now
        rw [at_] at now
        have count : log.tick + Thread.executesBefore.owes + (s.left - 1) =
            log.tick + Thread.rest.owes + s.left := by
          simp only [Thread.owes]
          omega
        dsimp only [Log.note]
        rw [count]
        exact now
      · cases step
  | executesBefore =>
      rw [at_] at step
      cases step
      exact inv.execute (empty (by rw [at_]; rfl)) (fun _ => rfl) (fun _ => by rw [at_]; rfl) rfl
        (by rw [at_]; rfl)
  | dispatchesBefore nodes =>
      rw [at_] at step
      have strict : s.thread ≠ .executesAfter := by rw [at_]; exact fun h => by cases h
      cases nodes with
      | nil =>
          cases step
          exact ⟨batch, pending, inv.become (by rw [at_]; rfl) (by rw [at_]; rfl) strict⟩
      | cons node nodes =>
          cases step
          obtain ⟨batch', inv'⟩ := inv.push (.dispatchesBefore nodes) (by rw [at_]; rfl)
            (by rw [at_]; rfl) strict
          exact ⟨batch', pending, inv'⟩
  | shifts =>
      rw [at_] at step
      cases step
      exact ⟨batch, pending, inv.shift at_⟩
  | executesAfter =>
      rw [at_] at step
      cases step
      exact inv.execute (empty (by rw [at_]; rfl)) (fun _ => rfl) (fun _ => by rw [at_]; rfl) rfl
        (by rw [at_]; rfl)
  | dispatchesAfter nodes =>
      rw [at_] at step
      have strict : s.thread ≠ .executesAfter := by rw [at_]; exact fun h => by cases h
      cases nodes with
      | nil =>
          cases step
          exact ⟨batch, pending, inv.become (by rw [at_]; rfl) (by rw [at_]; rfl) strict⟩
      | cons node nodes =>
          cases step
          obtain ⟨batch', inv'⟩ := inv.push (.dispatchesAfter nodes) (by rw [at_]; rfl)
            (by rw [at_]; rfl) strict
          exact ⟨batch', pending, inv'⟩

end Inv

theorem Log.of_concat (trace : List (Event × Output)) (x : Event × Output) :
    Log.of (trace ++ [x]) = (Log.of trace).note x := by
  rw [Log.of, List.foldl_append]
  rfl

theorem inv_of_reach {point : UInt64} {trace : List (Event × Output)}
    (reach : (machine current point).Reach trace s) :
    ∃ batch pending, Inv current (Log.of trace) s batch pending := by
  refine reach.invariant
    (fun trace s => ∃ batch pending, Inv current (Log.of trace) s batch pending)
    ?_ ?_
  · refine ⟨[], [], rfl, ?_, ⟨rfl, ?_, fun _ => [], ?_, rfl⟩, ?_, fun _ => rfl, ?_, ?_⟩
    · exact List.forall_mem_nil _
    · exact List.forall_mem_nil _
    · intro k
      rfl
    · intro _
      exact List.forall_mem_nil _
    · exact List.forall_mem_nil _
    · exact (UInt64.add_zero current).symm
  · intro trace s e s' o inv step
    obtain ⟨batch, pending, inv⟩ := inv
    rw [Log.of_concat]
    cases e with
    | timeout handle time session => exact ⟨batch, inv.timeout step⟩
    | updatetime cp => exact ⟨batch, pending, inv.updatetime step⟩
    | turn => exact inv.turn step

/-- Whenever threads ask and whatever the clock shows: a time-out of `time` centiseconds is
answered once, `time` ticks later, behind the earlier ones of its tick. -/
theorem timeouts_punctual {point : UInt64} {trace : List (Event × Output)}
    (reach : (machine current point).Reach trace s) : Punctual current (Log.of trace) s := by
  obtain ⟨_, _, inv⟩ := inv_of_reach reach
  exact inv.punctual

/-- Three time-outs, and after two ticks one more; those at ticks 257 and 258 come down from a
level of the wheel, and the one at tick 400 stays there. -/
def fourTimeouts : List Event :=
  [.timeout 9 2 1, .timeout 9 258 2, .timeout 8 400 3, .updatetime 2] ++
    List.replicate 11 .turn ++ [.timeout 7 255 4, .updatetime 258] ++ List.replicate 1028 .turn

theorem timeouts_punctual_cascade : ∃ trace s, (machine 0 0).Reach trace s ∧
    Log.of trace = ⟨258, [(2, ⟨9, 1⟩), (258, ⟨9, 2⟩), (400, ⟨8, 3⟩), (257, ⟨7, 4⟩)],
      [(2, ⟨9, 1⟩), (257, ⟨7, 4⟩), (258, ⟨9, 2⟩)]⟩ ∧ Punctual 0 (Log.of trace) s := by
  have ran : ((machine 0 0).run (machine 0 0).init fourTimeouts).map (fun x => Log.of x.1) =
      some ⟨258, [(2, ⟨9, 1⟩), (258, ⟨9, 2⟩), (400, ⟨8, 3⟩), (257, ⟨7, 4⟩)],
        [(2, ⟨9, 1⟩), (257, ⟨7, 4⟩), (258, ⟨9, 2⟩)]⟩ := by decide +kernel
  obtain ⟨⟨trace, s⟩, ran, log⟩ := Option.map_eq_some_iff.mp ran
  exact ⟨trace, s, Machine.reach_run ran, log, timeouts_punctual (Machine.reach_run ran)⟩

end Qiuqiu.Server.Timeouts
