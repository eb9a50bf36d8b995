import Qiuqiu.Base.FifoLock
import Qiuqiu.Queue.Model

/-!
The queue object is a first-in first-out lock. The `h`/`t` table holds exactly
the line that `table.insert` and `table.remove` would, so the two versions
answer every event alike; and the version with a plain line follows the
abstract lock step by step.
-/
namespace Qiuqiu.Queue
variable {Co Urs Val : Type}

/-- The slots from `h` on hold `line`, every other slot is empty. -/
structure Holds (q : ThreadQueue Co) (line : List Co) : Prop where
  last : q.t = q.h + line.length - 1
  slots : ∀ k, q.slots k = if q.h ≤ k then (line)[(k - q.h).toNat]? else none

namespace Holds
variable {q : ThreadQueue Co} {line : List Co}

theorem empty : Holds (ThreadQueue.empty : ThreadQueue Co) [] where
  last := rfl
  slots := by
    intro k
    simp [ThreadQueue.empty]

theorem length (h : Holds q line) : q.length = line.length := by
  rw [ThreadQueue.length, h.last]
  omega

theorem push (h : Holds q line) (thread : Co) : Holds (q.push thread) (line ++ [thread]) where
  last := by
    simp only [ThreadQueue.push, h.last, List.length_append, List.length_singleton]
    omega
  slots := by
    intro k
    simp only [ThreadQueue.push, Function.update_apply, h.slots, h.last]
    by_cases new : k = q.h + line.length - 1 + 1
    · have at_end : (k - q.h).toNat = line.length := by omega
      rw [if_pos new, if_pos (by omega), at_end]
      simp
    · rw [if_neg new]
      by_cases le : q.h ≤ k
      · rw [if_pos le, if_pos le]
        by_cases inside : (k - q.h).toNat < line.length
        · rw [List.getElem?_append_left inside]
        · rw [List.getElem?_eq_none (by omega), List.getElem?_eq_none]
          simp only [List.length_append, List.length_singleton]
          omega
      · rw [if_neg le, if_neg le]

theorem head (h : Holds q line) : q.slots q.h = line.head? := by
  rw [h.slots, if_pos (Int.le_refl _), List.head?_eq_getElem?]
  simp

theorem pop (h : Holds q line) :
    q.pop.1 = line.head? ∧ Holds q.pop.2 line.tail := by
  refine ⟨h.head, ?_⟩
  by_cases empty : q.h + 1 > q.t
  · have short : line.length ≤ 1 := by
      have := h.last
      omega
    have rest : line.tail = [] := by
      rw [← List.length_eq_zero_iff, List.length_tail]
      omega
    rw [rest]
    refine ⟨by simp [ThreadQueue.pop, empty], ?_⟩
    intro k
    simp only [ThreadQueue.pop, if_pos empty, Function.update_apply, h.slots]
    by_cases first : k = q.h
    · simp [first]
    · rw [if_neg first]
      by_cases le : q.h ≤ k
      · rw [if_pos le, List.getElem?_eq_none (by omega)]
        simp
      · simp [le]
  · refine ⟨?_, ?_⟩
    · have := h.last
      simp only [ThreadQueue.pop, if_neg empty, List.length_tail]
      omega
    · intro k
      simp only [ThreadQueue.pop, if_neg empty, Function.update_apply, h.slots]
      by_cases first : k = q.h
      · rw [if_pos first, if_neg (by omega)]
      · rw [if_neg first]
        by_cases le : q.h ≤ k
        · have shift : (k - q.h).toNat = (k - (q.h + 1)).toNat + 1 := by omega
          rw [if_pos le, if_pos (by omega), shift, List.getElem?_tail]
        · rw [if_neg le, if_neg (by omega)]

end Holds

section Exchange
variable {L M : Line Co}

/-- The same state over another line. -/
def State.withQueue (s : State Co Urs L) (q : M.Q) : State Co Urs M where
  currentThread := s.currentThread
  ref := s.ref
  threadQueue := q
  ownerUrs := s.ownerUrs
  co2urs := s.co2urs
  bodies := s.bodies
  sleepSession := s.sleepSession
  wakeupQueue := s.wakeupQueue

/-- Two lines that cannot be told apart. -/
structure LineSim (L M : Line Co) (R : L.Q → M.Q → Prop) : Prop where
  empty : R L.empty M.empty
  push : ∀ q r thread, R q r → R (L.push q thread) (M.push r thread)
  pop : ∀ q r, R q r → (L.pop q).1 = (M.pop r).1 ∧ R (L.pop q).2 (M.pop r).2
  length : ∀ q r, R q r → L.length q = M.length r

theorem ring_table : LineSim (ring Co) (table Co) Holds where
  empty := .empty
  push := fun _ _ thread h => h.push thread
  pop := fun _ _ h => h.pop
  length := fun _ _ h => h.length

variable {R : L.Q → M.Q → Prop}

/-- The states of the two versions agree but for the line. -/
def Same (R : L.Q → M.Q → Prop) (s : State Co Urs L) (t : State Co Urs M) : Prop :=
  ∃ q, R s.threadQueue q ∧ t = s.withQueue q

theorem handOver_same (sim : LineSim L M R) {s : State Co Urs L} {q : M.Q}
    (h : R s.threadQueue q) : Same R s.handOver (s.withQueue q).handOver := by
  have pop := sim.pop s.threadQueue q h
  have first := pop.1
  refine ⟨(M.pop q).2, ?_, ?_⟩
  · cases hL : (L.pop s.threadQueue).1 with
    | none => simpa only [State.handOver, hL] using pop.2
    | some next => simpa only [State.handOver, State.wakeup, hL] using pop.2
  · cases hL : (L.pop s.threadQueue).1 with
    | none =>
        rw [hL] at first
        simp only [State.handOver, State.withQueue, hL, ← first]
    | some next =>
        rw [hL] at first
        simp only [State.handOver, State.withQueue, State.wakeup, hL, ← first]
        rfl

variable [DecidableEq Co]

theorem step_same (sim : LineSim L M R) (agent : Bool) (s : State Co Urs L) (t : State Co Urs M)
    (e : Event Co Urs Val) (same : Same R s t) :
    Machine.Agree (Same R) (step agent s e) (step agent t e) := by
  obtain ⟨q, h, rfl⟩ := same
  cases e with
  | call thread =>
      by_cases sleeps : s.sleepSession thread = true
      · simp [step, State.withQueue, sleeps, Machine.Agree]
      · by_cases other : (s.currentThread.isSome && s.currentThread != some thread) = true
        · simp only [step, State.call, State.withQueue, sleeps, other]
          exact ⟨rfl, M.push q thread, sim.push _ _ thread h, rfl⟩
        · simp only [step, State.call, State.withQueue, sleeps, other]
          exact ⟨rfl, q, h, rfl⟩
  | resume thread =>
      by_cases woken : s.sleepSession thread = true ∧ thread ∈ s.wakeupQueue
      · by_cases idle : s.ref = 0
        · simp only [step, State.resume, State.awaken, State.withQueue, woken.1, woken.2, idle]
          exact ⟨rfl, q, h, rfl⟩
        · simp only [step, State.resume, State.awaken, State.withQueue, woken.1, woken.2, idle]
          exact ⟨rfl, q, h, rfl⟩
      · simp [step, State.withQueue, woken, Machine.Agree]
  | finish thread ok result =>
      by_cases running : s.sleepSession thread = false ∧ 0 < s.bodies thread
      · have hs : step agent s (.finish thread ok result : Event Co Urs Val) =
            some (s.xpcallRet agent thread ok result) := if_pos running
        have ht : step agent (s.withQueue q) (.finish thread ok result : Event Co Urs Val) =
            some ((s.withQueue q).xpcallRet agent thread ok result) := if_pos running
        rw [hs, ht]
        refine ⟨rfl, ?_⟩
        by_cases last : (s.leave thread).ref = 0
        · have hand := handOver_same sim (show R (s.leave thread).threadQueue q from h)
          obtain ⟨r, hr, hand⟩ := hand
          refine ⟨r, ?_, ?_⟩
          · simp only [if_pos last]
            exact hr
          · have last' : ((s.withQueue q).leave thread).ref = 0 := last
            have hand' : ((s.withQueue q).leave thread).handOver = _ := hand
            simp only [if_pos last, if_pos last', hand']
            rfl
        · have last' : ¬ ((s.withQueue q).leave thread).ref = 0 := last
          refine ⟨q, ?_, ?_⟩
          · simp only [if_neg last]
            exact h
          · simp only [if_neg last, if_neg last']
            rfl
      · simp [step, State.withQueue, running, Machine.Agree]
  | setOwnerUrs urs =>
      cases agent with
      | true => exact ⟨rfl, q, h, rfl⟩
      | false => trivial

theorem bisimulation (sim : LineSim L M R) (agent : Bool) :
    Machine.Bisimulation (machine Co Urs Val L agent) (machine Co Urs Val M agent) (Same R) where
  start := ⟨M.empty, sim.empty, rfl⟩
  keep := step_same sim agent

end Exchange

section Lock

theorem handOver_nil {s : State Co Urs (table Co)} (h : s.threadQueue = ([] : List Co)) :
    s.handOver = { s with currentThread := none, threadQueue := ([] : List Co) } := by
  simp only [State.handOver, h]
  rfl

theorem handOver_cons {s : State Co Urs (table Co)} {next : Co} {rest : List Co}
    (h : s.threadQueue = next :: rest)
    (sleeps : s.sleepSession next = true) :
    s.handOver = { s with
      currentThread := some next
      threadQueue := rest
      wakeupQueue := s.wakeupQueue ++ [next] } := by
  have pop : (table Co).pop s.threadQueue = (some next, rest) := by
    rw [h]
    rfl
  simp only [State.handOver, State.wakeup, pop, if_pos sleeps]

variable [DecidableEq Co]

/-- The state follows the lock: the current thread is its holder, `ref` its
depth, and the sleeping coroutines are those it makes wait. -/
structure Follows (s : State Co Urs (table Co)) (l : FifoLock Co) : Prop where
  holder : s.currentThread = l.holder
  depth : s.ref = l.depth
  line : s.threadQueue = l.line
  bodies : ∀ c, s.bodies c = if l.holder = some c then l.depth else 0
  sleeps : ∀ c, s.sleepSession c = true ↔ c ∈ l.waiting
  woken : s.wakeupQueue = l.handed

def label : Event Co Urs Val × Answer Val → Option (FifoLock.Event Co × FifoLock.Answer)
  | (.call thread, .enters) => some (.call thread, .enters)
  | (.call thread, .waits) => some (.call thread, .waits)
  | (.resume thread, .enters) => some (.resume thread, .enters)
  | (.finish thread _ _, .returns _) => some (.leave thread, .left)
  | (.finish thread _ _, .raises _) => some (.leave thread, .left)
  | _ => none

variable {s s' : State Co Urs (table Co)} {l : FifoLock Co} {agent : Bool} {thread : Co}

theorem Follows.enter (held : l.holder = none ∨ l.holder = some thread)
    (depth : s.ref = l.depth) (line : s.threadQueue = l.line)
    (bodies : ∀ c, s.bodies c = if l.holder = some c then l.depth else 0)
    (sleeps : ∀ c, s.sleepSession c = true ↔ c ∈ l.line) (woken : s.wakeupQueue = []) :
    Follows (s.enter agent thread) (l.hold thread (l.depth + 1) held) where
  holder := rfl
  depth := by
    change s.ref + 1 = ((l.depth + 1 : Nat) : Int)
    rw [depth]
    rfl
  line := line
  bodies := by
    intro c
    change Function.update s.bodies thread (s.bodies thread + 1) c =
      if some thread = some c then l.depth + 1 else 0
    rw [Function.update_apply]
    by_cases own : c = thread
    · rw [if_pos own, if_pos (congrArg some own.symm), bodies]
      cases held with
      | inl free => simp [free, (l.idle free).1]
      | inr own => rw [if_pos own]
    · rw [if_neg own, if_neg (fun h => own (Option.some.inj h).symm), bodies]
      cases held with
      | inl free => simp [free]
      | inr held => rw [held, if_neg (fun h => own (Option.some.inj h).symm)]
  sleeps := by
    intro c
    change s.sleepSession c = true ↔ _
    rw [sleeps]
    simp [FifoLock.waiting, FifoLock.handed, FifoLock.hold]
  woken := by
    change s.wakeupQueue = _
    simp [woken, FifoLock.handed, FifoLock.hold]

theorem Follows.wait (f : Follows s l) (held : l.holder ≠ none)
    (other : l.holder ≠ some thread) (fresh : thread ∉ l.line) :
    Follows ({ s with threadQueue := (table Co).push s.threadQueue thread }.wait thread)
      (l.join thread held other fresh) where
  holder := f.holder
  depth := f.depth
  line := congrArg (fun q => q ++ [thread]) f.line
  bodies := f.bodies
  sleeps := by
    intro c
    change Function.update s.sleepSession thread true c = true ↔
      c ∈ l.handed ++ (l.line ++ [thread])
    rw [← List.append_assoc, List.mem_append, List.mem_singleton, Function.update_apply]
    by_cases own : c = thread
    · simp [own]
    · rw [if_neg own, f.sleeps]
      exact ⟨Or.inl, fun h => h.resolve_right own⟩
  woken := f.woken

theorem Follows.leave_bodies (f : Follows s l) (own : l.holder = some thread) (c : Co) :
    (s.leave thread).bodies c = if l.holder = some c then l.depth - 1 else 0 := by
  change Function.update s.bodies thread (s.bodies thread - 1) c = _
  rw [Function.update_apply]
  by_cases same : c = thread
  · rw [if_pos same, same, if_pos own, f.bodies, if_pos own]
  · have other : ¬ l.holder = some c := by
      rw [own]
      exact fun h => same (Option.some.inj h).symm
    rw [if_neg same, f.bodies, if_neg other, if_neg other]

theorem Follows.leaveInner (f : Follows s l) (own : l.holder = some thread)
    (inner : 1 < l.depth) :
    Follows ((s.leave thread).setCo2urs agent thread none)
      (l.hold thread (l.depth - 1) (.inr own)) where
  holder := f.holder.trans own
  depth := by
    change s.ref - 1 = ((l.depth - 1 : Nat) : Int)
    rw [f.depth]
    omega
  line := f.line
  bodies := by
    intro c
    rw [show (l.hold thread (l.depth - 1) (.inr own)).holder = l.holder from own.symm]
    exact f.leave_bodies own c
  sleeps := by
    intro c
    change s.sleepSession c = true ↔ _
    have running : l.depth ≠ 0 := by omega
    have inside : l.depth - 1 ≠ 0 := by omega
    rw [f.sleeps]
    simp [FifoLock.waiting, FifoLock.handed, FifoLock.hold, running, inside]
  woken := by
    change s.wakeupQueue = _
    have running : l.depth ≠ 0 := by omega
    have inside : l.depth - 1 ≠ 0 := by omega
    rw [f.woken]
    simp [FifoLock.handed, FifoLock.hold, running, inside]

theorem Follows.leaveLast (f : Follows s l) (own : l.holder = some thread)
    (last : l.depth = 1) :
    Follows ((s.leave thread).handOver.setCo2urs agent thread none) l.handOver := by
  have nobody : ∀ c, (s.leave thread).bodies c =
      if l.handOver.holder = some c then l.handOver.depth else 0 := by
    intro c
    rw [f.leave_bodies own, last, show l.handOver.depth = 0 from rfl, ite_self]
    simp
  have noneWoken : s.wakeupQueue = [] := by
    rw [f.woken]
    simp [FifoLock.handed, last]
  -- Whoever slept in line sleeps on: the head of the line is now the one handed the lock.
  have inLine : ∀ c, s.sleepSession c = true ↔ c ∈ l.handOver.waiting := by
    intro c
    rw [f.sleeps]
    cases hline : l.line <;>
      simp [FifoLock.waiting, FifoLock.handed, FifoLock.handOver, last, hline]
  have ref0 : (s.leave thread).ref = 0 := by
    change s.ref - 1 = 0
    rw [f.depth, last]
    rfl
  cases hline : l.line with
  | nil =>
      have line : (s.leave thread).threadQueue = ([] : List Co) := f.line.trans hline
      rw [handOver_nil line]
      exact {
        holder := by simp [FifoLock.handOver, hline, State.setCo2urs]
        depth := ref0
        line := (congrArg List.tail hline).symm
        bodies := nobody
        sleeps := inLine
        woken := by
          refine noneWoken.trans ?_
          simp [FifoLock.handed, FifoLock.handOver, hline] }
  | cons next rest =>
      have sleeps : (s.leave thread).sleepSession next = true :=
        (inLine next).mpr (by simp [FifoLock.waiting, FifoLock.handed, FifoLock.handOver, hline])
      have line : (s.leave thread).threadQueue = next :: rest := f.line.trans hline
      rw [handOver_cons line sleeps]
      exact {
        holder := by simp [FifoLock.handOver, hline, State.setCo2urs]
        depth := ref0
        line := (congrArg List.tail hline).symm
        bodies := nobody
        sleeps := inLine
        woken := by
          change s.wakeupQueue ++ [next] = _
          simp [FifoLock.handed, FifoLock.handOver, hline, noneWoken] }

/-- A coroutine with an open body holds the lock. -/
theorem Follows.own_of_body (f : Follows s l) (body : 0 < s.bodies thread) :
    l.holder = some thread ∧ 0 < l.depth := by
  rw [f.bodies] at body
  split at body
  · exact ⟨by assumption, body⟩
  · exact absurd body (Nat.lt_irrefl 0)

/-- A woken coroutine was handed the lock. -/
theorem Follows.own_of_woken (f : Follows s l) (woken : thread ∈ s.wakeupQueue) :
    l.holder = some thread ∧ l.depth = 0 := by
  rw [f.woken, FifoLock.handed] at woken
  split at woken
  · exact ⟨Option.mem_toList.mp woken, by assumption⟩
  · cases woken

def Matches (l : FifoLock Co) (e : Event Co Urs Val)
    (r : State Co Urs (table Co) × Answer Val) : Prop :=
  FifoLock.machine.Mirrors Follows l r.1 (label (e, r.2))

theorem call_matches (f : Follows s l) (awake : thread ∉ l.waiting) :
    Matches l (.call thread : Event Co Urs Val) (s.call agent thread) := by
  rw [FifoLock.waiting, List.mem_append, not_or] at awake
  cases holder : l.holder with
  | none =>
      have idle := l.idle holder
      have enters : (s.call agent thread : _ × Answer Val) = (s.enter agent thread, .enters) := by
        simp [State.call, f.holder, holder]
      have handed : l.handed = [] := by simp [FifoLock.handed, holder]
      have sleeps : ∀ c, s.sleepSession c = true ↔ c ∈ l.line := by
        simpa [FifoLock.waiting, handed] using f.sleeps
      have next : Follows (s.enter agent thread) (l.hold thread (l.depth + 1) (.inl holder)) :=
        .enter (.inl holder) f.depth f.line f.bodies sleeps (f.woken.trans handed)
      rw [enters]
      refine ⟨_, FifoLock.step_call_free holder, ?_⟩
      simpa only [idle.1] using next
  | some d =>
      by_cases own : d = thread
      · have holder : l.holder = some thread := by rw [holder, own]
        have enters : (s.call agent thread : _ × Answer Val) =
            (s.enter agent thread, .enters) := by
          simp [State.call, f.holder, holder]
        have running : l.depth ≠ 0 := by
          intro h
          exact awake.1 (by simp [FifoLock.handed, h, holder])
        have handed : l.handed = [] := by simp [FifoLock.handed, running]
        have sleeps : ∀ c, s.sleepSession c = true ↔ c ∈ l.line := by
          simpa [FifoLock.waiting, handed] using f.sleeps
        rw [enters]
        exact ⟨_, FifoLock.step_call_own holder running,
          .enter (.inr holder) f.depth f.line f.bodies sleeps (f.woken.trans handed)⟩
      · have held : l.holder ≠ none := by simp [holder]
        have other : l.holder ≠ some thread := by simpa [holder] using own
        have waits : (s.call agent thread : _ × Answer Val) =
            ({ s with threadQueue := (table Co).push s.threadQueue thread }.wait thread,
              .waits) := by
          simp [State.call, f.holder, holder, own]
        rw [waits]
        exact ⟨_, FifoLock.step_call_other held other awake.2, f.wait held other awake.2⟩

theorem resume_enters (f : Follows s l) (woken : thread ∈ s.wakeupQueue) :
    (s.resume agent thread : _ × Answer Val) =
      ((s.awaken thread).enter agent thread, .enters) := by
  have idle : s.ref = 0 := by
    rw [f.depth, (f.own_of_woken woken).2]
    rfl
  exact if_pos idle

theorem resume_matches (f : Follows s l) (woken : thread ∈ s.wakeupQueue) :
    Matches l (.resume thread : Event Co Urs Val) (s.resume agent thread) := by
  have own := f.own_of_woken woken
  have handed : l.handed = [thread] := by simp [FifoLock.handed, own.1, own.2]
  have notInLine : thread ∉ l.line := by
    have distinct := l.distinct
    rw [own.1, Option.toList_some, List.singleton_append, List.nodup_cons] at distinct
    exact distinct.1
  have sleeps : ∀ c, (s.awaken thread).sleepSession c = true ↔ c ∈ l.line := by
    intro c
    change Function.update s.sleepSession thread false c = true ↔ _
    rw [Function.update_apply]
    by_cases same : c = thread
    · simp [same, notInLine]
    · rw [if_neg same, f.sleeps, FifoLock.waiting, handed, List.mem_append, List.mem_singleton]
      exact ⟨fun h => h.resolve_left same, Or.inr⟩
  have noneWoken : (s.awaken thread).wakeupQueue = [] := by
    change s.wakeupQueue.erase thread = []
    rw [f.woken, handed]
    exact List.erase_cons_head thread []
  have next : Follows ((s.awaken thread).enter agent thread)
      (l.hold thread (l.depth + 1) (.inr own.1)) :=
    .enter (.inr own.1) f.depth f.line f.bodies sleeps noneWoken
  rw [resume_enters f woken]
  refine ⟨_, FifoLock.step_resume own.1 own.2, ?_⟩
  simpa only [own.2] using next

theorem finish_matches (f : Follows s l) (body : 0 < s.bodies thread) (ok : Bool)
    (result : Val) :
    Matches l (.finish thread ok result) (s.xpcallRet agent thread ok result) := by
  have own := f.own_of_body body
  have shape : ∀ next : State Co Urs (table Co),
      (∃ l', l.step (.leave thread) = some (l', .left) ∧ Follows next l') →
      Matches l (.finish thread ok result)
        (next, if ok then Answer.returns result else .raises result) := by
    intro next h
    cases ok with
    | true => exact h
    | false => exact h
  have ref : (s.leave thread).ref = (l.depth : Int) - 1 :=
    congrArg (fun r => r - 1) f.depth
  by_cases last : l.depth = 1
  · have zero : (s.leave thread).ref = 0 := by omega
    simp only [State.xpcallRet, if_pos zero]
    exact shape _ ⟨_, FifoLock.step_leave_last own.1 last, f.leaveLast own.1 last⟩
  · have inner : 1 < l.depth := by omega
    have nonzero : ¬ (s.leave thread).ref = 0 := by omega
    simp only [State.xpcallRet, if_neg nonzero]
    exact shape _ ⟨_, FifoLock.step_leave_inner own.1 inner, f.leaveInner own.1 inner⟩

theorem step_matches (f : Follows s l) (e : Event Co Urs Val)
    {r : State Co Urs (table Co) × Answer Val} (h : step agent s e = some r) :
    Matches l e r := by
  cases e with
  | call thread =>
      simp only [step] at h
      split at h
      · cases h
      · rename_i awake
        cases h
        exact call_matches f (fun h => awake ((f.sleeps thread).mpr h))
  | resume thread =>
      simp only [step] at h
      split at h
      · rename_i woken
        cases h
        exact resume_matches f woken.2
      · cases h
  | finish thread ok result =>
      simp only [step] at h
      split at h
      · rename_i running
        cases h
        exact finish_matches f running.2 ok result
      · cases h
  | setOwnerUrs urs =>
      simp only [step] at h
      split at h
      · cases h
        exact ⟨f.holder, f.depth, f.line, f.bodies, f.sleeps, f.woken⟩
      · cases h

theorem simulation (agent : Bool) :
    Machine.Simulation (machine Co Urs Val (table Co) agent) FifoLock.machine label Follows where
  start := {
    holder := rfl
    depth := rfl
    line := rfl
    bodies := fun _ => rfl
    sleeps := by
      intro c
      simp [machine, create, FifoLock.machine, FifoLock.free, FifoLock.waiting, FifoLock.handed]
    woken := rfl }
  keep := fun _ _ e _ _ f h => step_matches f e h

end Lock

section Contract

/-- The coroutines that had to wait, in the order they called. -/
def arrived : Event Co Urs Val × Answer Val → Option Co
  | (.call thread, .waits) => some thread
  | _ => none

/-- The coroutines that ran after waiting, in that order. -/
def ran : Event Co Urs Val × Answer Val → Option Co
  | (.resume thread, .enters) => some thread
  | _ => none

theorem arrived_label (x : Event Co Urs Val × Answer Val) :
    arrived x = (label x).bind FifoLock.arrived := by
  obtain ⟨e, o⟩ := x
  cases e <;> cases o <;> rfl

theorem ran_label (x : Event Co Urs Val × Answer Val) :
    ran x = (label x).bind FifoLock.served := by
  obtain ⟨e, o⟩ := x
  cases e <;> cases o <;> rfl

theorem filterMap_label (trace : List (Event Co Urs Val × Answer Val)) :
    trace.filterMap arrived = (trace.filterMap label).filterMap FifoLock.arrived ∧
      trace.filterMap ran = (trace.filterMap label).filterMap FifoLock.served := by
  rw [List.filterMap_filterMap, List.filterMap_filterMap]
  exact ⟨List.filterMap_congr fun x _ => arrived_label x,
    List.filterMap_congr fun x _ => ran_label x⟩

variable [DecidableEq Co]

/-- What holds after every trace, with `waiters` in the line. -/
structure Contract (agent : Bool) (trace : List (Event Co Urs Val × Answer Val))
    (s : State Co Urs (ring Co)) (waiters : List Co) : Prop where
  exclusive : ∀ c d, 0 < s.bodies c → 0 < s.bodies d → c = d
  assertion : ∀ e o, (e, o) ∈ trace → o ≠ .assertionFailed
  order : trace.filterMap arrived = trace.filterMap ran ++ (s.wakeupQueue ++ waiters)
  once : (s.wakeupQueue ++ waiters).Nodup
  sleeping : ∀ c, s.sleepSession c = true ↔ c ∈ s.wakeupQueue ++ waiters
  awaited : waiters ≠ [] → (∃ c, 0 < s.bodies c) ∨ s.wakeupQueue ≠ []
  resumes : ∀ c ∈ s.wakeupQueue, ∃ s', step agent s (.resume c : Event Co Urs Val) =
    some (s', .enters)
  ring : Holds s.threadQueue waiters
  length : s.getThreadQueueLength = waiters.length
  table : (machine Co Urs Val (table Co) agent).Reach trace (s.withQueue waiters)
  stepwise : ∀ e : Event Co Urs Val, Machine.Agree (Same Holds) (step agent s e)
    (step agent (s.withQueue waiters : State Co Urs (Queue.table Co)) e)

section Clauses
variable {agent : Bool} {trace : List (Event Co Urs Val × Answer Val)}
  {s s' : State Co Urs (Queue.table Co)} {l : FifoLock Co}

theorem Follows.exclusive (f : Follows s l) (c d : Co) (hc : 0 < s.bodies c)
    (hd : 0 < s.bodies d) : c = d := by
  have own := (f.own_of_body hc).1
  rw [(f.own_of_body hd).1] at own
  exact (Option.some.inj own).symm

theorem Follows.awaited (f : Follows s l) (waits : l.line ≠ []) :
    (∃ c, 0 < s.bodies c) ∨ s.wakeupQueue ≠ [] := by
  cases holder : l.holder with
  | none => exact absurd (l.idle holder).2 waits
  | some c =>
      by_cases depth : l.depth = 0
      · right
        rw [f.woken]
        simp [FifoLock.handed, depth, holder]
      · left
        refine ⟨c, ?_⟩
        rw [f.bodies, if_pos holder]
        omega

theorem Follows.resumes (f : Follows s l) {c : Co} (woken : c ∈ s.wakeupQueue) :
    ∃ s', step agent s (.resume c : Event Co Urs Val) = some (s', .enters) := by
  have sleeps : s.sleepSession c = true := by
    rw [f.sleeps, FifoLock.waiting, ← f.woken]
    exact List.mem_append_left _ woken
  refine ⟨(s.awaken c).enter agent c, ?_⟩
  simp only [step]
  rw [if_pos ⟨sleeps, woken⟩, resume_enters f woken]

theorem Follows.no_assertion (f : Follows s l) {e : Event Co Urs Val} {o : Answer Val}
    (h : step agent s e = some (s', o)) : o ≠ .assertionFailed := by
  intro failed
  subst failed
  cases e with
  | call thread =>
      simp only [step, State.call] at h
      split at h
      · cases h
      · split at h
        · cases h
        · cases h
  | resume thread =>
      simp only [step] at h
      split at h
      · rename_i woken
        rw [resume_enters f woken.2] at h
        cases h
      · cases h
  | finish thread ok result =>
      simp only [step, State.xpcallRet] at h
      split at h
      · cases ok with
        | true => cases h
        | false => cases h
      · cases h
  | setOwnerUrs urs =>
      simp only [step] at h
      split at h
      · cases h
      · cases h

theorem reach_no_assertion (reach : (machine Co Urs Val (Queue.table Co) agent).Reach trace s) :
    ∀ e o, (e, o) ∈ trace → o ≠ .assertionFailed := by
  induction reach with
  | init => simp
  | next before hstep ih =>
      obtain ⟨l, -, f⟩ := (simulation agent).reach before
      intro e o h
      rw [List.mem_append, List.mem_singleton] at h
      cases h with
      | inl h => exact ih e o h
      | inr h =>
          cases h
          exact f.no_assertion hstep

end Clauses

/-- Bodies never overlap. -/
theorem reach_exclusive (agent : Bool) {trace : List (Event Co Urs Val × Answer Val)}
    {s : State Co Urs (Queue.ring Co)}
    (reach : (machine Co Urs Val (Queue.ring Co) agent).Reach trace s) (c d : Co)
    (hc : 0 < s.bodies c) (hd : 0 < s.bodies d) : c = d := by
  obtain ⟨t, reachTable, (q : List Co), _, rfl⟩ := (bisimulation ring_table agent).reach reach
  obtain ⟨l, _, f⟩ := (simulation agent).reach reachTable
  exact f.exclusive c d hc hd

/-- Along every run of every number of coroutines, bodies never overlap, the
assertion never fails, whoever waits runs in order of arrival, and the line is
the one the `table.insert` version would have. -/
theorem reach_contract (agent : Bool) {trace : List (Event Co Urs Val × Answer Val)}
    {s : State Co Urs (Queue.ring Co)}
    (reach : (machine Co Urs Val (Queue.ring Co) agent).Reach trace s) :
    ∃ waiters, Contract agent trace s waiters := by
  obtain ⟨t, reachTable, (q : List Co), holds, rfl⟩ := (bisimulation ring_table agent).reach reach
  obtain ⟨l, reachLock, f⟩ := (simulation agent).reach reachTable
  have line : q = l.line := f.line
  have woken : s.wakeupQueue = l.handed := f.woken
  have waiting : s.wakeupQueue ++ q = l.waiting := by
    rw [woken, line]
    rfl
  have same : ∀ e : Event Co Urs Val, Machine.Agree (Same Holds) (step agent s e)
      (step agent (s.withQueue q : State Co Urs (Queue.table Co)) e) :=
    fun e => step_same ring_table agent s (s.withQueue q) e ⟨q, holds, rfl⟩
  refine ⟨q, ?_⟩
  exact {
    exclusive := reach_exclusive agent reach
    assertion := reach_no_assertion reachTable
    order := by
      rw [(filterMap_label trace).1, (filterMap_label trace).2, waiting]
      exact FifoLock.reach_waiting reachLock
    once := waiting ▸ l.waiting_nodup
    sleeping := waiting ▸ f.sleeps
    awaited := fun h => f.awaited (line ▸ h)
    resumes := by
      intro c hc
      have agree := same (.resume c)
      obtain ⟨t', ht⟩ := f.resumes hc
      rw [ht] at agree
      obtain ⟨s', hs, -⟩ := agree.exists_left
      exact ⟨s', hs⟩
    ring := holds
    length := holds.length
    table := reachTable
    stepwise := same }

/-- Coroutine 1 waits behind 0 and runs after the body of 0 raised. -/
theorem reach_contract_raising : ∃ s : State Nat Unit (Queue.ring Nat), ∃ waiters,
    Contract false [(.call 0, .enters), (.call 1, .waits), (.finish 0 false (), .raises ()),
      (.resume 1, .enters)] s waiters :=
  ⟨_, reach_contract false (((((Machine.Reach.init
    (M := machine Nat Unit Unit (Queue.ring Nat) false)).next rfl).next rfl).next rfl).next rfl)⟩

end Contract

end Qiuqiu.Queue
