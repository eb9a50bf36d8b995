import Mathlib.Data.List.Basic
import Qiuqiu.Base.Machine

/-!
A re-entrant lock with a waiting line. The holder enters again freely; any
other party is put at the end of the line. Leaving for the last time hands the
lock to the first of the line, who holds it before it runs: its depth is 0
until it is resumed. A lock value carries its own well-formedness.
-/
structure FifoLock (C : Type) where
  holder : Option C
  depth : Nat
  line : List C
  idle : holder = none → depth = 0 ∧ line = []
  distinct : (holder.toList ++ line).Nodup

namespace FifoLock
variable {C : Type}

inductive Event (C : Type) where
  | call (c : C)
  | resume (c : C)
  | leave (c : C)

inductive Answer where
  | enters
  | waits
  | left
  deriving DecidableEq

def free : FifoLock C where
  holder := none
  depth := 0
  line := []
  idle := fun _ => ⟨rfl, rfl⟩
  distinct := List.nodup_nil

/-- The parties that wait: those in line, and a new holder not yet resumed. -/
def handed (l : FifoLock C) : List C :=
  if l.depth = 0 then l.holder.toList else []

def waiting (l : FifoLock C) : List C := l.handed ++ l.line

theorem waiting_nodup (l : FifoLock C) : l.waiting.Nodup := by
  unfold waiting handed
  split
  · exact l.distinct
  · exact (List.nodup_append.mp l.distinct).2.1

def hold (l : FifoLock C) (c : C) (depth : Nat) (held : l.holder = none ∨ l.holder = some c) :
    FifoLock C where
  holder := some c
  depth := depth
  line := l.line
  idle := by simp
  distinct := by
    cases held with
    | inl h => simp [(l.idle h).2]
    | inr h => simpa [h] using l.distinct

def join (l : FifoLock C) (c : C) (held : l.holder ≠ none) (other : l.holder ≠ some c)
    (fresh : c ∉ l.line) : FifoLock C where
  holder := l.holder
  depth := l.depth
  line := l.line ++ [c]
  idle := fun h => absurd h held
  distinct := by
    rw [← List.append_assoc]
    refine List.nodup_append.mpr ⟨l.distinct, by simp, ?_⟩
    intro a ha b hb hab
    rw [List.mem_singleton] at hb
    rw [hab, hb, List.mem_append, Option.mem_toList] at ha
    cases ha with
    | inl h => exact other h
    | inr h => exact fresh h

def handOver (l : FifoLock C) : FifoLock C where
  holder := l.line.head?
  depth := 0
  line := l.line.tail
  idle := by
    intro h
    simp [List.head?_eq_none_iff.mp h]
  distinct := by
    have h := (List.nodup_append.mp l.distinct).2.1
    cases hline : l.line with
    | nil => simp
    | cons c rest => simpa [hline] using h

variable [DecidableEq C]

def step (l : FifoLock C) : Event C → Option (FifoLock C × Answer)
  | .call c =>
      if free : l.holder = none then some (l.hold c 1 (.inl free), .enters)
      else if own : l.holder = some c then
        if l.depth = 0 then none else some (l.hold c (l.depth + 1) (.inr own), .enters)
      else if fresh : c ∉ l.line then some (l.join c free own fresh, .waits)
      else none
  | .resume c =>
      if own : l.holder = some c then
        if l.depth = 0 then some (l.hold c 1 (.inr own), .enters) else none
      else none
  | .leave c =>
      if own : l.holder = some c then
        if l.depth = 0 then none
        else if l.depth = 1 then some (l.handOver, .left)
        else some (l.hold c (l.depth - 1) (.inr own), .left)
      else none

def machine : Machine (FifoLock C) (Event C) Answer where
  init := free
  step := step

/-- The parties that had to wait, in the order they came. -/
def arrived : Event C × Answer → Option C
  | (.call c, .waits) => some c
  | _ => none

/-- The parties that were resumed, in that order. -/
def served : Event C × Answer → Option C
  | (.resume c, .enters) => some c
  | _ => none

section Steps
variable {l : FifoLock C} {c : C}

theorem step_call_free (free : l.holder = none) :
    l.step (.call c) = some (l.hold c 1 (.inl free), .enters) :=
  dif_pos free

theorem step_call_own (own : l.holder = some c) (running : l.depth ≠ 0) :
    l.step (.call c) = some (l.hold c (l.depth + 1) (.inr own), .enters) := by
  have held : l.holder ≠ none := by simp [own]
  simp only [step, dif_neg held, dif_pos own, if_neg running]

theorem step_call_other (held : l.holder ≠ none) (other : l.holder ≠ some c)
    (fresh : c ∉ l.line) :
    l.step (.call c) = some (l.join c held other fresh, .waits) := by
  simp only [step, dif_neg held, dif_neg other, dif_pos fresh]

theorem step_resume (own : l.holder = some c) (waits : l.depth = 0) :
    l.step (.resume c) = some (l.hold c 1 (.inr own), .enters) := by
  simp only [step, dif_pos own, if_pos waits]

theorem step_leave_last (own : l.holder = some c) (last : l.depth = 1) :
    l.step (.leave c) = some (l.handOver, .left) := by
  have running : ¬ l.depth = 0 := by omega
  simp only [step, dif_pos own, if_neg running, if_pos last]

theorem step_leave_inner (own : l.holder = some c) (inner : 1 < l.depth) :
    l.step (.leave c) = some (l.hold c (l.depth - 1) (.inr own), .left) := by
  have running : ¬ l.depth = 0 := by omega
  have notLast : ¬ l.depth = 1 := by omega
  simp only [step, dif_pos own, if_neg running, if_neg notLast]

/-- Whoever comes to wait stands last, and only the first to wait is resumed. -/
theorem step_waiting {e : Event C} {l' : FifoLock C} {a : Answer}
    (h : l.step e = some (l', a)) :
    l.waiting ++ (arrived (e, a)).toList = (served (e, a)).toList ++ l'.waiting := by
  cases e with
  | call c =>
      by_cases free : l.holder = none
      · rw [step_call_free free] at h
        cases h
        have idle := l.idle free
        simp [waiting, handed, hold, arrived, served, free, idle.2]
      · by_cases own : l.holder = some c
        · by_cases depth : l.depth = 0
          · simp [step, own, depth] at h
          · rw [step_call_own own depth] at h
            cases h
            simp [waiting, handed, hold, arrived, served, depth]
        · by_cases fresh : c ∉ l.line
          · rw [step_call_other free own fresh] at h
            cases h
            change (l.handed ++ l.line) ++ [c] = [] ++ (l.handed ++ (l.line ++ [c]))
            rw [List.append_assoc, List.nil_append]
          · simp only [step, dif_neg free, dif_neg own, dif_neg fresh] at h
            cases h
  | resume c =>
      by_cases own : l.holder = some c
      · by_cases depth : l.depth = 0
        · rw [step_resume own depth] at h
          cases h
          simp [waiting, handed, hold, arrived, served, own, depth]
        · simp [step, own, depth] at h
      · simp [step, own] at h
  | leave c =>
      by_cases own : l.holder = some c
      · by_cases last : l.depth = 1
        · rw [step_leave_last own last] at h
          cases h
          cases hline : l.line <;> simp [waiting, handed, handOver, arrived, served, last, hline]
        · by_cases depth : l.depth = 0
          · simp [step, own, depth] at h
          · rw [step_leave_inner own (by omega)] at h
            cases h
            have inner : l.depth - 1 ≠ 0 := by omega
            simp [waiting, handed, hold, arrived, served, depth, inner]
      · simp [step, own] at h

end Steps

/-- The line is served in the order of arrival, without loss or repetition. -/
theorem reach_waiting {trace : List (Event C × Answer)} {l : FifoLock C}
    (h : machine.Reach trace l) :
    trace.filterMap arrived = trace.filterMap served ++ l.waiting := by
  refine h.invariant (fun trace l =>
    trace.filterMap arrived = trace.filterMap served ++ l.waiting) ?_ ?_
  · rfl
  · intro trace l e l' a ih hstep
    have one := step_waiting hstep
    simp only [List.filterMap_append, List.filterMap_cons, List.filterMap_nil]
    rw [ih, List.append_assoc, List.append_assoc]
    cases ha : arrived (e, a) <;> cases hs : served (e, a) <;>
      simp_all [machine]

end FifoLock
