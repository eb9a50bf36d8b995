import Mathlib.Data.List.Chain
import Mathlib.Data.List.Basic

/-!
A timer against the ticks of a clock. It is due at a time, fires at the first
tick that is not before it, and is due again a period after the tick it fired
at; without a period it fires once.
-/
namespace Schedule
variable (period : Option Int)

def next (due : Option Int) (tick : Int) : Option Int :=
  due.bind fun due => if due ≤ tick then period.map (tick + ·) else some due

def firesAt (due : Option Int) (tick : Int) : Bool := due.any (· ≤ tick)

/-- When the timer is due after some ticks. -/
def after (due : Option Int) (ticks : List Int) : Option Int := ticks.foldl (next period) due

/-- The ticks the timer fires at. -/
def fires : Option Int → List Int → List Int
  | _, [] => []
  | due, tick :: ticks =>
      if firesAt due tick then tick :: fires (next period due tick) ticks
      else fires (next period due tick) ticks

variable {period} {due : Option Int} {ticks : List Int} {tick : Int}

theorem after_concat :
    after period due (ticks ++ [tick]) = next period (after period due ticks) tick := by
  rw [after, List.foldl_append]
  rfl

theorem fires_concat : fires period due (ticks ++ [tick]) =
    fires period due ticks ++ if firesAt (after period due ticks) tick then [tick] else [] := by
  induction ticks generalizing due with
  | nil =>
      simp only [List.nil_append, fires, after, List.foldl_nil]
      rfl
  | cons first ticks ih =>
      simp only [List.cons_append, fires]
      rw [ih]
      split
      · rfl
      · rfl

theorem next_of_lt {d : Int} (h : tick < d) : next period (some d) tick = some d :=
  if_neg (Int.not_le.2 h)

theorem next_of_le {d : Int} (h : d ≤ tick) : next period (some d) tick = period.map (tick + ·) :=
  if_pos h

theorem after_periodic (p d : Int) (ticks : List Int) :
    ∃ d', after (some p) (some d) ticks = some d' := by
  induction ticks generalizing d with
  | nil => exact ⟨d, rfl⟩
  | cons tick ticks ih =>
      rw [after, List.foldl_cons]
      by_cases h : d ≤ tick
      · rw [next_of_le h]
        exact ih (tick + p)
      · rw [next_of_lt (Int.not_le.1 h)]
        exact ih d

theorem fires_none : fires period none ticks = [] := by
  induction ticks with
  | nil => rfl
  | cons tick ticks ih => exact ih

theorem fires_cons_of_le {d : Int} (h : d ≤ tick) :
    fires period (some d) (tick :: ticks) = tick :: fires period (period.map (tick + ·)) ticks := by
  simp only [fires, firesAt, Option.any_some, h, decide_true, if_true, next_of_le h]

theorem fires_cons_of_lt {d : Int} (h : tick < d) :
    fires period (some d) (tick :: ticks) = fires period (some d) ticks := by
  simp only [fires, firesAt, Option.any_some, Int.not_le.2 h, decide_false, next_of_lt h]
  rfl

/-- The first tick that is not before the due time. -/
theorem head_fires {d : Int} :
    (fires period (some d) ticks).head? = ticks.find? fun tick => d ≤ tick := by
  induction ticks with
  | nil => rfl
  | cons tick ticks ih =>
      by_cases h : d ≤ tick
      · rw [fires_cons_of_le h, List.find?_cons_of_pos (by simpa using h)]
        rfl
      · rw [fires_cons_of_lt (Int.not_le.1 h), List.find?_cons_of_neg (by simpa using h), ih]

/-- Without a period the timer fires once. -/
theorem fires_once {d : Int} :
    fires none (some d) ticks = (ticks.find? fun tick => d ≤ tick).toList := by
  induction ticks with
  | nil => rfl
  | cons tick ticks ih =>
      by_cases h : d ≤ tick
      · rw [fires_cons_of_le h, List.find?_cons_of_pos (by simpa using h), Option.map_none,
          fires_none]
        rfl
      · rw [fires_cons_of_lt (Int.not_le.1 h), List.find?_cons_of_neg (by simpa using h), ih]

theorem due_le_head_fires {d t : Int} (h : t ∈ (fires period (some d) ticks).head?) : d ≤ t := by
  rw [head_fires] at h
  simpa using List.find?_some h

/-- With a period the timer fires at ticks a period apart. -/
theorem isChain_fires (p d : Int) :
    (fires (some p) (some d) ticks).IsChain fun a b => a + p ≤ b := by
  induction ticks generalizing d with
  | nil => exact .nil
  | cons tick ticks ih =>
      by_cases h : d ≤ tick
      · rw [fires_cons_of_le h, List.isChain_cons]
        exact ⟨fun t ht => due_le_head_fires ht, ih (tick + p)⟩
      · rw [fires_cons_of_lt (Int.not_le.1 h)]
        exact ih d

end Schedule
