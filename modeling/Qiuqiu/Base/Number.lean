import Qiuqiu.Base.Double

/-!
The numbers of Lua: integers of 64 bits, whose sums wrap around, and doubles, whose sums are
rounded. As the key of a table a float with the value of an integer is that integer, and NaN
is none.
-/
namespace Qiuqiu.Lua

inductive Number where
  | int (n : Int)
  | float (x : Rat)
  | inf (negative : Bool)
  | nan
  deriving DecidableEq

namespace Number

/-- What Lua can hold. -/
def held : Number → Bool
  | .int n => decide (-2 ^ 63 ≤ n ∧ n < 2 ^ 63)
  | .float x => decide (Double.round x = x ∧ |x| < 2 ^ 1024)
  | .inf _ | .nan => true

/-- `x <= n`. -/
def atMost (n : Int) : Number → Bool
  | .int m => decide (m ≤ n)
  | .float x => decide (x ≤ n)
  | .inf negative => negative
  | .nan => false

/-- `n <= x`. -/
def atLeast (n : Int) : Number → Bool
  | .int m => decide (n ≤ m)
  | .float x => decide (n ≤ x)
  | .inf negative => !negative
  | .nan => false

/-- `n + x`. No double overflows by an integer. -/
def plus (n : Int) : Number → Number
  | .int m => .int ((n + m).bmod (2 ^ 64))
  | .float x => .float (Double.round (Double.round n + x))
  | .inf negative => .inf negative
  | .nan => .nan

/-- `math.floor`. -/
def floor : Number → Number
  | .float x => if -2 ^ 63 ≤ ⌊x⌋ ∧ ⌊x⌋ < 2 ^ 63 then .int ⌊x⌋ else .float ⌊x⌋
  | x => x

/-- The key of a table. -/
def key : Number → Option Number
  | .float x =>
      some (if x = x.num ∧ -2 ^ 63 ≤ x.num ∧ x.num < 2 ^ 63 then .int x.num else .float x)
  | .nan => none
  | x => some x

/-- The integer that a number is. -/
def whole : Number → Option Int
  | .int n => some n
  | .float x => if x = x.num then some x.num else none
  | .inf _ | .nan => none

section
variable {x k : Number} {n p i : Int}

theorem atMost_of_atLeast (one : x.atLeast 1 = true) : x.atMost 0 = false := by
  cases x with
  | int m =>
      simp only [atLeast, atMost, decide_eq_true_eq, decide_eq_false_iff_not] at one ⊢
      omega
  | float y =>
      simp only [atLeast, atMost, decide_eq_true_eq, decide_eq_false_iff_not] at one ⊢
      push_cast at one ⊢
      linarith
  | inf negative => simpa [atLeast, atMost] using one
  | nan => rfl

theorem bmod_of_lt (lo : 0 ≤ n) (hi : n < 2 ^ 63) : n.bmod (2 ^ 64) = n := by
  rw [Int.bmod_def]
  simp only [Nat.reducePow, Nat.cast_ofNat]
  omega

theorem bmod_of_ge (lo : 2 ^ 63 ≤ n) (hi : n < 2 ^ 64) : n.bmod (2 ^ 64) < 0 := by
  rw [Int.bmod_def]
  simp only [Nat.reducePow, Nat.cast_ofNat]
  omega

/-- An integer sum that does not wrap to a negative one is exact. -/
theorem bmod_cases (lo : 0 ≤ n) (hi : n < 2 ^ 64) :
    n < 2 ^ 63 ∧ n.bmod (2 ^ 64) = n ∨ 2 ^ 63 ≤ n ∧ n.bmod (2 ^ 64) < 0 := by
  by_cases fits : n < 2 ^ 63
  · exact .inl ⟨fits, bmod_of_lt lo fits⟩
  · exact .inr ⟨not_lt.1 fits, bmod_of_ge (not_lt.1 fits) hi⟩

/-- Rounding does not pass an integer up to the next one. -/
theorem le_sum {y : Rat} (nonneg : 0 ≤ n) (pos : 0 < y) (lo : 0 ≤ i) (hi : i ≤ 2 ^ 53)
    (le : i ≤ n + y) : i ≤ Double.round (n + y) := by
  have zero : (0 : Rat) ≤ n := by exact_mod_cast nonneg
  exact Double.intCast_le_round (by linarith) lo hi le

/-- The integer is a double itself. -/
theorem plus_float {y : Rat} (nonneg : 0 ≤ n) (small : n < 2 ^ 53) :
    (float y).plus n = .float (Double.round (n + y)) := by
  rw [plus, Double.round_intCast nonneg small.le]

theorem key_float {y : Rat} (h : (float y).key = some (.int i)) : y = i ∧ i < 2 ^ 63 := by
  simp only [key, Option.some.injEq] at h
  split_ifs at h with fits
  cases h
  exact ⟨fits.1, fits.2.2⟩

theorem key_floor {y : Rat} (h : (float y).floor.key = some (.int i)) :
    ⌊y⌋ = i ∧ i < 2 ^ 63 := by
  simp only [floor] at h
  split_ifs at h with fits
  · cases h
    exact ⟨rfl, fits.2⟩
  · obtain ⟨value, small⟩ := key_float h
    exact ⟨by exact_mod_cast value, small⟩

/-- A sum with at least one is no integer up to the other summand. -/
theorem plus_later (held : x.held = true) (one : x.atLeast 1 = true) (nonneg : 0 ≤ n)
    (small : n < 2 ^ 53) (h : (x.plus n).key = some (.int i)) (lo : 0 ≤ i) : n + 1 ≤ i := by
  cases x with
  | int m =>
      simp only [Number.held, atLeast, decide_eq_true_eq] at held one
      simp only [plus, key, Option.some.injEq, int.injEq] at h
      rcases bmod_cases (n := n + m) (by omega) (by omega) with exact | wraps
      · omega
      · omega
  | float y =>
      simp only [atLeast, decide_eq_true_eq, Int.cast_one] at one
      have above : ((n + 1 : Int) : Rat) ≤ Double.round (n + y) := by
        refine le_sum nonneg (by linarith) (by omega) (by omega) ?_
        push_cast
        linarith
      rw [plus_float nonneg small] at h
      rw [(key_float h).1] at above
      exact_mod_cast above
  | inf negative => cases h
  | nan => cases h

theorem whole_float {y : Rat} (whole : (float y).whole = some p) : y = p := by
  simp only [Number.whole] at whole
  split_ifs at whole with eq
  cases whole
  exact eq

theorem key_intCast (lo : 0 ≤ i) (hi : i < 2 ^ 63) : (float i).key = some (.int i) := by
  simp only [key, Rat.num_intCast, true_and]
  rw [if_pos ⟨by omega, hi⟩]

theorem floor_intCast (lo : 0 ≤ i) (hi : i < 2 ^ 63) : (float i).floor = .int i := by
  simp only [floor, Int.floor_intCast]
  rw [if_pos ⟨by omega, hi⟩]

theorem le_whole (whole : x.whole = some p) (least : x.atLeast n = true) : n ≤ p := by
  cases x with
  | int m =>
      cases whole
      simpa [atLeast] using least
  | float y =>
      rw [whole_float whole] at least
      simpa [atLeast] using least
  | inf negative => cases whole
  | nan => cases whole

/-- Sums of integers are exact as long as a double holds them. -/
theorem plus_near (whole : x.whole = some p) (one : 1 ≤ p) (nonneg : 0 ≤ n)
    (near : n + p < 2 ^ 53) :
    (x.plus n).key = some (.int (n + p)) ∧ (x.plus n).floor.key = some (.int (n + p)) := by
  cases x with
  | int m =>
      cases whole
      have sum : (n + p).bmod (2 ^ 64) = n + p := bmod_of_lt (by omega) (by omega)
      simp only [plus, floor, key, sum, and_self]
  | float y =>
      have sum : (float y).plus n = float (n + p : Int) := by
        rw [plus_float nonneg (by omega), whole_float whole, ← Int.cast_add,
          Double.round_intCast (by omega) near.le]
      rw [sum, floor_intCast (by omega) (by omega)]
      exact ⟨key_intCast (by omega) (by omega), rfl⟩
  | inf negative => cases whole
  | nan => cases whole

/-- No sum beyond that is one of the integers before. -/
theorem plus_far (held : x.held = true) (whole : x.whole = some p) (one : 1 ≤ p) (nonneg : 0 ≤ n)
    (small : n < 2 ^ 53) (far : 2 ^ 53 ≤ n + p) (lo : 0 ≤ i)
    (h : (x.plus n).key = some (.int i) ∨ (x.plus n).floor.key = some (.int i)) : 2 ^ 53 ≤ i := by
  cases x with
  | int m =>
      cases whole
      simp only [Number.held, decide_eq_true_eq] at held
      simp only [plus, floor, key, Option.some.injEq, int.injEq, or_self] at h
      rcases bmod_cases (n := n + p) (by omega) (by omega) with exact | wraps
      · omega
      · omega
  | float y =>
      have value := whole_float whole
      have above : ((2 ^ 53 : Int) : Rat) ≤ Double.round (n + y) := by
        refine le_sum nonneg ?_ (by omega) (Int.le_refl _) ?_
        · rw [value]
          exact_mod_cast one
        · rw [value]
          exact_mod_cast far
      rw [plus_float nonneg small] at h
      cases h with
      | inl h =>
          rw [(key_float h).1] at above
          exact_mod_cast above
      | inr h =>
          rw [← (key_floor h).1]
          exact Int.le_floor.2 above
  | inf negative => cases whole
  | nan => cases whole

/-- A whole number has a sum. -/
theorem plus_some (whole : x.whole = some p) :
    (∃ k, (x.plus n).key = some k) ∧ ∃ k, (x.plus n).floor.key = some k := by
  cases x with
  | int m => exact ⟨⟨_, rfl⟩, ⟨_, rfl⟩⟩
  | float y =>
      refine ⟨⟨_, rfl⟩, ?_⟩
      simp only [plus, floor]
      split_ifs
      · exact ⟨_, rfl⟩
      · exact ⟨_, rfl⟩
  | inf negative => cases whole
  | nan => cases whole

end

end Number

end Qiuqiu.Lua
