import Mathlib.Algebra.Order.Field.Power
import Mathlib.Data.Int.Log
import Mathlib.Data.Rat.Floor
import Mathlib.Tactic.FieldSimp
import Mathlib.Tactic.Linarith
import Mathlib.Tactic.NormNum

/-!
Rounding to doubles: 53 binary digits, to the nearest and to the even one of two. It goes up
with its argument and leaves every integer with 53 digits.
-/
namespace Qiuqiu.Double

/-- The nearest integer, the even one of two. -/
def halfEven (x : Rat) : Int :=
  if x - ⌊x⌋ < 1 / 2 ∨ x - ⌊x⌋ = 1 / 2 ∧ ⌊x⌋ % 2 = 0 then ⌊x⌋ else ⌊x⌋ + 1

/-- The exponent of the last digit. -/
def exponent (x : Rat) : Int := max (Int.log 2 |x| - 52) (-1074)

/-- The double next to `x`, for an `x` that does not overflow. -/
def round (x : Rat) : Rat := halfEven (x / 2 ^ exponent x) * 2 ^ exponent x

section
variable {x y : Rat} {n : Int}

theorem floor_le_halfEven (x : Rat) : ⌊x⌋ ≤ halfEven x := by
  rw [halfEven]
  split
  · exact Int.le_refl _
  · exact Int.le_add_one (Int.le_refl _)

theorem halfEven_le_succ (x : Rat) : halfEven x ≤ ⌊x⌋ + 1 := by
  rw [halfEven]
  split
  · exact Int.le_add_one (Int.le_refl _)
  · exact Int.le_refl _

theorem halfEven_mono (le : x ≤ y) : halfEven x ≤ halfEven y := by
  by_cases same : ⌊x⌋ = ⌊y⌋
  · rw [halfEven, halfEven, same]
    split_ifs with low high
    · exact Int.le_refl _
    · exact Int.le_add_one (Int.le_refl _)
    · rename_i high
      -- `y` is rounded down, so `x` is nearer to the same floor
      exfalso
      apply low
      rcases high with below | half
      · exact .inl (by linarith)
      · rcases lt_or_eq_of_le le with lt | eq
        · exact .inl (by linarith [half.1])
        · exact .inr ⟨by rw [eq, half.1], half.2⟩
    · exact Int.le_refl _
  · have floors := Int.floor_mono le
    have below : ⌊x⌋ + 1 ≤ ⌊y⌋ := by omega
    calc halfEven x ≤ ⌊x⌋ + 1 := halfEven_le_succ x
      _ ≤ ⌊y⌋ := below
      _ ≤ halfEven y := floor_le_halfEven y

theorem halfEven_intCast (n : Int) : halfEven n = n := by
  simp [halfEven]

theorem two_zpow_pos (e : Int) : (0 : Rat) < 2 ^ e := zpow_pos (by norm_num) e

/-- What has no digit behind the last one stays. -/
theorem round_of_multiple (h : x = n * 2 ^ exponent x) : round x = x := by
  have quotient : x / 2 ^ exponent x = n := by
    rw [div_eq_iff (two_zpow_pos _).ne']
    exact h
  rw [round, quotient, halfEven_intCast]
  exact h.symm

theorem round_le_multiple (le : x ≤ n * 2 ^ exponent x) : round x ≤ n * 2 ^ exponent x := by
  have quotient : x / 2 ^ exponent x ≤ n := (div_le_iff₀ (two_zpow_pos _)).2 le
  have rounded : halfEven (x / 2 ^ exponent x) ≤ n := by
    rw [← halfEven_intCast n]
    exact halfEven_mono quotient
  exact mul_le_mul_of_nonneg_right (by exact_mod_cast rounded) (two_zpow_pos _).le

theorem multiple_le_round (le : n * 2 ^ exponent x ≤ x) : n * 2 ^ exponent x ≤ round x := by
  have quotient : (n : Rat) ≤ x / 2 ^ exponent x := (le_div_iff₀ (two_zpow_pos _)).2 le
  have rounded : n ≤ halfEven (x / 2 ^ exponent x) := by
    rw [← halfEven_intCast n]
    exact halfEven_mono quotient
  exact mul_le_mul_of_nonneg_right (by exact_mod_cast rounded) (two_zpow_pos _).le

theorem exponent_mono (pos : 0 < x) (le : x ≤ y) : exponent x ≤ exponent y := by
  rw [exponent, exponent, abs_of_pos pos, abs_of_pos (lt_of_lt_of_le pos le)]
  have := Int.log_mono_right (b := 2) pos le
  omega

theorem round_mono (pos : 0 < x) (le : x ≤ y) : round x ≤ round y := by
  rcases (exponent_mono pos le).eq_or_lt with same | less
  · rw [round, round, same]
    refine mul_le_mul_of_nonneg_right ?_ (two_zpow_pos _).le
    exact_mod_cast halfEven_mono (div_le_div_of_nonneg_right le (two_zpow_pos _).le)
  · -- between them stands the power of two under `y`, a multiple for both
    have pos' : 0 < y := lt_of_lt_of_le pos le
    have top : exponent y = Int.log 2 y - 52 := by
      rw [exponent, exponent, abs_of_pos pos, abs_of_pos pos'] at less
      rw [exponent, abs_of_pos pos']
      omega
    have logs : Int.log 2 x < Int.log 2 y := by
      rw [top, exponent, abs_of_pos pos] at less
      omega
    have above : x ≤ (2 : Rat) ^ Int.log 2 y :=
      ((Int.lt_zpow_iff_log_lt Nat.one_lt_two pos).2 logs).le
    have below : (2 : Rat) ^ Int.log 2 y ≤ y := Int.zpow_log_le_self Nat.one_lt_two pos'
    have split : ∀ e ≤ Int.log 2 y,
        (2 : Rat) ^ Int.log 2 y = ((2 ^ (Int.log 2 y - e).toNat : Int) : Rat) * 2 ^ e := by
      intro e small
      push_cast
      rw [← zpow_natCast, Int.toNat_of_nonneg (by omega), ← zpow_add₀ (by norm_num)]
      congr 1
      omega
    calc round x ≤ (2 : Rat) ^ Int.log 2 y := by
          rw [split (exponent x) (by omega)] at above ⊢
          exact round_le_multiple above
      _ ≤ round y := by
          rw [split (exponent y) (by omega)] at below ⊢
          exact multiple_le_round below

/-- Integers with 53 digits are doubles. -/
theorem round_intCast (nonneg : 0 ≤ n) (small : n ≤ 2 ^ 53) : round n = n := by
  rcases small.eq_or_lt with top | below
  · rw [top]
    decide +kernel
  · rcases nonneg.eq_or_lt with zero | pos
    · rw [← zero]
      decide +kernel
    · have pos' : (0 : Rat) < n := by exact_mod_cast pos
      have log : Int.log 2 (n : Rat) < 53 := by
        rw [← Int.lt_zpow_iff_log_lt Nat.one_lt_two pos']
        exact_mod_cast below
      have negative : exponent n ≤ 0 := by
        rw [exponent, abs_of_pos pos']
        omega
      apply round_of_multiple (n := n * 2 ^ (-exponent n).toNat)
      push_cast
      rw [← zpow_natCast, Int.toNat_of_nonneg (by omega), mul_assoc, ← zpow_add₀ (by norm_num)]
      simp

theorem intCast_le_round (pos : 0 < x) (nonneg : 0 ≤ n) (small : n ≤ 2 ^ 53) (le : n ≤ x) :
    n ≤ round x := by
  rcases nonneg.eq_or_lt with zero | pos'
  · rw [← zero]
    simpa using multiple_le_round (x := x) (n := 0) (by simpa using pos.le)
  · rw [← round_intCast nonneg small]
    exact round_mono (by exact_mod_cast pos') le

end

/-- Behind the 53 digits of ten comes eleven. -/
example : round (10 + (1 - 1 / 2 ^ 53)) = 11 := by decide +kernel

end Qiuqiu.Double
