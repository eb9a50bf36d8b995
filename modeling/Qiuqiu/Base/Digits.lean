import Mathlib.Data.Nat.ModEq
import Mathlib.Data.List.Basic
import Mathlib.Data.List.Lex

/-!
Numbers written in a fixed width. The digits of base `b` stand as symbols of an
alphabet, the most significant first; what is written determines the number up
to the power of the base that the width holds, and sorts as the numbers do.
-/
namespace Digits
variable {α : Type} (b : Nat) (digit : Nat → α)

def digits : Nat → Nat → List α
  | 0, _ => []
  | width + 1, n => digits width (n / b) ++ [digit (n % b)]

@[simp] theorem length_digits (width n : Nat) : (digits b digit width n).length = width := by
  induction width generalizing n with
  | zero => rfl
  | succ width ih => rw [digits, List.length_append, ih, List.length_singleton]

/-- The last digits of a longer text. -/
theorem digits_succ_append (width n : Nat) (rest : List α) :
    digits b digit (width + 1) n ++ rest =
      digits b digit width (n / b) ++ digit (n % b) :: rest := by
  rw [digits, List.append_assoc, List.singleton_append]

variable {b digit}

theorem digits_inj (pos : 0 < b) (inj : ∀ d < b, ∀ d' < b, digit d = digit d' → d = d')
    {width n m : Nat} (same : digits b digit width n = digits b digit width m) :
    n % b ^ width = m % b ^ width := by
  induction width generalizing n m with
  | zero => rw [pow_zero, Nat.mod_one, Nat.mod_one]
  | succ width ih =>
      obtain ⟨high, low⟩ := List.append_inj' same rfl
      have low : n % b = m % b :=
        inj _ (Nat.mod_lt _ pos) _ (Nat.mod_lt _ pos) (List.cons.inj low).1
      rw [pow_succ', Nat.mod_mul, Nat.mod_mul, ih high, low]

/-- Where two texts agree, so do the numbers and what follows them. -/
theorem append_inj (pos : 0 < b) (inj : ∀ d < b, ∀ d' < b, digit d = digit d' → d = d')
    {width n m : Nat} {rest rest' : List α}
    (same : digits b digit width n ++ rest = digits b digit width m ++ rest') :
    n % b ^ width = m % b ^ width ∧ rest = rest' := by
  obtain ⟨written, following⟩ := List.append_inj same (by rw [length_digits, length_digits])
  exact ⟨digits_inj pos inj written, following⟩

theorem map_digits {β : Type} (f : α → β) (width n : Nat) :
    (digits b digit width n).map f = digits b (f ∘ digit) width n := by
  induction width generalizing n with
  | zero => rfl
  | succ width ih => rw [digits, List.map_append, ih, digits, List.map_singleton, Function.comp]

theorem mem_digits {p : α → Prop} (pos : 0 < b) (all : ∀ d < b, p (digit d)) {width n : Nat}
    {x : α} (mem : x ∈ digits b digit width n) : p x := by
  induction width generalizing n with
  | zero => cases mem
  | succ width ih =>
      rw [digits, List.mem_append, List.mem_singleton] at mem
      cases mem with
      | inl high => exact ih high
      | inr low =>
          rw [low]
          exact all _ (Nat.mod_lt n pos)

section Order
variable [LinearOrder α]

theorem lt_iff_div_mod (b n m : Nat) :
    n < m ↔ n / b < m / b ∨ n / b = m / b ∧ n % b < m % b := by
  have whole := Nat.div_add_mod n b
  have whole' := Nat.div_add_mod m b
  constructor
  · intro lt
    cases (Nat.div_le_div_right lt.le : n / b ≤ m / b).lt_or_eq with
    | inl less => exact .inl less
    | inr equal =>
        rw [equal] at whole
        exact .inr ⟨equal, by omega⟩
  · intro parts
    cases parts with
    | inl less => exact Nat.lt_of_div_lt_div less
    | inr low =>
        rw [low.1] at whole
        omega

theorem inj_of_lt_iff (mono : ∀ d < b, ∀ d' < b, (digit d < digit d' ↔ d < d')) :
    ∀ d < b, ∀ d' < b, digit d = digit d' → d = d' := by
  intro d small d' small' equal
  have notLess : ¬ d < d' := (mono d small d' small').not.mp (equal ▸ lt_irrefl _)
  have notMore : ¬ d' < d := (mono d' small' d small).not.mp (equal ▸ lt_irrefl _)
  omega

/-- Two texts of numbers that fit, before anything else, sort by the numbers first. -/
theorem digits_append_lt_iff (pos : 0 < b)
    (mono : ∀ d < b, ∀ d' < b, (digit d < digit d' ↔ d < d'))
    {width n m : Nat} (fits : n < b ^ width) (fits' : m < b ^ width) (rest rest' : List α) :
    digits b digit width n ++ rest < digits b digit width m ++ rest' ↔
      n < m ∨ n = m ∧ rest < rest' := by
  induction width generalizing n m rest rest' with
  | zero =>
      rw [pow_zero, Nat.lt_one_iff] at fits fits'
      rw [fits, fits']
      simp [digits]
  | succ width ih =>
      rw [pow_succ'] at fits fits'
      rw [digits_succ_append, digits_succ_append,
        ih (Nat.div_lt_of_lt_mul fits) (Nat.div_lt_of_lt_mul fits'), List.cons_lt_cons_iff,
        mono _ (Nat.mod_lt n pos) _ (Nat.mod_lt m pos), lt_iff_div_mod b n m]
      have equal : n = m ↔ n / b = m / b ∧ digit (n % b) = digit (m % b) := by
        constructor
        · rintro rfl
          exact ⟨rfl, rfl⟩
        · rintro ⟨high, low⟩
          have low := inj_of_lt_iff mono _ (Nat.mod_lt n pos) _ (Nat.mod_lt m pos) low
          rw [← Nat.div_add_mod n b, ← Nat.div_add_mod m b, high, low]
      rw [equal]
      tauto

/-- The texts of numbers that fit sort as the numbers. -/
theorem digits_lt_iff (pos : 0 < b) (mono : ∀ d < b, ∀ d' < b, (digit d < digit d' ↔ d < d'))
    {width n m : Nat} (fits : n < b ^ width) (fits' : m < b ^ width) :
    digits b digit width n < digits b digit width m ↔ n < m := by
  have appended := digits_append_lt_iff pos mono fits fits' [] []
  simpa using appended

end Order

end Digits
