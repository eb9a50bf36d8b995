import Mathlib.Algebra.Group.Int.Defs
import Mathlib.Algebra.Group.Nat.Defs

/-!
Numbers as bytes, the low byte first.
-/
namespace Qiuqiu.LittleEndian

/-- A number in a count of bytes. -/
def bytes : Nat → Nat → List UInt8
  | 0, _ => []
  | k + 1, n => UInt8.ofNat n :: bytes k (n / 256)

def number : List UInt8 → Nat
  | [] => 0
  | b :: bs => b.toNat + 256 * number bs

/-- The two's complement of a number of some bits. -/
def signed (bits n : Nat) : Int := if n < 2 ^ (bits - 1) then n else n - 2 ^ bits

/-- A number modulo the numbers of some bits. -/
def unsigned (bits : Nat) (i : Int) : Nat := (i % 2 ^ bits).toNat

theorem length_bytes (k n : Nat) : (bytes k n).length = k := by
  induction k generalizing n with
  | zero => rfl
  | succ k ih => rw [bytes, List.length_cons, ih]

theorem number_bytes (k n : Nat) : number (bytes k n) = n % 256 ^ k := by
  induction k generalizing n with
  | zero => rw [bytes, number, Nat.pow_zero, Nat.mod_one]
  | succ k ih =>
      have power : 256 ^ (k + 1) = 256 * 256 ^ k := by rw [Nat.pow_succ, Nat.mul_comm]
      rw [bytes, number, ih, UInt8.toNat_ofNat', power, Nat.mod_mul]

theorem number_bytes_of_lt {k n : Nat} (small : n < 256 ^ k) : number (bytes k n) = n := by
  rw [number_bytes, Nat.mod_eq_of_lt small]

/-- An integer of some bits comes back. -/
theorem signed_unsigned {bits : Nat} {i : Int} (pos : 0 < bits) (low : -2 ^ (bits - 1) ≤ i)
    (high : i < 2 ^ (bits - 1)) : signed bits (unsigned bits i) = i := by
  obtain ⟨k, rfl⟩ := Nat.exists_eq_add_of_lt pos
  have double : (2 : Int) ^ (0 + k + 1) = 2 * 2 ^ k := by
    rw [Nat.zero_add, Int.pow_succ, Int.mul_comm]
  have half : 0 + k + 1 - 1 = k := by omega
  have cast : ((2 ^ k : Nat) : Int) = 2 ^ k := Int.natCast_pow 2 k
  rw [half] at low high
  rw [signed, unsigned, half, double]
  by_cases negative : i < 0
  · have wrapped : i % (2 * 2 ^ k) = i + 2 * 2 ^ k := by
      rw [← Int.add_emod_right, Int.emod_eq_of_lt (by omega) (by omega)]
    have large : ¬ (i % (2 * 2 ^ k)).toNat < 2 ^ k := by
      rw [wrapped]
      omega
    rw [if_neg large, wrapped]
    omega
  · have same : i % (2 * 2 ^ k) = i := Int.emod_eq_of_lt (by omega) (by omega)
    have small : (i % (2 * 2 ^ k)).toNat < 2 ^ k := by
      rw [same]
      omega
    rw [if_pos small, same]
    omega

theorem unsigned_lt (bits : Nat) (i : Int) : unsigned bits i < 2 ^ bits := by
  have pos : (0 : Int) < 2 ^ bits := Int.pow_pos (by decide)
  have low := Int.emod_nonneg i (Int.ne_of_gt pos)
  have high := Int.emod_lt_of_pos i pos
  have cast : ((2 ^ bits : Nat) : Int) = 2 ^ bits := Int.natCast_pow 2 bits
  rw [unsigned]
  omega

end Qiuqiu.LittleEndian
