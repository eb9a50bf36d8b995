import Mathlib.Algebra.Group.Nat.Defs
import Mathlib.Data.List.TakeWhile
import Qiuqiu.Base.While
import Qiuqiu.Database.Routing

/-!
The reduction of `str_hash` in skynet/3rd/lua/lstrlib.c. The loop makes one 64 bit
value of the string, in which the modulus has no part. What is left of it is its
remainder, also where the code takes the low bits in place of a division.
-/
namespace Qiuqiu.Database
namespace Routing
open While

/-- `step` in `str_hash`. -/
def hashStep (str : List UInt8) : Nat := str.length / 32 + 1

/-- A round of `for (i = len; i >= step; i -= step)`. -/
def hashRound (str : List UInt8) (step : Nat) (s : Nat × UInt64) : Round (Nat × UInt64) UInt64 :=
  let (i, h) := s
  if i ≥ step then
    .next (i - step, h ^^^ ((h <<< 5) + (h >>> 2) + charToULong (str.getD (i - 1) 0)))
  else
    .leave h

/-- The value of `h` behind the loop. -/
def hash (str : List UInt8) : UInt64 :=
  hashRounds str (hashStep str) (str.length / hashStep str) str.length (.ofNat str.length)

/-- The test of the fast path. -/
def IsFast (h : UInt64) (hashMod : UInt32) : Prop :=
  hashMod.toUInt64 < h ∧ hashMod &&& (hashMod - 1) = 0

section Rounds
variable {str : List UInt8} {step i : Nat} {h : UInt64}

/-- The loop runs as often as the step goes into the index. -/
theorem returns_hashRounds (pos : 1 ≤ step) (rounds : Nat) (count : i / step = rounds) :
    Returns (hashRound str step) (i, h) (hashRounds str step rounds i h) := by
  induction rounds generalizing i h with
  | zero =>
      have below : ¬ i ≥ step := by
        intro above
        have one := Nat.div_pos above pos
        omega
      have left : hashRound str step (i, h) = .leave h := if_neg below
      exact (returns_leave left).mpr rfl
  | succ rounds ih =>
      have above : i ≥ step := by
        by_contra below
        rw [Nat.div_eq_of_lt (Nat.lt_of_not_le below)] at count
        cases count
      have goes : hashRound str step (i, h) = .next (i - step,
          h ^^^ ((h <<< 5) + (h >>> 2) + charToULong (str.getD (i - 1) 0))) := if_pos above
      rw [returns_next goes]
      apply ih
      have fewer := Nat.sub_mul_div i step 1
      rw [Nat.mul_one] at fewer
      omega

theorem returns_hash (str : List UInt8) :
    Returns (hashRound str (hashStep str)) (str.length, .ofNat str.length) (hash str) :=
  returns_hashRounds (Nat.succ_le_succ (Nat.zero_le _)) _ rfl

end Rounds

section Reduction
variable {h : UInt64} {hashMod : UInt32}

/-- A modulus with one bit is a power of two. -/
theorem isPowerOfTwo_of_and_pred (pos : 1 ≤ hashMod.toNat)
    (masked : hashMod &&& (hashMod - 1) = 0) :
    hashMod.toNat.isPowerOfTwo := by
  have pred : (hashMod - 1).toNat = hashMod.toNat - 1 := UInt32.toNat_sub_of_le _ _ pos
  have bits := congrArg UInt32.toNat masked
  rw [UInt32.toNat_and, pred] at bits
  exact Nat.ne_zero_and_sub_one_eq_zero_iff_isPowerOfTwo.mp ⟨Nat.ne_of_gt pos, bits⟩

/-- The low bits are the remainder. -/
theorem and_pred_eq_mod (pos : 1 ≤ hashMod.toNat) (masked : hashMod &&& (hashMod - 1) = 0) :
    (h &&& (hashMod - 1).toUInt64).toNat = h.toNat % hashMod.toNat := by
  obtain ⟨k, power⟩ := isPowerOfTwo_of_and_pred pos masked
  have pred : (hashMod - 1).toNat = hashMod.toNat - 1 := UInt32.toNat_sub_of_le _ _ pos
  rw [UInt64.toNat_and, UInt32.toNat_toUInt64, pred, power, Nat.and_two_pow_sub_one_eq_mod]

theorem reduceHash_eq_mod (pos : 1 ≤ hashMod.toNat) :
    reduceHash h hashMod = some (h.toNat % hashMod.toNat) := by
  rw [reduceHash]
  split
  case isTrue fast => rw [and_pred_eq_mod pos fast.2]
  case isFalse =>
      have nonzero : hashMod ≠ 0 := by
        rintro rfl
        cases pos
      rw [if_neg nonzero, UInt64.toNat_mod, UInt32.toNat_toUInt64]

end Reduction

theorem takeWhile_of_noNul {str : List UInt8} (noNul : 0 ∉ str) :
    str.takeWhile (· ≠ 0) = str := by
  rw [List.takeWhile_eq_self_iff]
  intro c mem
  refine decide_eq_true ?_
  rintro rfl
  exact noNul mem

/-- The loop of `str_hash` ends with a hash of the string alone, both ways of the reduction
take its remainder, and this is what is returned. -/
theorem strHash_eq_mod {str : Bytes} {m : Nat} (noNul : 0 ∉ str) (pos : 1 ≤ m)
    (small : m < 2 ^ 32) :
    Returns (hashRound str (hashStep str)) (str.length, .ofNat str.length) (hash str) ∧
      (∀ h, IsFast h (.ofNat m) →
        (h &&& (UInt32.ofNat m - 1).toUInt64).toNat = h.toNat % m) ∧
      (hash str).toNat % m < m ∧ strHash str m = some ((hash str).toNat % m) := by
  have modulus : (UInt32.ofNat m).toNat = m := UInt32.toNat_ofNat_of_lt' small
  have posMod : 1 ≤ (UInt32.ofNat m).toNat := by rwa [modulus]
  refine ⟨returns_hash str, ?_, Nat.mod_lt _ pos, ?_⟩
  · intro h fast
    rw [and_pred_eq_mod posMod fast.2, modulus]
  · simp only [strHash, takeWhile_of_noNul noNul]
    rw [reduceHash_eq_mod posMod, modulus]
    rfl

/-- The bytes of a string above 127, with the modulus eight. -/
theorem strHash_eq_mod_eight :
    0 ∉ ([200, 255, 97] : Bytes) ∧ 1 ≤ 8 ∧ 8 < 2 ^ 32 ∧
      strHash [200, 255, 97] 8 = some ((hash [200, 255, 97]).toNat % 8) :=
  ⟨by decide, by decide, by decide,
    (strHash_eq_mod (m := 8) (by decide) (by decide) (by decide)).2.2.2⟩

end Routing

end Qiuqiu.Database
