import Qiuqiu.Net.SeriStream

/-!
Values go through the stream: whatever is packed is read back, of a table the entries it has.
-/
namespace Qiuqiu.Net.Seri
open LittleEndian

variable {heap : Nat → Table} {v : Value} {tree : Tree} {stream : Bytes} {n : Int64} {s : Bytes}
  {one : Bytes → Option (Tree × Bytes)} {size cookie : Nat}

theorem combineType_parts : ∀ t < 8, ∀ v < 32,
    (combineType t v &&& 7).toNat = t ∧ (combineType t v >>> 3).toNat = v := by
  decide

theorem combineType_type {t : Nat} (small : t < 8) (short : cookie < 32) :
    (combineType t cookie &&& 7).toNat = t := (combineType_parts t small cookie short).1

theorem combineType_cookie {t : Nat} (small : t < 8) (short : cookie < 32) :
    (combineType t cookie >>> 3).toNat = cookie := (combineType_parts t small cookie short).2

theorem rbRead_append (s rest : Bytes) : rbRead s.length (s ++ rest) = some (s, rest) := by
  rw [rbRead, if_neg (by rw [List.length_append]; omega), List.take_left, List.drop_left]

theorem rbRead_bytes (k n : Nat) (rest : Bytes) :
    rbRead k (bytes k n ++ rest) = some (bytes k n, rest) := by
  have read := rbRead_append (bytes k n) rest
  rwa [length_bytes] at read

theorem flatten_pair (a : UInt8) (s : Bytes) : [[a], s].flatten = a :: s :=
  congrArg (List.cons a) (List.append_nil s)

/-- An integer is a byte with its width, and its bytes. -/
theorem wbInteger_reads (n : Int64) : ∃ cookie payload, cookie < 32 ∧ cookie ≠ 8 ∧
    (wbInteger n).flatten = combineType 2 cookie :: payload ∧
    ∀ rest, getInteger cookie (payload ++ rest) = some (n, rest) := by
  have low := n.le_toInt
  have high := n.toInt_lt
  -- a number that is not negative is read as it is
  have natural : ∀ k : Nat, (k : Int) = n.toInt → Int64.ofNat k = n := by
    intro k same
    rw [← Int64.ofInt_eq_ofNat, same, Int64.ofInt_toInt]
  rw [wbInteger]
  by_cases zero : n.toInt = 0
  · rw [if_pos zero]
    exact ⟨0, [], by decide, by decide, rfl, fun rest => by rw [← natural 0 zero.symm]; rfl⟩
  · rw [if_neg zero]
    by_cases wide : n.toInt ≠ toInt32 n.toInt
    · rw [if_pos wide]
      refine ⟨6, bytes 8 (unsigned 64 n.toInt), by decide, by decide, flatten_pair .., ?_⟩
      intro rest
      have whole : number (bytes 8 (unsigned 64 n.toInt)) = unsigned 64 n.toInt :=
        number_bytes_of_lt (unsigned_lt 64 _)
      rw [getInteger, rbRead_bytes, Option.map_some]
      dsimp only
      rw [whole, signed_unsigned (by decide) low high, Int64.ofInt_toInt]
    · rw [if_neg wide]
      have narrow : n.toInt = toInt32 n.toInt := Decidable.not_not.mp wide
      -- the conversion to 32 bits leaves the number in their range
      have range : -2 ^ 31 ≤ n.toInt ∧ n.toInt < 2 ^ 31 := by
        have small := unsigned_lt 32 n.toInt
        rw [narrow, toInt32, signed]
        split <;> omega
      have dword : ∀ rest, getInteger 4 (bytes 4 (unsigned 32 n.toInt) ++ rest) =
          some (n, rest) := by
        intro rest
        have whole : number (bytes 4 (unsigned 32 n.toInt)) = unsigned 32 n.toInt :=
          number_bytes_of_lt (unsigned_lt 32 _)
        rw [getInteger, rbRead_bytes, Option.map_some]
        dsimp only
        rw [whole, signed_unsigned (by decide) range.1 range.2, Int64.ofInt_toInt]
      by_cases negative : n.toInt < 0
      · rw [if_pos negative]
        exact ⟨4, _, by decide, by decide, flatten_pair .., dword⟩
      · rw [if_neg negative]
        have back : (n.toInt.toNat : Int) = n.toInt := Int.toNat_of_nonneg (by omega)
        by_cases byte : n.toInt < 0x100
        · rw [if_pos byte]
          refine ⟨1, bytes 1 n.toInt.toNat, by decide, by decide, flatten_pair .., ?_⟩
          intro rest
          rw [getInteger, rbRead_bytes, Option.map_some]
          dsimp only
          rw [number_bytes_of_lt (by omega), natural _ back]
        · rw [if_neg byte]
          by_cases word : n.toInt < 0x10000
          · rw [if_pos word]
            refine ⟨2, bytes 2 n.toInt.toNat, by decide, by decide, flatten_pair .., ?_⟩
            intro rest
            rw [getInteger, rbRead_bytes, Option.map_some]
            dsimp only
            rw [number_bytes_of_lt (by omega), natural _ back]
          · rw [if_neg word]
            have same : n.toInt.toNat = unsigned 32 n.toInt := by
              rw [unsigned]
              omega
            rw [same]
            exact ⟨4, _, by decide, by decide, flatten_pair .., dword⟩

/-- A reader reads a stream as a value, whatever is behind. -/
def Reads (one : Bytes → Option (Tree × Bytes)) (stream : Bytes) (tree : Tree) : Prop :=
  ∀ rest, one (stream ++ rest) = some (tree, rest)

/-- Behind the byte with the type and the cookie stands what the value needs. -/
theorem unpackOne_combine {t level : Nat} (small : t < 8) (short : cookie < 32) (rb : Bytes) :
    unpackOne (level + 1) (combineType t cookie :: rb) =
      pushValue (unpackOne level) t cookie rb := by
  rw [unpackOne, combineType_type small short, combineType_cookie small short]

theorem integer_reads (n : Int64) (level : Nat) :
    Reads (unpackOne (level + 1)) (wbInteger n).flatten (.integer n) := by
  intro rest
  obtain ⟨cookie, payload, short, no_real, flat, reads⟩ := wbInteger_reads n
  rw [flat, List.cons_append, unpackOne_combine (by decide) short, pushValue, if_neg no_real,
    reads]
  rfl

theorem real_reads (bits : UInt64) (level : Nat) :
    Reads (unpackOne (level + 1)) [[combineType 2 8], bytes 8 bits.toNat].flatten (.real bits) := by
  intro rest
  change unpackOne (level + 1) (combineType 2 8 :: (bytes 8 bits.toNat ++ [] ++ rest)) = _
  rw [unpackOne_combine (by decide) (by decide), pushValue, if_pos rfl, List.append_nil,
    rbRead_bytes, Option.map_some]
  dsimp only
  rw [number_bytes_of_lt bits.toNat_lt, UInt64.ofNat_toNat]

theorem pointer_reads (p : UInt64) (level : Nat) :
    Reads (unpackOne (level + 1)) [[combineType 3 0], bytes 8 p.toNat].flatten (.pointer p) := by
  intro rest
  change unpackOne (level + 1) (combineType 3 0 :: (bytes 8 p.toNat ++ [] ++ rest)) = _
  rw [unpackOne_combine (by decide) (by decide), pushValue, List.append_nil,
    rbRead_bytes, Option.map_some]
  dsimp only
  rw [number_bytes_of_lt p.toNat_lt, UInt64.ofNat_toNat]

theorem string_reads (short : s.length < 2 ^ 32) (level : Nat) :
    Reads (unpackOne (level + 1)) (wbString s).flatten (.string s) := by
  intro rest
  rw [wbString]
  by_cases tiny : s.length < maxCookie
  · rw [if_pos tiny]
    have flat : ([combineType 4 s.length] :: (if s.length > 0 then [s] else [])).flatten =
        combineType 4 s.length :: s := by
      split
      · exact congrArg _ (List.append_nil s)
      · rename_i none
        rw [List.length_eq_zero_iff.mp (Nat.le_zero.mp (Nat.not_lt.mp none))]
        rfl
    rw [flat, List.cons_append, unpackOne_combine (by decide) tiny, pushValue, rbRead_append]
    rfl
  · rw [if_neg tiny]
    by_cases word : s.length < 0x10000
    · rw [if_pos word]
      change unpackOne (level + 1) (combineType 5 2 :: (bytes 2 s.length ++ (s ++ []) ++ rest)) = _
      rw [unpackOne_combine (by decide) (by decide), pushValue, if_pos (.inl rfl),
        List.append_nil, List.append_assoc, rbRead_bytes]
      change ((rbRead (number (bytes 2 s.length)) (s ++ rest)).bind _) = _
      rw [number_bytes_of_lt (by omega), rbRead_append]
      rfl
    · rw [if_neg word]
      change unpackOne (level + 1) (combineType 5 4 :: (bytes 4 s.length ++ (s ++ []) ++ rest)) = _
      rw [unpackOne_combine (by decide) (by decide), pushValue, if_pos (.inr rfl),
        List.append_nil, List.append_assoc, rbRead_bytes]
      change ((rbRead (number (bytes 4 s.length)) (s ++ rest)).bind _) = _
      rw [number_bytes_of_lt (by omega), rbRead_append]
      rfl

end Qiuqiu.Net.Seri
