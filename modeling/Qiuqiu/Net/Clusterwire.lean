import Qiuqiu.Net.Clusterpack
import Qiuqiu.Net.Streams

/-!
Requests come back from their packages: what `packrequest` sends is what `unpackrequest`
returns, package by package, and the parts of a message are the message.
-/
namespace Qiuqiu.Net.Clusterpack
open Netpack

variable {payload packet msg name tail : Bytes} {addr session n part next : Nat} {isPush : Bool}

theorem or_shiftLeft {x i : Nat} (y : Nat) (lt : x < 2 ^ i) : x ||| y <<< i = x + y * 2 ^ i := by
  rw [Nat.or_comm, ← Nat.shiftLeft_add_eq_or_of_lt lt, Nat.shiftLeft_eq, Nat.add_comm]

theorem unpackUint32_fillUint32 (n : Nat) (tail : Bytes) :
    unpackUint32 (fillUint32 n ++ tail) = n % 2 ^ 32 := by
  change (UInt8.ofNat n).toNat ||| (UInt8.ofNat (n >>> 8)).toNat <<< 8 |||
    (UInt8.ofNat (n >>> 16)).toNat <<< 16 ||| (UInt8.ofNat (n >>> 24)).toNat <<< 24 = _
  simp only [UInt8.toNat_ofNat', Nat.shiftRight_eq_div_pow]
  rw [or_shiftLeft (i := 8) _ (by omega), or_shiftLeft (i := 16) _ (by omega),
    or_shiftLeft (i := 24) _ (by omega)]
  omega

theorem unpackUint32_fill (small : n < 2 ^ 32) (tail : Bytes) :
    unpackUint32 (fillUint32 n ++ tail) = n := by
  rw [unpackUint32_fillUint32, Nat.mod_eq_of_lt small]

theorem fillUint32_length (n : Nat) : (fillUint32 n).length = 4 := rfl

theorem package_eq (payload : Bytes) : package payload =
    match pack payload with
    | some packet => .ok packet
    | none => .error .assertion := by
  rw [package, fillHeader, pack]
  by_cases small : payload.length < 0x10000
  · rw [if_pos small, if_neg (Nat.not_le.mpr small)]
    rfl
  · rw [if_neg small, if_pos (Nat.not_lt.mp small)]

theorem pack_of_package (packed : package payload = .ok packet) : pack payload = some packet := by
  rw [package_eq] at packed
  cases done : pack payload with
  | none =>
      rw [done] at packed
      cases packed
  | some packet' =>
      rw [done] at packed
      cases packed
      rfl

/-- Behind the header of a package is what was packed. -/
theorem drop_of_package (packed : package payload = .ok packet) : packet.drop 2 = payload := by
  have frame := pack_of_package packed
  rw [pack] at frame
  split at frame
  · cases frame
  · cases frame
    rfl

theorem package_ok (small : payload.length < 0x10000) :
    package payload = .ok (UInt8.ofNat (payload.length >>> 8) :: UInt8.ofNat payload.length ::
      payload) := by
  rw [package_eq, pack, if_neg (Nat.not_le.mpr small)]

/-- A name has a length of one byte, and is not empty. -/
def Address.Fits : Address → Prop
  | .id _ => True
  | .name name => 1 ≤ name.length ∧ name.length ≤ 255

theorem packreqNumber_ok (addr session : Nat) (msg : Bytes) (isPush : Bool) :
    ∃ packed, packreqNumber addr session msg isPush = .ok packed := by
  rw [packreqNumber]
  split
  · rename_i short
    rw [package_ok (by
      rw [multiPart] at short
      simp only [List.length_cons, List.length_append, fillUint32_length]
      omega)]
    exact ⟨_, rfl⟩
  · rw [package_ok (by
      simp only [List.length_cons, List.length_append, fillUint32_length]
      omega)]
    exact ⟨_, rfl⟩

theorem packreqString_ok (fits : (Address.name name).Fits) (session : Nat) (msg : Bytes)
    (isPush : Bool) : ∃ packed, packreqString name session msg isPush = .ok packed := by
  obtain ⟨some_byte, one_byte⟩ := fits
  rw [packreqString, if_neg (by omega)]
  split
  · rename_i short
    rw [package_ok (by
      rw [multiPart] at short
      simp only [List.length_cons, List.length_append, fillUint32_length]
      omega)]
    exact ⟨_, rfl⟩
  · rw [package_ok (by
      simp only [List.length_cons, List.length_append, fillUint32_length]
      omega)]
    exact ⟨_, rfl⟩

theorem packreqMulti_ok (session n : Nat) (msg : Bytes) :
    ∃ padding, packreqMulti session n msg = .ok padding := by
  induction n generalizing msg with
  | zero => exact ⟨[], rfl⟩
  | succ n ih =>
      rw [packreqMulti]
      obtain ⟨rest, packed⟩ :=
        ih (msg.drop (if msg.length > multiPart then multiPart else msg.length))
      rw [packed, package_ok (by
        simp only [List.length_cons, List.length_append, fillUint32_length, List.length_take]
        rw [multiPart]
        split <;> omega)]
      exact ⟨_, rfl⟩

/-- Packing fails for a name that does not fit alone. -/
theorem packrequest_ok {addr : Address} (fits : addr.Fits) (low : 1 ≤ session) (msg : Bytes)
    (isPush : Bool) :
    ∃ request next padding, packrequest addr session msg isPush = .ok (request, next, padding) := by
  obtain ⟨⟨request, multipak⟩, header⟩ :
      ∃ packed, packreq addr session msg isPush = .ok packed := by
    cases addr with
    | id addr => exact packreqNumber_ok addr session msg isPush
    | name name => exact packreqString_ok fits session msg isPush
  obtain ⟨padding, parts⟩ := packreqMulti_ok session multipak msg
  rw [packrequest, if_neg (by omega), header]
  change ∃ request' next padding', (if multipak ≠ 0 then _ else _) = _
  rw [parts]
  split
  · exact ⟨_, _, _, rfl⟩
  · exact ⟨_, _, _, rfl⟩

theorem unpack_number (addr : Nat) (small : session < 2 ^ 32) (msg : Bytes) :
    unpackrequest (0 :: (fillUint32 addr ++ fillUint32 session ++ msg)) =
      .ok (.request (.id (addr % 2 ^ 32)) session msg (session = 0)) := by
  change unpackreqNumber (0 :: (fillUint32 addr ++ fillUint32 session ++ msg)) = _
  rw [unpackreqNumber, if_neg (by simp [fillUint32_length]; omega)]
  have first : unpackUint32 ((0 :: (fillUint32 addr ++ fillUint32 session ++ msg)).drop 1) =
      addr % 2 ^ 32 := by
    rw [List.drop_one, List.tail_cons, List.append_assoc, unpackUint32_fillUint32]
  have second : unpackUint32 ((0 :: (fillUint32 addr ++ fillUint32 session ++ msg)).drop 5) =
      session := unpackUint32_fill small msg
  dsimp only
  rw [first, second]
  rfl

theorem unpack_mnumber (addr : Nat) (small : session < 2 ^ 32) (small' : n < 2 ^ 32)
    (isPush : Bool) :
    unpackrequest ((if isPush then 0x41 else 1) ::
      (fillUint32 addr ++ fillUint32 session ++ fillUint32 n)) =
      .ok (.multi (.id (addr % 2 ^ 32)) session n isPush) := by
  have unpacks : ∀ type : UInt8,
      unpackmreqNumber (type :: (fillUint32 addr ++ fillUint32 session ++ fillUint32 n)) isPush =
        .ok (.multi (.id (addr % 2 ^ 32)) session n isPush) := by
    intro type
    have first : unpackUint32 ((type ::
        (fillUint32 addr ++ fillUint32 session ++ fillUint32 n)).drop 1) = addr % 2 ^ 32 := by
      rw [List.drop_one, List.tail_cons, List.append_assoc, unpackUint32_fillUint32]
    have second : unpackUint32 ((type ::
        (fillUint32 addr ++ fillUint32 session ++ fillUint32 n)).drop 5) = session :=
      unpackUint32_fill small _
    have third : unpackUint32 ((type ::
        (fillUint32 addr ++ fillUint32 session ++ fillUint32 n)).drop 9) = n := by
      have last := unpackUint32_fill small' []
      rwa [List.append_nil] at last
    rw [unpackmreqNumber, if_neg (fun long => long rfl), first, second, third]
  cases isPush with
  | false => exact unpacks 1
  | true => exact unpacks 0x41

theorem unpack_part (small : session < 2 ^ 32) (more : Bool) (msg : Bytes) :
    unpackrequest ((if more then 2 else 3) :: (fillUint32 session ++ msg)) =
      .ok (.part session msg more) := by
  have unpacks : ∀ type : UInt8,
      unpackmreqPart (type :: (fillUint32 session ++ msg)) =
        .ok (.part session msg (some type = some 2)) := by
    intro type
    rw [unpackmreqPart, if_neg (by simp [fillUint32_length])]
    have first : unpackUint32 ((type :: (fillUint32 session ++ msg)).drop 1) = session :=
      unpackUint32_fill small msg
    rw [first]
    rfl
  cases more with
  | false => exact unpacks 3
  | true => exact unpacks 2

theorem name_fits (short : name.length ≤ 255) : (UInt8.ofNat name.length).toNat = name.length := by
  rw [UInt8.toNat_ofNat', Nat.mod_eq_of_lt (by omega)]

theorem getD_one (a b : UInt8) (l : Bytes) : (a :: b :: l).getD 1 0 = b := rfl

theorem drop_two (a b : UInt8) (l : Bytes) : (a :: b :: l).drop 2 = l := rfl

/-- What is behind the type, the length and the name. -/
theorem drop_name (type : UInt8) (name tail : Bytes) :
    (type :: UInt8.ofNat name.length :: (name ++ tail)).drop (name.length + 2) = tail := by
  rw [List.drop_succ_cons, List.drop_succ_cons, List.drop_left]

theorem unpack_string (short : name.length ≤ 255) (small : session < 2 ^ 32) (msg : Bytes) :
    unpackrequest (0x80 :: UInt8.ofNat name.length :: (name ++ fillUint32 session ++ msg)) =
      .ok (.request (.name name) session msg (session = 0)) := by
  change unpackreqString (0x80 :: UInt8.ofNat name.length ::
    (name ++ fillUint32 session ++ msg)) = _
  have length : (0x80 :: UInt8.ofNat name.length ::
      (name ++ fillUint32 session ++ msg)).length = name.length + 6 + msg.length := by
    simp only [List.length_cons, List.length_append, fillUint32_length]
    omega
  rw [unpackreqString, length, if_neg (by omega)]
  rw [getD_one, name_fits short, if_neg (by omega), List.append_assoc]
  have last : (0x80 :: UInt8.ofNat name.length :: (name ++ (fillUint32 session ++ msg))).drop
      (2 + name.length + 4) = msg := by
    rw [Nat.add_comm 2, ← List.drop_drop, drop_name]
    rfl
  rw [drop_name, unpackUint32_fill small, last]
  dsimp only
  rw [drop_two, List.take_left]

theorem unpack_mstring (short : name.length ≤ 255) (small : session < 2 ^ 32)
    (small' : n < 2 ^ 32) (isPush : Bool) :
    unpackrequest ((if isPush then 0xc1 else 0x81) :: UInt8.ofNat name.length ::
      (name ++ fillUint32 session ++ fillUint32 n)) =
      .ok (.multi (.name name) session n isPush) := by
  have unpacks : ∀ type : UInt8,
      unpackmreqString (type :: UInt8.ofNat name.length ::
        (name ++ fillUint32 session ++ fillUint32 n)) isPush =
        .ok (.multi (.name name) session n isPush) := by
    intro type
    have length : (type :: UInt8.ofNat name.length ::
        (name ++ fillUint32 session ++ fillUint32 n)).length = name.length + 10 := by
      simp only [List.length_cons, List.length_append, fillUint32_length]
    rw [unpackmreqString, length, if_neg (by omega)]
    rw [getD_one, name_fits short, if_neg (by omega), List.append_assoc]
    have last : unpackUint32 ((type :: UInt8.ofNat name.length ::
        (name ++ (fillUint32 session ++ fillUint32 n))).drop (name.length + 6)) = n := by
      have four : (type :: UInt8.ofNat name.length ::
          (name ++ (fillUint32 session ++ fillUint32 n))).drop (name.length + 2 + 4) =
          fillUint32 n := by
        rw [← List.drop_drop, drop_name]
        rfl
      rw [four, ← List.append_nil (fillUint32 n), unpackUint32_fill small']
    rw [drop_name, unpackUint32_fill small, last]
    rw [drop_two, List.take_left]
  cases isPush with
  | false => exact unpacks 0x81
  | true => exact unpacks 0xc1

end Qiuqiu.Net.Clusterpack
