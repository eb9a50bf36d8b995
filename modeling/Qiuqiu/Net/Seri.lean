import Qiuqiu.Base.Bytes
import Qiuqiu.Base.LittleEndian

/-!
The serialization of Lua values (lualib-src/lua-seri.c). Tables are shared and may contain
themselves; what is written is what is met on the way into them, 32 tables deep at most. The
words of the machine are little-endian.
-/
namespace Qiuqiu.Net.Seri
open LittleEndian

/-- A Lua value; of a table its reference, of a float its bits. -/
inductive Value where
  | nil
  | boolean (b : Bool)
  | integer (n : Int64)
  | real (bits : UInt64)
  | string (s : Bytes)
  | pointer (p : UInt64)
  | table (ref : Nat)
  | other (type : String)
  deriving Repr, DecidableEq

/-- A table: its length (`lua_rawlen`) and its entries in the order of `lua_next`, or what the
metamethod `__pairs` iterates over, unless it fails. -/
structure Table where
  rawlen : Nat
  entries : List (Value × Value)
  pairs : Option (Option (List (Value × Value)))

def Table.rawget (t : Table) (key : Value) : Value :=
  ((t.entries.find? fun e => e.1 = key).map Prod.snd).getD .nil

inductive Failure where
  | depth
  | pairs
  | type (name : String)
  deriving Repr, DecidableEq

def Failure.text : Failure → String
  | .depth => "serialize can't pack too depth table"
  | .pairs => "the error of __pairs"
  | .type name => "Unsupport type " ++ name ++ " to serialize"

/-- `COMBINE_TYPE`. -/
def combineType (t v : Nat) : UInt8 := UInt8.ofNat (t ||| v <<< 3)

def maxCookie : Nat := 32

/-- The conversion to `int32_t`. -/
def toInt32 (n : Int) : Int := signed 32 (unsigned 32 n)

/-- What `wb_integer` pushes, one after the other. -/
def wbInteger (n : Int64) : List Bytes :=
  let v := n.toInt
  if v = 0 then [[combineType 2 0]]
  else if v ≠ toInt32 v then [[combineType 2 6], bytes 8 (unsigned 64 v)]
  else if v < 0 then [[combineType 2 4], bytes 4 (unsigned 32 v)]
  else if v < 0x100 then [[combineType 2 1], bytes 1 v.toNat]
  else if v < 0x10000 then [[combineType 2 2], bytes 2 v.toNat]
  else [[combineType 2 4], bytes 4 v.toNat]

def wbString (s : Bytes) : List Bytes :=
  if s.length < maxCookie then
    [combineType 4 s.length] :: (if s.length > 0 then [s] else [])
  else if s.length < 0x10000 then [[combineType 5 2], bytes 2 s.length, s]
  else [[combineType 5 4], bytes 4 s.length, s]

/-- The begin of `wb_table_array`. -/
def wbArraySize (size : Nat) : List Bytes :=
  if size ≥ maxCookie - 1 then [combineType 6 (maxCookie - 1)] :: wbInteger (Int64.ofNat size)
  else [[combineType 6 size]]

/-- The key is one of the array. -/
def inArray (size : Nat) : Value → Bool
  | .integer x => 0 < x.toInt && x.toInt ≤ size
  | _ => false

/-- The values of a table that are written: those of the array, and each key with its value. -/
def Table.values (t : Table) : Option (Nat × List Value × List (Value × Value)) :=
  match t.pairs with
  | some none => none
  | some (some pairs) => some (0, [], pairs)
  | none =>
      some (t.rawlen, (List.range t.rawlen).map fun i => t.rawget (.integer (Int64.ofNat (i + 1))),
        t.entries.filter fun e => !inArray t.rawlen e.1)

def packAll (one : Value → Except Failure (List Bytes)) : List Value → Except Failure (List Bytes)
  | [] => .ok []
  | v :: vs => do
      let first ← one v
      let rest ← packAll one vs
      return first ++ rest

/-- `pack_one`, with the levels that are left below `MAX_DEPTH`. -/
def packOne (heap : Nat → Table) : Nat → Value → Except Failure (List Bytes)
  | 0, _ => .error .depth
  | level + 1, v =>
      match v with
      | .nil => .ok [[combineType 0 0]]
      | .boolean b => .ok [[combineType 1 (if b then 1 else 0)]]
      | .integer n => .ok (wbInteger n)
      | .real bits => .ok [[combineType 2 8], bytes 8 bits.toNat]
      | .string s => .ok (wbString s)
      | .pointer p => .ok [[combineType 3 0], bytes 8 p.toNat]
      | .table ref =>
          match (heap ref).values with
          | none => .error .pairs
          | some (size, array, pairs) => do
              let array ← packAll (packOne heap level) array
              let hash ← packAll (packOne heap level) (pairs.flatMap fun e => [e.1, e.2])
              return wbArraySize size ++ array ++ hash ++ [[combineType 0 0]]
      | .other name => .error (.type name)

/-- `BLOCK_SIZE`. -/
def blockSize : Nat := 128

/-- The blocks that are full, the one that is written, and how much has been written. -/
structure WriteBlock where
  full : List Bytes
  current : Bytes
  len : Nat

/-- `wb_push`, with the rounds that are left; each but the first fills a block. -/
def wbPush : Nat → WriteBlock → Bytes → WriteBlock
  | 0, b, _ => b
  | rounds + 1, b, buffer =>
      let b := if b.current.length = blockSize then ⟨b.full ++ [b.current], [], b.len⟩ else b
      if b.current.length + buffer.length ≤ blockSize then
        { b with current := b.current ++ buffer, len := b.len + buffer.length }
      else
        let copy := blockSize - b.current.length
        wbPush rounds
          ⟨b.full, b.current ++ buffer.take copy, b.len + copy⟩ (buffer.drop copy)

/-- `seri`: the blocks in one buffer. -/
def seri : Nat → List Bytes → Bytes
  | _, [] => []
  | len, block :: blocks =>
      if len ≥ blockSize then block ++ seri (len - blockSize) blocks else block.take len

/-- `luaseri_pack`. -/
def pack (heap : Nat → Table) (args : List Value) : Except Failure Bytes := do
  let pushes ← packAll (packOne heap 33) args
  let b := pushes.foldl (fun b buffer => wbPush (buffer.length + 1) b buffer) ⟨[], [], 0⟩
  return seri b.len (b.full ++ [b.current])

/-- A value that was read; of a table what was set in it, one after the other. -/
inductive Tree where
  | nil
  | boolean (b : Bool)
  | integer (n : Int64)
  | real (bits : UInt64)
  | string (s : Bytes)
  | pointer (p : UInt64)
  | table (sets : List (Tree × Tree))

/-- `rb_read`. -/
def rbRead (sz : Nat) (rb : Bytes) : Option (Bytes × Bytes) :=
  if rb.length < sz then none else some (rb.take sz, rb.drop sz)

def getInteger (cookie : Nat) (rb : Bytes) : Option (Int64 × Bytes) :=
  match cookie with
  | 0 => some (0, rb)
  | 1 => (rbRead 1 rb).map fun (n, rb) => (Int64.ofNat (number n), rb)
  | 2 => (rbRead 2 rb).map fun (n, rb) => (Int64.ofNat (number n), rb)
  | 4 => (rbRead 4 rb).map fun (n, rb) => (Int64.ofInt (signed 32 (number n)), rb)
  | 6 => (rbRead 8 rb).map fun (n, rb) => (Int64.ofInt (signed 64 (number n)), rb)
  | _ => none

/-- `lua_rawset` takes no NaN. -/
def isNaN : Tree → Bool
  | .real bits => (bits &&& 0x7fffffffffffffff) > 0x7ff0000000000000
  | _ => false

def unpackArray (one : Bytes → Option (Tree × Bytes)) : Nat → Bytes → Option (List Tree × Bytes)
  | 0, rb => some ([], rb)
  | size + 1, rb => do
      let (v, rb) ← one rb
      let (vs, rb) ← unpackArray one size rb
      return (v :: vs, rb)

/-- The pairs up to nil, with the rounds that are left. -/
def unpackHash (one : Bytes → Option (Tree × Bytes)) :
    Nat → Bytes → Option (List (Tree × Tree) × Bytes)
  | 0, _ => none
  | rounds + 1, rb => do
      let (k, rb) ← one rb
      match k with
      | .nil => return ([], rb)
      | k =>
          let (v, rb) ← one rb
          if isNaN k then none
          else
            let (sets, rb) ← unpackHash one rounds rb
            return ((k, v) :: sets, rb)

/-- The array size that `unpack_table` reads. -/
def arraySize (cookie : Nat) (rb : Bytes) : Option (Nat × Bytes) :=
  if cookie = maxCookie - 1 then
    match rb with
    | [] => none
    | type :: rb =>
        if (type &&& 7).toNat ≠ 2 ∨ (type >>> 3).toNat = 8 then none
        else (getInteger (type >>> 3).toNat rb).map fun (n, rb) => ((toInt32 n.toInt).toNat, rb)
  else some (cookie, rb)

/-- The array is set from 1 on. -/
def arraySets (array : List Tree) : List (Tree × Tree) :=
  array.zipIdx.map fun x => (.integer (Int64.ofNat (x.2 + 1)), x.1)

def unpackTable (one : Bytes → Option (Tree × Bytes)) (cookie : Nat) (rb : Bytes) :
    Option (Tree × Bytes) := do
  let (size, rb) ← arraySize cookie rb
  let (array, rb) ← unpackArray one size rb
  let (sets, rb) ← unpackHash one rb.length rb
  return (.table (arraySets array ++ sets), rb)

def pushValue (one : Bytes → Option (Tree × Bytes)) (type cookie : Nat) (rb : Bytes) :
    Option (Tree × Bytes) :=
  match type with
  | 0 => some (.nil, rb)
  | 1 => some (.boolean (cookie ≠ 0), rb)
  | 2 =>
      if cookie = 8 then (rbRead 8 rb).map fun (n, rb) => (.real (UInt64.ofNat (number n)), rb)
      else (getInteger cookie rb).map fun (n, rb) => (.integer n, rb)
  | 3 => (rbRead 8 rb).map fun (p, rb) => (.pointer (UInt64.ofNat (number p)), rb)
  | 4 => (rbRead cookie rb).map fun (s, rb) => (.string s, rb)
  | 5 =>
      if cookie = 2 ∨ cookie = 4 then do
        let (n, rb) ← rbRead cookie rb
        let (s, rb) ← rbRead (number n) rb
        return (.string s, rb)
      else none
  | 6 => unpackTable one cookie rb
  | _ => none

/-- `unpack_one`, with the levels that are left; each takes a byte. -/
def unpackOne : Nat → Bytes → Option (Tree × Bytes)
  | 0, _ => none
  | _ + 1, [] => none
  | level + 1, type :: rb =>
      pushValue (unpackOne level) (type &&& 7).toNat (type >>> 3).toNat rb

/-- The loop of `luaseri_unpack`, with the rounds that are left. -/
def unpackLoop (one : Bytes → Option (Tree × Bytes)) : Nat → Bytes → Option (List Tree)
  | _, [] => some []
  | 0, _ => none
  | rounds + 1, rb => do
      let (v, rb) ← one rb
      let vs ← unpackLoop one rounds rb
      return v :: vs

/-- `luaseri_unpack`; nothing when the stream is invalid. -/
def unpack (buffer : Bytes) : Option (List Tree) :=
  unpackLoop (unpackOne buffer.length) buffer.length buffer

end Qiuqiu.Net.Seri
