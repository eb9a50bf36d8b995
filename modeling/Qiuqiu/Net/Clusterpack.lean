import Mathlib.Algebra.Group.Nat.Defs
import Qiuqiu.Base.Bytes

/-!
The packages between the nodes of a cluster (lualib-src/lua-cluster.c). A message longer than
32K goes in parts behind a package that tells its size. Words are big-endian, double words
little-endian.
-/
namespace Qiuqiu.Net.Clusterpack

/-- `MULTI_PART`. -/
def multiPart : Nat := 0x8000

def fillUint32 (n : Nat) : Bytes :=
  [UInt8.ofNat n, UInt8.ofNat (n >>> 8), UInt8.ofNat (n >>> 16), UInt8.ofNat (n >>> 24)]

/-- The header of a package; nothing when the assertion fails. -/
def fillHeader (sz : Nat) : Option Bytes :=
  if sz < 0x10000 then some [UInt8.ofNat (sz >>> 8), UInt8.ofNat sz] else none

inductive Address where
  | id (addr : Nat)
  | name (name : Bytes)
  deriving Repr, DecidableEq

inductive Failure where
  | session (session : Nat)
  | name (name : Bytes)
  | assertion
  deriving Repr, DecidableEq

def Failure.text : Failure → Bytes
  | .session n => ascii ("Invalid request session " ++ toString n)
  | .name s => ascii "name is too long " ++ s
  | .assertion => ascii "sz < 0x10000"

/-- A package: its header and what is behind it. -/
def package (payload : Bytes) : Except Failure Bytes :=
  match fillHeader payload.length with
  | some header => .ok (header ++ payload)
  | none => .error .assertion

/-- `packreq_number`: the package, and how many parts follow. -/
def packreqNumber (addr session : Nat) (msg : Bytes) (isPush : Bool) :
    Except Failure (Bytes × Nat) :=
  if msg.length < multiPart then
    (package (0 :: (fillUint32 addr ++ fillUint32 (if isPush then 0 else session) ++ msg))).map
      fun request => (request, 0)
  else
    (package ((if isPush then 0x41 else 1) ::
      (fillUint32 addr ++ fillUint32 session ++ fillUint32 msg.length))).map
      fun request => (request, (msg.length - 1) / multiPart + 1)

def packreqString (name : Bytes) (session : Nat) (msg : Bytes) (isPush : Bool) :
    Except Failure (Bytes × Nat) :=
  if name.length < 1 ∨ name.length > 255 then .error (.name name)
  else if msg.length < multiPart then
    (package (0x80 :: UInt8.ofNat name.length ::
      (name ++ fillUint32 (if isPush then 0 else session) ++ msg))).map
      fun request => (request, 0)
  else
    (package ((if isPush then 0xc1 else 0x81) :: UInt8.ofNat name.length ::
      (name ++ fillUint32 session ++ fillUint32 msg.length))).map
      fun request => (request, (msg.length - 1) / multiPart + 1)

/-- `packreq_multi`, with the parts that are left. -/
def packreqMulti (session : Nat) : Nat → Bytes → Except Failure (List Bytes)
  | 0, _ => .ok []
  | part + 1, msg => do
      let s := if msg.length > multiPart then multiPart else msg.length
      let type : UInt8 := if msg.length > multiPart then 2 else 3
      let first ← package (type :: (fillUint32 session ++ msg.take s))
      let rest ← packreqMulti session part (msg.drop s)
      return first :: rest

def packreq (addr : Address) (session : Nat) (msg : Bytes) (isPush : Bool) :
    Except Failure (Bytes × Nat) :=
  match addr with
  | .id addr => packreqNumber addr session msg isPush
  | .name name => packreqString name session msg isPush

/-- `packrequest`: the request, the next session and the parts that follow. -/
def packrequest (addr : Address) (session : Nat) (msg : Bytes) (isPush : Bool) :
    Except Failure (Bytes × Nat × List Bytes) :=
  if session = 0 then .error (.session session)
  else
    packreq addr session msg isPush >>= fun (request, multipak) =>
      let newSession := if session + 1 > 0x7fffffff then 1 else session + 1
      if multipak ≠ 0 then
        (packreqMulti session multipak msg).map fun padding => (request, newSession, padding)
      else .ok (request, newSession, [])

def unpackUint32 : Bytes → Nat
  | a :: b :: c :: d :: _ =>
      a.toNat ||| b.toNat <<< 8 ||| c.toNat <<< 16 ||| d.toNat <<< 24
  | _ => 0

/-- What `unpackrequest` returns: a request, a request whose message follows in parts, a part
and whether more follow, or a tag. -/
inductive Unpacked where
  | request (addr : Address) (session : Nat) (msg : Bytes) (isPush : Bool)
  | multi (addr : Address) (session size : Nat) (isPush : Bool)
  | part (session : Nat) (msg : Bytes) (padding : Bool)
  | trace (tag : Bytes)
  deriving Repr, DecidableEq

/-- Where `unpackrequest` fails, with the number its message names. -/
inductive Invalid where
  | empty
  | message (size : Nat)
  | multi (size : Nat)
  | part
  | type (type : Int)
  deriving Repr, DecidableEq

def Invalid.text : Invalid → String
  | .empty => "Invalid req package. size == 0"
  | .message size => "Invalid cluster message (size=" ++ toString size ++ ")"
  | .multi size =>
      "Invalid cluster message size " ++ toString size ++ " (multi req must be 13)"
  | .part => "Invalid cluster multi part message"
  | .type n => "Invalid req package type " ++ toString n

def unpackreqNumber (buf : Bytes) : Except Invalid Unpacked :=
  if buf.length < 9 then .error (.message buf.length)
  else
    let session := unpackUint32 (buf.drop 5)
    .ok (.request (.id (unpackUint32 (buf.drop 1))) session (buf.drop 9) (session = 0))

def unpackmreqNumber (buf : Bytes) (isPush : Bool) : Except Invalid Unpacked :=
  if buf.length ≠ 13 then .error (.multi buf.length)
  else
    .ok (.multi (.id (unpackUint32 (buf.drop 1))) (unpackUint32 (buf.drop 5))
      (unpackUint32 (buf.drop 9)) isPush)

def unpackmreqPart (buf : Bytes) : Except Invalid Unpacked :=
  if buf.length < 5 then .error .part
  else .ok (.part (unpackUint32 (buf.drop 1)) (buf.drop 5) (buf[0]? = some 2))

def unpackreqString (buf : Bytes) : Except Invalid Unpacked :=
  if buf.length < 2 then .error (.message buf.length)
  else
    let namesz := (buf.getD 1 0).toNat
    if buf.length < namesz + 6 then .error (.message buf.length)
    else
      let session := unpackUint32 (buf.drop (namesz + 2))
      .ok (.request (.name ((buf.drop 2).take namesz)) session (buf.drop (2 + namesz + 4))
        (session = 0))

def unpackmreqString (buf : Bytes) (isPush : Bool) : Except Invalid Unpacked :=
  if buf.length < 2 then .error (.message buf.length)
  else
    let namesz := (buf.getD 1 0).toNat
    if buf.length < namesz + 10 then .error (.message buf.length)
    else
      .ok (.multi (.name ((buf.drop 2).take namesz)) (unpackUint32 (buf.drop (namesz + 2)))
        (unpackUint32 (buf.drop (namesz + 6))) isPush)

/-- `lunpackrequest`. -/
def unpackrequest (msg : Bytes) : Except Invalid Unpacked :=
  match msg with
  | [] => .error .empty
  | type :: tag =>
      if type = 0 then unpackreqNumber msg
      else if type = 1 then unpackmreqNumber msg false
      else if type = 0x41 then unpackmreqNumber msg true
      else if type = 2 ∨ type = 3 then unpackmreqPart msg
      else if type = 4 then .ok (.trace tag)
      else if type = 0x80 then unpackreqString msg
      else if type = 0x81 then unpackmreqString msg false
      else if type = 0xc1 then unpackmreqString msg true
      else .error (.type (if type < 0x80 then type.toNat else type.toNat - 256))

/-- An entry of the table in which the parts are collected. -/
inductive Item where
  | size (sz : Nat)
  | string (s : Bytes)
  deriving Repr, DecidableEq

/-- The loop of `lconcat`, with what has been copied. -/
def concatStrings (sz : Nat) (buff : Bytes) : List Item → Option Bytes
  | .string s :: items =>
      if s.length + buff.length > sz then none else concatStrings sz (buff ++ s) items
  | _ => if buff.length ≠ sz then none else some buff

/-- `lconcat`. -/
def concat : List Item → Option Bytes
  | .size sz :: items => concatStrings sz [] items
  | _ => none

/-- `lpackresponse`: a package, or those of a response in parts. -/
def packresponseParts (session : Nat) : Nat → Bytes → Except Failure (List Bytes)
  | 0, _ => .ok []
  | part + 1, msg => do
      let s := if msg.length > multiPart then multiPart else msg.length
      let type : UInt8 := if msg.length > multiPart then 3 else 4
      let first ← package (fillUint32 session ++ type :: msg.take s)
      let rest ← packresponseParts session part (msg.drop s)
      return first :: rest

def packresponse (session : Nat) (ok : Bool) (msg : Bytes) : Except Failure (List Bytes) := do
  if ok = true ∧ msg.length > multiPart then
    let first ← package (fillUint32 session ++ 2 :: fillUint32 msg.length)
    let rest ← packresponseParts session ((msg.length - 1) / multiPart + 1) msg
    return first :: rest
  else
    -- an error message that is too long is truncated
    let msg := if msg.length > multiPart then msg.take multiPart else msg
    let response ← package (fillUint32 session ++ (if ok then 1 else 0) :: msg)
    return [response]

/-- What `unpackresponse` returns behind the session. -/
inductive Response where
  | error (msg : Bytes)
  | ok (msg : Bytes)
  | begin (size : Nat)
  | part (msg : Bytes)
  deriving Repr, DecidableEq

/-- `lunpackresponse`; nothing when the package is invalid. -/
def unpackresponse (buf : Bytes) : Option (Nat × Response) :=
  if buf.length < 5 then none
  else
    let session := unpackUint32 buf
    let type := buf.getD 4 0
    if type = 0 then some (session, .error (buf.drop 5))
    else if type = 1 ∨ type = 4 then some (session, .ok (buf.drop 5))
    else if type = 2 then
      if buf.length ≠ 9 then none else some (session, .begin (unpackUint32 (buf.drop 5)))
    else if type = 3 then some (session, .part (buf.drop 5))
    else none

end Qiuqiu.Net.Clusterpack
