import Mathlib.Algebra.Group.Nat.Defs
import Qiuqiu.Base.Bytes
import Qiuqiu.Base.Framing
import Qiuqiu.Base.Ring

/-!
The packages of sockets (lualib-src/lua-netpack.c). A package is a word with its length, the
high byte first, and its data. What a read leaves over waits in a table hashed by the socket,
whole packages behind the first of a read wait in a queue.
-/
namespace Qiuqiu.Net.Netpack

/-- `struct netpack`. -/
structure Pack where
  id : Nat
  size : Nat
  buffer : Bytes
  deriving Repr, DecidableEq

instance : Inhabited Pack := ⟨⟨0, 0, []⟩⟩

/-- A package that is not complete; of its buffer, the bytes that have come. `read` is -1
while one byte of the length is missing. -/
structure Uncomplete where
  pack : Pack
  read : Int
  header : UInt8
  deriving Repr, DecidableEq

/-- `QUEUESIZE`. -/
def queueSize : Nat := 1024

/-- `HASHSIZE`. -/
def hashSize : Nat := 4096

/-- The queue; `NULL` is the empty one. -/
structure Queue where
  ring : Ring Pack
  hash : Nat → List Uncomplete

def hashFd (fd : Nat) : Nat := ((fd >>> 24 + fd >>> 12 + fd) % 2 ^ 32) % hashSize

/-- A chain of the table without the package of a socket, and this package. -/
def findChain (fd : Nat) : List Uncomplete → Option (Uncomplete × List Uncomplete)
  | [] => none
  | uc :: next =>
      if uc.pack.id = fd then some (uc, next)
      else (findChain fd next).map fun found => (found.1, uc :: found.2)

namespace Queue

def empty : Queue where
  ring := Ring.empty queueSize
  hash := fun _ => []

/-- `find_uncomplete`, which takes the package out. -/
def findUncomplete (q : Queue) (fd : Nat) : Option (Uncomplete × Queue) :=
  (findChain fd (q.hash (hashFd fd))).map fun found =>
    (found.1, { q with hash := Function.update q.hash (hashFd fd) found.2 })

def saveUncomplete (q : Queue) (uc : Uncomplete) : Queue :=
  let h := hashFd uc.pack.id
  { q with hash := Function.update q.hash h (uc :: q.hash h) }

/-- `push_data`, with `expand_queue`. -/
def pushData (q : Queue) (fd : Nat) (buffer : Bytes) (size : Nat) : Queue :=
  { q with ring := q.ring.push (· + queueSize) ⟨fd, size, buffer⟩ }

end Queue

def readSize (high low : UInt8) : Nat := high.toNat <<< 8 ||| low.toNat

/-- A package of which one byte has come. -/
def startHeader (fd : Nat) (byte : UInt8) : Uncomplete := ⟨⟨fd, 0, []⟩, -1, byte⟩

/-- A package whose length and some data have come. -/
def startData (fd size : Nat) (buffer : Bytes) : Uncomplete :=
  ⟨⟨fd, size, buffer⟩, buffer.length, 0⟩

/-- `push_more`, with the rounds that are left; each takes two bytes at least. -/
def pushMore : Nat → Queue → Nat → Bytes → Queue
  | 0, q, _, _ => q
  | _ + 1, q, _, [] => q
  | _ + 1, q, fd, [byte] => q.saveUncomplete (startHeader fd byte)
  | rounds + 1, q, fd, high :: low :: buffer =>
      let packSize := readSize high low
      if buffer.length < packSize then q.saveUncomplete (startData fd packSize buffer)
      else
        let q := q.pushData fd (buffer.take packSize) packSize
        if 0 < buffer.length - packSize then pushMore rounds q fd (buffer.drop packSize) else q

/-- What the filter returns beside the queue. -/
inductive Result where
  | data (fd : Nat) (buffer : Bytes) (size : Nat)
  | more
  | error (fd : Nat) (msg : Bytes)
  | open (fd : Nat) (msg : Bytes)
  | close (fd : Nat)
  | warning (fd : Nat) (size : Nat)
  | init (fd : Nat) (addr : Bytes) (port : Nat)
  deriving Repr, DecidableEq

/-- The end of a package that was not complete, with the bytes behind its length. -/
def fillUncomplete (q : Queue) (fd : Nat) (uc : Uncomplete) (buffer : Bytes) :
    Queue × Option Result :=
  let need := uc.pack.size - uc.read.toNat
  let filled := uc.pack.buffer.take uc.read.toNat ++ buffer.take need
  if buffer.length < need then
    let pack := { uc.pack with buffer := filled }
    (q.saveUncomplete { uc with pack := pack, read := uc.read + buffer.length }, none)
  else if buffer.length - need = 0 then (q, some (.data fd filled uc.pack.size))
  else
    let q := q.pushData fd filled uc.pack.size
    (pushMore buffer.length q fd (buffer.drop need), some .more)

/-- `filter_data_` on the bytes of a read, of which there is one at least. -/
def filterData (q : Queue) (fd : Nat) (byte : UInt8) (buffer : Bytes) : Queue × Option Result :=
  match q.findUncomplete fd with
  | some (uc, q) =>
      if uc.read < 0 then
        let packSize := byte.toNat ||| uc.header.toNat <<< 8
        let uc := { uc with pack := { uc.pack with size := packSize, buffer := [] }, read := 0 }
        fillUncomplete q fd uc buffer
      else fillUncomplete q fd uc (byte :: buffer)
  | none =>
      match buffer with
      | [] => (q.saveUncomplete (startHeader fd byte), none)
      | low :: buffer =>
          let packSize := readSize byte low
          if buffer.length < packSize then (q.saveUncomplete (startData fd packSize buffer), none)
          else if buffer.length = packSize then (q, some (.data fd buffer buffer.length))
          else
            let q := q.pushData fd (buffer.take packSize) packSize
            (pushMore buffer.length q fd (buffer.drop packSize), some .more)

def closeUncomplete (q : Queue) (fd : Nat) : Queue :=
  match q.findUncomplete fd with
  | some (_, q) => q
  | none => q

/-- A message of the socket server. -/
inductive SocketMessage where
  | data (id : Nat) (byte : UInt8) (buffer : Bytes)
  | connect (id : Nat) (addr : Bytes) (ud : Nat)
  | close (id : Nat)
  | accept (id : Nat) (ud : Nat) (addr : Bytes)
  | error (id : Nat) (msg : Bytes)
  | warning (id : Nat) (ud : Nat)
  deriving Repr, DecidableEq

/-- `lfilter`. -/
def filter (q : Queue) : SocketMessage → Queue × Option Result
  | .data id byte buffer => filterData q id byte buffer
  | .connect id addr ud => (q, some (.init id addr ud))
  | .close id => (closeUncomplete q id, some (.close id))
  | .accept _ ud addr => (q, some (.open ud addr))
  | .error id msg => (closeUncomplete q id, some (.error id msg))
  | .warning id ud => (q, some (.warning id ud))

/-- `lpop`. -/
def pop (q : Queue) : Option (Pack × Queue) :=
  q.ring.pop.map fun popped => (popped.1, { q with ring := popped.2 })

/-- `lpack`: a length and its data, or nothing for data that are too long. -/
def pack (data : Bytes) : Option Bytes :=
  if data.length ≥ 0x10000 then none
  else some (UInt8.ofNat (data.length >>> 8) :: UInt8.ofNat data.length :: data)

end Qiuqiu.Net.Netpack
