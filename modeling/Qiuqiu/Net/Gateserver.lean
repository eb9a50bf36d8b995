import Qiuqiu.Base.Machine
import Qiuqiu.Net.Streams

/-!
The gate (lualib/snax/gateserver.lua). Messages of the socket server go through the filter of
packages; packages in the queue are dispatched by coroutines, each of which forks another
before it calls the handler, since the handler may block, or fail. A step is what runs between
two points where a coroutine can be left; a message of the socket server is taken when all
forks have begun.
-/
namespace Qiuqiu.Net.Gateserver
open Netpack

structure State where
  queue : Queue
  /-- `true`: connected; `none`: closed; `false`: close read. -/
  connection : Nat → Option Bool
  clientNumber : Int
  socket : Option Nat
  /-- Coroutines of `dispatch_queue` that have not begun. -/
  forks : Nat
  /-- Coroutines in the handler of their first package. -/
  first : Nat
  /-- Coroutines in the handler of a later package, with the size of the queue they read;
  a queue that was expanded is another one, and empty. -/
  loops : List Nat
  /-- The sockets that the socket server has accepted here and not closed. -/
  accepted : List Nat

/-- What the gate does. -/
inductive Action where
  | message (fd : Nat) (msg : Bytes) (size : Nat)
  | drop (fd : Nat) (msg : Bytes) (size : Nat)
  | connect (fd : Nat) (msg : Bytes)
  | disconnect (fd : Nat)
  | error (fd : Nat) (msg : Bytes)
  | acceptError (msg : Bytes)
  | warning (fd : Nat) (size : Nat)
  | shutdown (fd : Nat)
  | start (fd : Nat)
  | close (fd : Nat)
  deriving Repr, DecidableEq

inductive Event where
  | message (m : SocketMessage)
  | fork
  | first
  | loop (cap : Nat)
  | failFirst
  | failLoop (cap : Nat)
  | listen (id : Nat)
  | openclient (fd : Nat)
  | closeclient (fd : Nat)

namespace State
variable (s : State)

def init : State where
  queue := .empty
  connection := fun _ => none
  clientNumber := 0
  socket := none
  forks := 0
  first := 0
  loops := []
  accepted := []

def dispatchMsg (fd : Nat) (msg : Bytes) (size : Nat) : Action :=
  if s.connection fd = some true then .message fd msg size else .drop fd msg size

/-- `MSG.open`. -/
def msgOpen (maxclient : Int) (fd : Nat) (msg : Bytes) : State × List Action :=
  let s := { s with clientNumber := s.clientNumber + 1 }
  if s.clientNumber ≥ maxclient then (s, [.shutdown fd])
  else ({ s with connection := Function.update s.connection fd (some true) }, [.connect fd msg])

/-- `MSG.close`. -/
def msgClose (fd : Nat) : State × List Action :=
  if some fd ≠ s.socket then
    let s := { s with clientNumber := s.clientNumber - 1 }
    if s.connection fd = some true then
      ({ s with connection := Function.update s.connection fd (some false) }, [.disconnect fd])
    else (s, [.disconnect fd])
  else ({ s with socket := none }, [])

/-- `MSG.error`. -/
def msgError (fd : Nat) (msg : Bytes) : List Action :=
  if some fd = s.socket then [.acceptError msg] else [.shutdown fd, .error fd msg]

/-- The function `dispatch` of the protocol, with what the filter has returned. -/
def dispatch (maxclient : Int) : Option Result → State × List Action
  | none => (s, [])
  | some (.data fd msg size) => (s, [s.dispatchMsg fd msg size])
  | some .more => ({ s with forks := s.forks + 1 }, [])
  | some (.error fd msg) => (s, s.msgError fd msg)
  | some (.open fd msg) => s.msgOpen maxclient fd msg
  | some (.close fd) => s.msgClose fd
  | some (.warning fd size) => (s, [.warning fd size])
  | some (.init ..) => (s, [])

/-- What the socket server promises: a socket is closed once behind each time it is accepted. -/
def account : SocketMessage → Option State
  | .accept _ ud _ => if ud ∈ s.accepted then none else some { s with accepted := ud :: s.accepted }
  | .close id =>
      if some id = s.socket then some s
      else if id ∈ s.accepted then some { s with accepted := s.accepted.erase id } else none
  | _ => some s

def message (maxclient : Int) (m : SocketMessage) : Option (State × List Action) :=
  if s.forks = 0 then
    (s.account m).map fun s =>
      let filtered := filter s.queue m
      { s with queue := filtered.1 }.dispatch maxclient filtered.2
  else none

/-- A package leaves the queue for the handler; nothing when the queue is empty. -/
def popMsg : Option (State × Action) :=
  (pop s.queue).map fun popped =>
    ({ s with queue := popped.2 }, s.dispatchMsg popped.1.id popped.1.buffer popped.1.size)

/-- `dispatch_queue` begins. -/
def fork : State × List Action :=
  let s := { s with forks := s.forks - 1 }
  match s.popMsg with
  | some (s, action) => ({ s with forks := s.forks + 1, first := s.first + 1 }, [action])
  | none => (s, [])

/-- The loop of `dispatch_queue`, from one package to the next. -/
def loop : State × List Action :=
  match s.popMsg with
  | some (s, action) => ({ s with loops := s.queue.ring.cap :: s.loops }, [action])
  | none => (s, [])

def closeclient (fd : Nat) : State × List Action :=
  if (s.connection fd).isSome then
    ({ s with connection := Function.update s.connection fd none }, [.close fd])
  else (s, [])

end State

def step (maxclient : Int) (s : State) : Event → Option (State × List Action)
  | .message m => s.message maxclient m
  | .fork => if 0 < s.forks then some s.fork else none
  | .first => if 0 < s.first then some { s with first := s.first - 1 }.loop else none
  | .loop cap =>
      if cap ∈ s.loops then
        let s := { s with loops := s.loops.erase cap }
        some (if cap = s.queue.ring.cap then s.loop else (s, []))
      else none
  | .failFirst => if 0 < s.first then some ({ s with first := s.first - 1 }, []) else none
  | .failLoop cap =>
      if cap ∈ s.loops then some ({ s with loops := s.loops.erase cap }, []) else none
  | .listen id =>
      if s.socket = none ∧ id ∉ s.accepted then some ({ s with socket := some id }, []) else none
  | .openclient fd => some (s, if s.connection fd = some true then [.start fd] else [])
  | .closeclient fd => some (s.closeclient fd)

def machine (maxclient : Int) : Machine State Event (List Action) where
  init := .init
  step := step maxclient

end Qiuqiu.Net.Gateserver
