import Qiuqiu.Base.Machine
import Qiuqiu.Base.Overtaking
import Qiuqiu.Net.Clusterpack

/-!
Requests from node to node: service/clustersender.lua sends them, service/clusteragent.lua
collects their parts. A long message and its parts have low priority: on the way to the socket
other packages overtake them.
-/
namespace Qiuqiu.Net.Clusteragent
open Clusterpack

/-- A request whose parts are collected; `false` stands for the address of a part. -/
structure Req where
  addr : Option Address
  isPush : Bool
  items : List Item
  deriving Repr, DecidableEq

/-- A request that is complete, or whose parts do not fit its size, or a package that is
invalid. -/
inductive Outcome where
  | request (addr : Option Address) (session : Nat) (msg : Bytes) (isPush : Bool)
  | invalid (session : Nat)
  | failed (reason : Invalid)
  deriving Repr, DecidableEq

/-- `large_request`. -/
abbrev LargeRequest := Nat → Option Req

/-- The branch of `dispatch_request` without padding, up to the response "Invalid large
req". -/
def complete (req : Option Req) (addr : Option Address) (session : Nat) (msg : Bytes)
    (isPush : Bool) : Outcome :=
  match req with
  | some req =>
      match concat (req.items ++ [.string msg]) with
      | some msg => .request req.addr session msg req.isPush
      | none => .invalid session
  | none => .request addr session msg isPush

/-- What a package does to the entry of its session. -/
def collect (req : Option Req) : Unpacked → Option Req × Option Outcome
  | .multi addr _ size isPush =>
      let req := req.getD ⟨some addr, isPush, []⟩
      (some { req with items := req.items ++ [.size size] }, none)
  | .part _ msg true =>
      let req := req.getD ⟨none, false, []⟩
      (some { req with items := req.items ++ [.string msg] }, none)
  | .part session msg false => (none, some (complete req none session msg false))
  | .request addr session msg isPush => (none, some (complete req (some addr) session msg isPush))
  | .trace _ => (req, none)

/-- The session of a package; a tag has none. -/
def session : Unpacked → Option Nat
  | .multi _ session _ _ | .part session _ _ | .request _ session _ _ => some session
  | .trace _ => none

/-- `dispatch_request`, as far as it collects. -/
def dispatchRequest (large : LargeRequest) (unpacked : Unpacked) : LargeRequest × Option Outcome :=
  match session unpacked with
  | some k =>
      (Function.update large k (collect (large k) unpacked).1, (collect (large k) unpacked).2)
  | none => (large, none)

/-- A package of the gate comes to the agent. -/
def receive (large : LargeRequest) (payload : Bytes) : LargeRequest × Option Outcome :=
  match unpackrequest payload with
  | .ok unpacked => dispatchRequest large unpacked
  | .error reason => (large, some (.failed reason))

/-- The agent takes packages one by one. -/
def receiveAll (large : LargeRequest) : List Bytes → LargeRequest × List Outcome
  | [] => (large, [])
  | payload :: payloads =>
      let first := receive large payload
      let rest := receiveAll first.1 payloads
      (rest.1, first.2.toList ++ rest.2)

/-- A package on its way, with its priority and the session it is written with. -/
structure Packet where
  urgent : Bool
  session : Nat
  bytes : Bytes
  deriving Repr, DecidableEq

/-- The sender: its session and what has not reached the socket. -/
structure State where
  session : Nat
  queue : List Packet

inductive Event where
  | req (addr : Address) (msg : Bytes)
  | push (addr : Address) (msg : Bytes)
  | take (n : Nat)

inductive Output where
  | sent (packets : List Packet)
  | failed (reason : Failure)
  | packet (packet : Packet)

/-- `channel:request`: a request with parts has low priority, as they have. -/
def packets (session : Nat) (request : Bytes) (padding : List Bytes) : List Packet :=
  ⟨padding.isEmpty, session, request⟩ :: padding.map fun part => ⟨false, session, part⟩

/-- Packages are sent, and the session becomes the next one. A session comes back only when
no part of its last message waits. -/
def State.send (s : State) (next : Nat) (sent : List Packet) : Option (State × Output) :=
  match Overtaking.step Packet.session Packet.urgent s.queue (.send sent) with
  | some (queue, _) => some (⟨next, queue⟩, .sent sent)
  | none => none

/-- The length of a message is an `int`. -/
def step (s : State) : Event → Option (State × Output)
  | .req addr msg =>
      if msg.length < 2 ^ 31 then
        match packrequest addr s.session msg false with
        | .ok (request, next, padding) => s.send next (packets s.session request padding)
        | .error reason => some (s, .failed reason)
      else none
  | .push addr msg =>
      if msg.length < 2 ^ 31 then
        match packrequest addr s.session msg true with
        | .ok (request, _, []) => s.send s.session (packets 0 request [])
        | .ok (request, next, padding) => s.send next (packets s.session request padding)
        | .error reason => some (s, .failed reason)
      else none
  | .take n =>
      match Overtaking.step Packet.session Packet.urgent s.queue (.take n) with
      | some (queue, some packet) => some ({ s with queue := queue }, .packet packet)
      | _ => none

def machine : Machine State Event Output where
  init := ⟨1, []⟩
  step := step

end Qiuqiu.Net.Clusteragent
