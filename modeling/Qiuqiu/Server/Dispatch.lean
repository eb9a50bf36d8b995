import Mathlib.Data.List.Basic
import Qiuqiu.Base.Machine
import Qiuqiu.Server.Mq

/-!
Services and the threads that work on them (skynet-src/skynet_server.c, skynet_mq.c). A
worker takes the queue of a service from the global queue and dispatches some messages;
other tasks launch services, send messages and retire services. Each step of a task is one
region under a lock or one access to an atomic, and the tasks take their steps in any order.
A call that a callback makes is a task of its own. A launch registers the context and makes
its queue in one step, and handles are not used again.
-/
namespace Qiuqiu.Server.Dispatch

/-- What a thread is about to do, and what it does behind it. -/
inductive Task (M : Type) where
  -- a worker without a queue, at its next `skynet_globalmq_pop`
  | idle
  | done
  -- `skynet_context_message_dispatch`, at `skynet_handle_grab`
  | holds (q : Nat)
  -- in its loop: at `skynet_mq_pop`, with the message at `skynet_mq_length` and at `ctx->cb`,
  -- then in the callback
  | pops (q i n : Nat)
  | sizes (q i n : Nat) (msg : M)
  | dispatches (q i n : Nat) (msg : M)
  | calls (q i n : Nat)
  -- behind its loop: at `skynet_globalmq_pop`, and with the queue it got
  | swaps (q : Nat)
  | returns (q nq : Nat)
  -- `skynet_context_push`
  | sends (handle : Nat) (message : M)
  | pushes (handle : Nat) (message : M)
  -- `skynet_handle_retire`
  | retires (handle : Nat) (next : Task M)
  -- `skynet_context_new`, in the init function, at `ctx->init` and at `skynet_globalmq_push`
  | inits (handle : Nat)
  | initializes (handle : Nat)
  | publishes (handle : Nat)
  -- `skynet_context_release`, then the two parts of `delete_context`
  | lets (handle : Nat) (next : Task M)
  | marks (handle : Nat) (next : Task M)
  | frees (handle : Nat) (next : Task M)
  -- `skynet_mq_release`, `_drop_queue` and `_release`
  | releases (q : Nat) (next : Task M)
  | drops (q : Nat) (next : Task M)
  | freesQueue (q : Nat) (next : Task M)
  deriving DecidableEq

/-- A context with its queue. `inTable` says that its handle is registered, `cb` that it has a
callback. -/
structure Service (M : Type) where
  mq : Mq M
  ref : Int
  cb : Bool
  inTable : Bool
  init : Bool
  freed : Bool
  queueFreed : Bool

/-- What `skynet_context_new` makes before it calls the init function. -/
def Service.create {M : Type} [Inhabited M] : Service M where
  mq := .create
  ref := 2
  cb := false
  inTable := true
  init := false
  freed := false
  queueFreed := false

structure State (M : Type) where
  services : List (Service M)
  global : List Nat
  tasks : List (Task M)

inductive Event (M : Type) where
  | worker
  | launch
  | send (handle : Nat) (message : M)
  | retire (handle : Nat)
  -- `skynet_callback`, in the init function or in the callback of task `i`
  | callback (i : Nat) (cb : Bool)
  | step (i : Nat) (initOk : Bool)
  deriving DecidableEq

inductive Output (M : Type) where
  | quiet
  | pushed (q : Nat) (message : M)
  | taken (q : Nat) (message : M)
  -- given to the callback, or freed as there is none
  | dispatched (q : Nat) (message : M)
  | freed (q : Nat) (message : M)
  | dropped (q : Nat) (message : M)
  | callback (handle : Nat) (cb : Bool)
  deriving DecidableEq

variable {M : Type}

/-- What is left to do when `skynet_context_release` returned NULL. -/
def Task.deleted : Task M → Task M
  | .initializes handle => .publishes handle
  | next => next

/-- The context whose own code a task runs. -/
def Task.context : Task M → Option Nat
  | .inits handle | .calls handle _ _ => some handle
  | _ => none

/-- The loop of `skynet_context_message_dispatch` goes on, or it is over. -/
def Task.loop (q i n : Nat) : Task M := if i + 1 < n then .pops q (i + 1) n else .swaps q

namespace State
variable (s : State M)

def become (i : Nat) (task : Task M) : State M := { s with tasks := s.tasks.set i task }

def update (handle : Nat) (f : Service M → Service M) : State M :=
  { s with services := s.services.modify handle f }

def setMq (handle : Nat) (mq : Mq M) : State M := s.update handle fun v => { v with mq := mq }

def globalPush (q : Nat) : State M := { s with global := s.global ++ [q] }

def spawn (task : Task M) : State M := { s with tasks := s.tasks ++ [task] }

@[simp] theorem global_update (handle : Nat) (f : Service M → Service M) :
    (s.update handle f).global = s.global := rfl

@[simp] theorem services_update (handle : Nat) (f : Service M → Service M) :
    (s.update handle f).services = s.services.modify handle f := rfl

@[simp] theorem global_setMq (handle : Nat) (mq : Mq M) :
    (s.setMq handle mq).global = s.global := rfl

/-- `skynet_handle_grab`. -/
def grab (handle : Nat) : Option (State M) :=
  match s.services[handle]? with
  | some v =>
      if v.inTable then some (s.update handle fun v => { v with ref := v.ref + 1 }) else none
  | none => none

/-- A step of task `i`, of a worker with this weight. -/
def run (weight : Int) (i : Nat) (initOk : Bool) : Task M → Option (State M × Output M)
  | .idle =>
      match s.global with
      | [] => some (s, .quiet)
      | q :: global => some ({ s with global := global }.become i (.holds q), .quiet)
  | .done => none
  | .holds q =>
      match s.grab q with
      | some s => some (s.become i (.pops q 0 1), .quiet)
      | none => some (s.become i (.releases q .idle), .quiet)
  | .pops q k n =>
      s.services[q]?.map fun v =>
        match v.mq.pop with
        | (some message, mq) =>
            ((s.setMq q mq).become i (.sizes q k n message), .taken q message)
        | (none, mq) => ((s.setMq q mq).become i (.lets q .idle), .quiet)
  | .sizes q k n msg =>
      s.services[q]?.map fun v =>
        let n := if k = 0 ∧ 0 ≤ weight then v.mq.ring.length >>> weight.toNat else n
        ((s.setMq q v.mq.readOverload.2).become i (.dispatches q k n msg), .quiet)
  | .dispatches q k n msg =>
      s.services[q]?.map fun v =>
        if v.cb then (s.become i (.calls q k n), .dispatched q msg)
        else (s.become i (.loop q k n), .freed q msg)
  | .calls q k n => some (s.become i (.loop q k n), .quiet)
  | .swaps q =>
      match s.global with
      | [] => some (s.become i (.lets q (.holds q)), .quiet)
      | nq :: global => some ({ s with global := global }.become i (.returns q nq), .quiet)
  | .returns q nq => some ((s.globalPush q).become i (.lets q (.holds nq)), .quiet)
  | .sends handle message =>
      match s.grab handle with
      | some s => some (s.become i (.pushes handle message), .quiet)
      | none => some (s.become i .done, .quiet)
  | .pushes handle message =>
      s.services[handle]?.map fun v =>
        let s' := (s.setMq handle (v.mq.push message).1).become i (.lets handle .done)
        (if (v.mq.push message).2 then s'.globalPush handle else s', .pushed handle message)
  | .retires handle next =>
      match s.services[handle]? with
      | some v =>
          if v.inTable then
            some ((s.update handle fun v => { v with inTable := false }).become i
              (.lets handle next), .quiet)
          else some (s.become i next, .quiet)
      | none => some (s.become i next, .quiet)
  | .inits handle =>
      some (s.become i (.lets handle (if initOk then .initializes handle
        else .retires handle (.releases handle .done))), .quiet)
  | .initializes handle =>
      some ((s.update handle fun v => { v with init := true }).become i (.publishes handle),
        .quiet)
  | .publishes handle => some ((s.globalPush handle).become i .done, .quiet)
  | .lets handle next =>
      s.services[handle]?.map fun v =>
        ((s.update handle fun v => { v with ref := v.ref - 1 }).become i
          (if v.ref = 1 then .marks handle next.deleted else next), .quiet)
  | .marks handle next =>
      s.services[handle]?.map fun v =>
        let s' := (s.setMq handle { v.mq with release := true }).become i (.frees handle next)
        (if v.mq.inGlobal then s' else s'.globalPush handle, .quiet)
  | .frees handle next =>
      some ((s.update handle fun v => { v with freed := true }).become i next, .quiet)
  | .releases q next =>
      s.services[q]?.map fun v =>
        if v.mq.release then (s.become i (.drops q next), .quiet)
        else ((s.globalPush q).become i next, .quiet)
  | .drops q next =>
      s.services[q]?.map fun v =>
        match v.mq.pop with
        | (some message, mq) => ((s.setMq q mq).become i (.drops q next), .dropped q message)
        | (none, mq) => ((s.setMq q mq).become i (.freesQueue q next), .quiet)
  | .freesQueue q next =>
      some ((s.update q fun v => { v with queueFreed := true }).become i next, .quiet)

def step [Inhabited M] (weight : Nat → Int) : Event M → Option (State M × Output M)
  | .worker => some (s.spawn .idle, .quiet)
  | .launch =>
      some ({ s with services := s.services ++ [Service.create] }.spawn
        (.inits s.services.length), .quiet)
  | .send handle message => some (s.spawn (.sends handle message), .quiet)
  | .retire handle => some (s.spawn (.retires handle .done), .quiet)
  | .callback i cb =>
      (s.tasks[i]?.bind Task.context).map fun handle =>
        (s.update handle fun v => { v with cb := cb }, .callback handle cb)
  | .step i initOk => s.tasks[i]?.bind (s.run (weight i) i initOk)

end State

/-- The machine of tasks whose workers have these weights. -/
def machine [Inhabited M] (weight : Nat → Int) : Machine (State M) (Event M) (Output M) where
  init := ⟨[], [], []⟩
  step := fun s => s.step weight

end Qiuqiu.Server.Dispatch
