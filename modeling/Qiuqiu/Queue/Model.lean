import Mathlib.Data.List.Basic
import Mathlib.Logic.Function.Basic
import Qiuqiu.Base.Machine

/-!
The critical section of skynet/lualib/skynet/queue.lua, in the version of the
agent service and in that of every other service. The waiting line is a
parameter: the `h`/`t` table the code has, or the `table.insert` and
`table.remove` calls its comments keep. One step is what a coroutine does
between two points where it may be suspended.
-/
namespace Qiuqiu.Queue

/-- The operations the code makes on `thread_queue`. -/
structure Line (Co : Type) where
  Q : Type
  empty : Q
  push : Q → Co → Q
  pop : Q → Option Co × Q
  length : Q → Int

structure ThreadQueue (Co : Type) where
  h : Int
  t : Int
  slots : Int → Option Co

namespace ThreadQueue
variable {Co : Type}

def empty : ThreadQueue Co where
  h := 1
  t := 0
  slots := fun _ => none

def push (q : ThreadQueue Co) (thread : Co) : ThreadQueue Co :=
  { q with t := q.t + 1, slots := Function.update q.slots (q.t + 1) (some thread) }

def pop (q : ThreadQueue Co) : Option Co × ThreadQueue Co :=
  let q' := { q with slots := Function.update q.slots q.h none, h := q.h + 1 }
  (q.slots q.h, if q'.h > q'.t then { q' with h := 1, t := 0 } else q')

def length (q : ThreadQueue Co) : Int := q.t - q.h + 1

end ThreadQueue

def ring (Co : Type) : Line Co where
  Q := ThreadQueue Co
  empty := ThreadQueue.empty
  push := ThreadQueue.push
  pop := ThreadQueue.pop
  length := ThreadQueue.length

/-- `table.insert(thread_queue, thread)` and `table.remove(thread_queue, 1)`. -/
def table (Co : Type) : Line Co where
  Q := List Co
  empty := []
  push := fun q thread => q ++ [thread]
  pop := fun q => (q.head?, q.tail)
  length := fun q => q.length

/-- The upvalues of one queue object, and of the coroutines what the queue
meets: how many calls of `f` are open on their stacks, whether they sleep in
`skynet.wait`, and who was passed to `skynet.wakeup` and not resumed yet. -/
structure State (Co Urs : Type) (line : Line Co) where
  currentThread : Option Co
  ref : Int
  threadQueue : line.Q
  ownerUrs : Option Urs
  co2urs : Co → Option Urs
  bodies : Co → Nat
  sleepSession : Co → Bool
  wakeupQueue : List Co

inductive Event (Co Urs Val : Type) where
  | call (thread : Co)
  | resume (thread : Co)
  | finish (thread : Co) (ok : Bool) (result : Val)
  | setOwnerUrs (urs : Option Urs)

inductive Answer (Val : Type) where
  | enters
  | waits
  | returns (result : Val)
  | raises (result : Val)
  | assertionFailed
  | sets

variable {Co Urs Val : Type} [DecidableEq Co] {line : Line Co}

def create : State Co Urs line where
  currentThread := none
  ref := 0
  threadQueue := line.empty
  ownerUrs := none
  co2urs := fun _ => none
  bodies := fun _ => 0
  sleepSession := fun _ => false
  wakeupQueue := []

namespace State
variable (agent : Bool) (s : State Co Urs line) (thread : Co)

def wait : State Co Urs line :=
  { s with sleepSession := Function.update s.sleepSession thread true }

def wakeup : State Co Urs line :=
  { s with wakeupQueue :=
      if s.sleepSession thread then s.wakeupQueue ++ [thread] else s.wakeupQueue }

/-- `co2urs[thread] = urs`, made by the agent's version for an owned queue. -/
def setCo2urs (urs : Option Urs) : State Co Urs line :=
  { s with co2urs :=
      if agent && s.ownerUrs.isSome then Function.update s.co2urs thread urs else s.co2urs }

/-- From `current_thread = thread` to the start of `xpcall(f, …)`. -/
def enter : State Co Urs line :=
  let s := { s with currentThread := some thread, ref := s.ref + 1 }
  let s := s.setCo2urs agent thread s.ownerUrs
  { s with bodies := Function.update s.bodies thread (s.bodies thread + 1) }

def call : State Co Urs line × Answer Val :=
  if s.currentThread.isSome && s.currentThread != some thread then
    ({ s with threadQueue := line.push s.threadQueue thread }.wait thread, .waits)
  else (s.enter agent thread, .enters)

/-- The return from `skynet.wait`. -/
def awaken : State Co Urs line :=
  { s with
    sleepSession := Function.update s.sleepSession thread false
    wakeupQueue := s.wakeupQueue.erase thread }

def resume : State Co Urs line × Answer Val :=
  let s := s.awaken thread
  if s.ref = 0 then (s.enter agent thread, .enters) else (s, .assertionFailed)

def handOver : State Co Urs line :=
  let popped := line.pop s.threadQueue
  let s := { s with currentThread := popped.1, threadQueue := popped.2 }
  match s.currentThread with
  | some next => s.wakeup next
  | none => s

def leave : State Co Urs line :=
  { s with
    ref := s.ref - 1
    bodies := Function.update s.bodies thread (s.bodies thread - 1) }

/-- `coroutine.running() == thread` needs no model: the call frame that ends
is a frame of `thread`. -/
def xpcallRet (ok : Bool) (result : Val) : State Co Urs line × Answer Val :=
  let s := s.leave thread
  let s := if s.ref = 0 then s.handOver else s
  (s.setCo2urs agent thread none, if ok then .returns result else .raises result)

def getThreadQueueLength : Int := line.length s.threadQueue

end State

/-- A sleeping coroutine moves only when it is resumed, and it is resumed only
after the queue's own `skynet.wakeup`. -/
def step (agent : Bool) (s : State Co Urs line) :
    Event Co Urs Val → Option (State Co Urs line × Answer Val)
  | .call thread =>
      if s.sleepSession thread then none else some (s.call agent thread)
  | .resume thread =>
      if s.sleepSession thread ∧ thread ∈ s.wakeupQueue then some (s.resume agent thread)
      else none
  | .finish thread ok result =>
      if s.sleepSession thread = false ∧ 0 < s.bodies thread then
        some (s.xpcallRet agent thread ok result)
      else none
  | .setOwnerUrs urs =>
      if agent then some ({ s with ownerUrs := urs }, .sets) else none

def machine (Co Urs Val : Type) [DecidableEq Co] (line : Line Co) (agent : Bool) :
    Machine (State Co Urs line) (Event Co Urs Val) (Answer Val) where
  init := create
  step := step agent

end Qiuqiu.Queue
