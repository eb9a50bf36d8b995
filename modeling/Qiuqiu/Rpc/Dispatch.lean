import Qiuqiu.Queue.Refinement

/-!
The dispatch of rpc messages in the agent service (lualib/rpc.lua). The file
installs two dispatch functions: that of the agent, which runs every method in
the queue of its player, and after it the default one, which calls `RPC_CMD.obj`
directly. What is in force runs `obj` beside the queue; `obj_cb` and
`obj_recall` enter it themselves.
-/
namespace Qiuqiu.Rpc.Dispatch
variable {Id Urs Func : Type}

abbrev RoleQueue (Urs : Type) := Queue.State Nat Urs (Queue.ring Nat)

/-- An operation of the queue. -/
def queueStep (q : RoleQueue Urs) (e : Queue.Event Nat Urs Unit) :
    Option (RoleQueue Urs × Queue.Answer Unit) :=
  Queue.step true q e

section Queue
variable {q q' : RoleQueue Urs} {a : Queue.Answer Unit} {c : Nat}

theorem handOver_bodies (q : RoleQueue Urs) : q.handOver.bodies = q.bodies := by
  simp only [Queue.State.handOver]
  split <;> rfl

theorem call_bodies (h : queueStep q (.call c) = some (q', a)) :
    a = .enters ∧ q'.bodies = Function.update q.bodies c (q.bodies c + 1) ∨
      a = .waits ∧ q'.bodies = q.bodies := by
  simp only [queueStep, Queue.step] at h
  split at h
  · cases h
  · simp only [Queue.State.call] at h
    split at h
    · cases h
      exact .inr ⟨rfl, rfl⟩
    · cases h
      exact .inl ⟨rfl, rfl⟩

theorem resume_bodies (h : queueStep q (.resume c) = some (q', a)) :
    a = .enters ∧ q'.bodies = Function.update q.bodies c (q.bodies c + 1) ∨
      a = .assertionFailed ∧ q'.bodies = q.bodies := by
  simp only [queueStep, Queue.step] at h
  split at h
  · simp only [Queue.State.resume] at h
    split at h
    · cases h
      exact .inl ⟨rfl, rfl⟩
    · cases h
      exact .inr ⟨rfl, rfl⟩
  · cases h

theorem finish_bodies {ok : Bool} (h : queueStep q (.finish c ok ()) = some (q', a)) :
    q'.bodies = Function.update q.bodies c (q.bodies c - 1) := by
  simp only [queueStep, Queue.step] at h
  split at h
  · simp only [Queue.State.xpcallRet] at h
    cases h
    simp only [Queue.State.setCo2urs]
    split
    · rw [handOver_bodies]
      rfl
    · rfl
  · cases h

/-- The states of a role queue. -/
def Reached (q : RoleQueue Urs) : Prop :=
  ∃ trace, (Queue.machine Nat Urs Unit (Queue.ring Nat) true).Reach trace q

theorem Reached.step {e : Queue.Event Nat Urs Unit} (reached : Reached q)
    (h : queueStep q e = some (q', a)) : Reached q' := by
  obtain ⟨trace, reach⟩ := reached
  exact ⟨_, reach.next h⟩

end Queue

variable [DecidableEq Urs]

/-- The characters, as far as the file asks them: `IsPlayer`, `GetUrs`, and
whether they have a method and its `_ReCallRecv`. -/
structure Chars (Id Urs Func : Type) where
  isPlayer : Id → Bool
  getUrs : Id → Urs
  hasFunc : Id → Func → Bool
  hasRecvFunc : Id → Func → Bool

inductive Cmd where
  | obj
  | objCb
  | objRecall
  deriving DecidableEq

structure Message (Id Func : Type) where
  cmd : Cmd
  session : Nat
  id : Id
  funcName : Func
  listener : Nat

/-- What a coroutine does: it waits in the queue before `_GetQueueMem` or before
the method, runs the method, or is in one of the two parts of `_Call`. -/
inductive Frame (Id Func : Type) where
  | idle
  | waitsMem (m : Message Id Func)
  | waits (m : Message Id Func)
  | body (m : Message Id Func) (queued : Bool)
  | recalling (m : Message Id Func)
  | receiving (m : Message Id Func)

/-- `present` is `CHAR_MGR.GetCharById`, `loaded` tells whether
`ROLELOAD.GetQueue` knows the queue of an account. -/
structure State (Id Urs Func : Type) where
  present : Id → Bool
  loaded : Urs → Bool
  queues : Urs → RoleQueue Urs
  frames : Nat → Frame Id Func

inductive Event (Id Urs Func : Type) where
  | message (c : Nat) (m : Message Id Func)
  | resume (c : Nat)
  | bodyEnds (c : Nat) (ok : Bool)
  | recallEnds (c : Nat)
  | recvEnds (c : Nat) (ok : Bool)
  | setChar (id : Id) (present : Bool)
  | setQueue (urs : Urs) (loaded : Bool)

inductive Output where
  | waits
  | starts
  | returns
  | raises
  | agentCallback (listener : Nat) (ok : Bool)
  | agentRecallCallback (listener : Nat) (ok : Bool)
  | callsRecallCallback (listener : Nat)
  | receives
  | sets

/-- The dispatch functions in the order in which the file installs them. -/
inductive Dispatcher where
  | agent
  | default

def installed : List Dispatcher := [.agent, .default]

/-- `skynet.dispatch` keeps the last function. -/
def inForce : List Dispatcher → Option Dispatcher :=
  List.foldl (fun _ f => some f) none

namespace State
variable (chars : Chars Id Urs Func) (s : State Id Urs Func)

def setFrame (c : Nat) (frame : Frame Id Func) : State Id Urs Func :=
  { s with frames := Function.update s.frames c frame }

def setQueue (urs : Urs) (q : RoleQueue Urs) : State Id Urs Func :=
  { s with queues := Function.update s.queues urs q }

/-- The end of `cs(f, ...)`, and of the coroutine. -/
def leave (c : Nat) (m : Message Id Func) (ok : Bool) (o : Output) :
    Option (State Id Urs Func × Output) :=
  match queueStep (s.queues (chars.getUrs m.id)) (.finish c ok ()) with
  | some (q, _) => some ((s.setQueue (chars.getUrs m.id) q).setFrame c .idle, o)
  | none => none

/-- The answer to a message whose method fails or ends. -/
def answer (m : Message Id Func) (ok : Bool) : Output :=
  match m.cmd with
  | .obj => if ok then .returns else .raises
  | .objCb => .agentCallback m.listener ok
  | .objRecall => .agentRecallCallback m.listener ok

/-- The method of a message fails in the queue; `_queue` catches the error. -/
def fails (c : Nat) (m : Message Id Func) : Option (State Id Urs Func × Output) :=
  s.leave chars c m (m.cmd = .objRecall) (answer m false)

/-- `RPC_CMD.obj`, or `_IgnoreObjCheck` for a message `obj`, in the queue. -/
def inQueue (c : Nat) (m : Message Id Func) : Option (State Id Urs Func × Output) :=
  if s.present m.id then
    if chars.hasFunc m.id m.funcName then some (s.setFrame c (.body m true), .starts)
    else s.fails chars c m
  else
    match m.cmd with
    | .obj => s.leave chars c m true .returns
    | _ => s.fails chars c m

/-- `RPC_CMD.obj` beside the queue. -/
def beside (c : Nat) (m : Message Id Func) : Option (State Id Urs Func × Output) :=
  if s.present m.id && chars.hasFunc m.id m.funcName then
    some (s.setFrame c (.body m false), .starts)
  else some (s.setFrame c .idle, answer m false)

def enter (c : Nat) (m : Message Id Func) : Option (State Id Urs Func × Output) :=
  match queueStep (s.queues (chars.getUrs m.id)) (.call c) with
  | some (q, .enters) => (s.setQueue (chars.getUrs m.id) q).inQueue chars c m
  | some (q, _) => some ((s.setQueue (chars.getUrs m.id) q).setFrame c (.waits m), .waits)
  | none => none

def objCb (c : Nat) (m : Message Id Func) : Option (State Id Urs Func × Output) :=
  if s.present m.id then
    if chars.isPlayer m.id then
      if s.loaded (chars.getUrs m.id) then s.enter chars c m
      else some (s.setFrame c .idle, .agentCallback m.listener false)
    else s.beside chars c m
  else some (s.setFrame c .idle, .agentCallback m.listener false)

def objRecall (c : Nat) (m : Message Id Func) : Option (State Id Urs Func × Output) :=
  if s.present m.id && chars.isPlayer m.id && s.loaded (chars.getUrs m.id) &&
      chars.hasRecvFunc m.id m.funcName then
    s.enter chars c m
  else some (s.setFrame c .idle, .agentRecallCallback m.listener false)

/-- The default dispatch function. -/
def defaultDispatch (c : Nat) (m : Message Id Func) : Option (State Id Urs Func × Output) :=
  match m.cmd with
  | .obj => s.beside chars c m
  | .objCb => s.objCb chars c m
  | .objRecall => s.objRecall chars c m

/-- The dispatch function of the agent behind `_GetQueueMem`; `cs` and `obj` are
what it found before. -/
def agentWork (c : Nat) (m : Message Id Func) (cs obj : Bool) :
    Option (State Id Urs Func × Output) :=
  match m.cmd with
  | .objCb => s.objCb chars c m
  | .objRecall => s.objRecall chars c m
  | .obj =>
      if obj then
        if chars.isPlayer m.id then
          if cs then s.enter chars c m else some (s.setFrame c .idle, .raises)
        else s.beside chars c m
      else some (s.setFrame c .idle, .returns)

/-- `_GetQueueMem` runs and leaves the queue again. -/
def measured (c : Nat) (m : Message Id Func) : Option (State Id Urs Func × Output) :=
  match queueStep (s.queues (chars.getUrs m.id)) (.finish c true ()) with
  | some (q, _) => (s.setQueue (chars.getUrs m.id) q).agentWork chars c m true true
  | none => none

def agentDispatch (c : Nat) (m : Message Id Func) : Option (State Id Urs Func × Output) :=
  if m.session ≠ 0 then some (s.setFrame c .idle, .raises)
  else if s.present m.id && chars.isPlayer m.id && s.loaded (chars.getUrs m.id) then
    match queueStep (s.queues (chars.getUrs m.id)) (.call c) with
    | some (q, .enters) => (s.setQueue (chars.getUrs m.id) q).measured chars c m
    | some (q, _) => some ((s.setQueue (chars.getUrs m.id) q).setFrame c (.waitsMem m), .waits)
    | none => none
  else s.agentWork chars c m false (s.present m.id)

def dispatch (c : Nat) (m : Message Id Func) :
    Dispatcher → Option (State Id Urs Func × Output)
  | .agent => s.agentDispatch chars c m
  | .default => s.defaultDispatch chars c m

/-- The return from `skynet.wait` in the queue. -/
def resumed (c : Nat) (m : Message Id Func)
    (work : State Id Urs Func → Option (State Id Urs Func × Output)) :
    Option (State Id Urs Func × Output) :=
  match queueStep (s.queues (chars.getUrs m.id)) (.resume c) with
  | some (q, .enters) => work (s.setQueue (chars.getUrs m.id) q)
  | some (q, _) => some ((s.setQueue (chars.getUrs m.id) q).setFrame c .idle, .raises)
  | none => none

/-- The method of a message ends. -/
def bodyEnds (c : Nat) (ok : Bool) (m : Message Id Func) (queued : Bool) :
    Option (State Id Urs Func × Output) :=
  if queued then
    if ok then
      match m.cmd with
      | .objRecall => some (s.setFrame c (.recalling m), .callsRecallCallback m.listener)
      | _ => s.leave chars c m true (answer m true)
    else s.fails chars c m
  else some (s.setFrame c .idle, answer m ok)

def step [DecidableEq Id] (dispatcher : Option Dispatcher) : Event Id Urs Func →
    Option (State Id Urs Func × Output)
  | .message c m =>
      match s.frames c, dispatcher with
      | .idle, some f => s.dispatch chars c m f
      | _, _ => none
  | .resume c =>
      match s.frames c with
      | .waitsMem m => s.resumed chars c m fun s => s.measured chars c m
      | .waits m => s.resumed chars c m fun s => s.inQueue chars c m
      | _ => none
  | .bodyEnds c ok =>
      match s.frames c with
      | .body m queued => s.bodyEnds chars c ok m queued
      | _ => none
  | .recallEnds c =>
      match s.frames c with
      | .recalling m => some (s.setFrame c (.receiving m), .receives)
      | _ => none
  | .recvEnds c ok =>
      match s.frames c with
      | .receiving m => s.leave chars c m ok (if ok then .returns else .raises)
      | _ => none
  | .setChar id present => some ({ s with present := Function.update s.present id present }, .sets)
  | .setQueue urs loaded => some ({ s with loaded := Function.update s.loaded urs loaded }, .sets)

end State

/-- The service with the dispatch functions `fs` installed in this order. -/
def machine [DecidableEq Id] (chars : Chars Id Urs Func) (fs : List Dispatcher) :
    Machine (State Id Urs Func) (Event Id Urs Func) Output where
  init := ⟨fun _ => false, fun _ => false, fun _ => Queue.create, fun _ => .idle⟩
  step := fun s e => s.step chars (inForce fs) e

/-- How often a coroutine is in the queue of an account. -/
def Frame.held (chars : Chars Id Urs Func) (urs : Urs) : Frame Id Func → Nat
  | .body m true => if urs = chars.getUrs m.id then 1 else 0
  | .recalling m => if urs = chars.getUrs m.id then 1 else 0
  | .receiving m => if urs = chars.getUrs m.id then 1 else 0
  | _ => 0

/-- The queues know what the coroutines hold. -/
structure Sane (chars : Chars Id Urs Func) (s : State Id Urs Func) : Prop where
  reached : ∀ urs, Reached (s.queues urs)
  bodies : ∀ c urs, (s.queues urs).bodies c = (s.frames c).held chars urs

/-- The same while the coroutine `c` runs, `n` times in the queue of `urs`. -/
structure Busy (chars : Chars Id Urs Func) (s : State Id Urs Func) (c : Nat) (urs : Urs) (n : Nat) :
    Prop where
  reached : ∀ urs, Reached (s.queues urs)
  others : ∀ c', c' ≠ c → ∀ urs, (s.queues urs).bodies c' = (s.frames c').held chars urs
  own : ∀ urs', (s.queues urs').bodies c = if urs' = urs then n else 0

/-- A coroutine stops with a frame that runs no method of a player beside his
queue. -/
def Stops (chars : Chars Id Urs Func) (s : State Id Urs Func) (c : Nat)
    (s' : State Id Urs Func) : Prop :=
  Sane chars s' ∧ ∃ frame, s'.frames = Function.update s.frames c frame ∧
    ∀ m, frame = .body m false → chars.isPlayer m.id = false

namespace Busy
variable {chars : Chars Id Urs Func} {s s' : State Id Urs Func} {c n : Nat} {urs : Urs}

theorem setFrame (busy : Busy chars s c urs n) {frame : Frame Id Func}
    (held : ∀ urs', frame.held chars urs' = if urs' = urs then n else 0) :
    Sane chars (s.setFrame c frame) where
  reached := busy.reached
  bodies := by
    intro c' urs'
    by_cases same : c' = c
    · subst same
      change (s.queues urs').bodies c' = (Function.update s.frames c' frame c').held chars urs'
      rw [Function.update_self, busy.own, held]
    · change (s.queues urs').bodies c' = (Function.update s.frames c frame c').held chars urs'
      rw [Function.update_of_ne same]
      exact busy.others c' same urs'

theorem stops (busy : Busy chars s c urs n) {frame : Frame Id Func}
    (held : ∀ urs', frame.held chars urs' = if urs' = urs then n else 0)
    (free : ∀ m, frame = .body m false → chars.isPlayer m.id = false) :
    Stops chars s c (s.setFrame c frame) :=
  ⟨busy.setFrame held, frame, rfl, free⟩

theorem idle (busy : Busy chars s c urs 0) : Stops chars s c (s.setFrame c .idle) :=
  busy.stops (by simp [Frame.held]) (by simp)

/-- An operation of the coroutine on the queue. -/
theorem setQueue (busy : Busy chars s c urs n) {e : Queue.Event Nat Urs Unit} {q : RoleQueue Urs}
    {a : Queue.Answer Unit} {n' : Nat} (h : queueStep (s.queues urs) e = some (q, a))
    (bodies : q.bodies = Function.update (s.queues urs).bodies c n') :
    Busy chars (s.setQueue urs q) c urs n' where
  reached := by
    intro urs'
    change Reached (Function.update s.queues urs q urs')
    by_cases same : urs' = urs
    · rw [same, Function.update_self]
      exact (busy.reached urs).step h
    · rw [Function.update_of_ne same]
      exact busy.reached urs'
  others := by
    intro c' ne urs'
    change (Function.update s.queues urs q urs').bodies c' = _
    by_cases same : urs' = urs
    · rw [same, Function.update_self, bodies, Function.update_of_ne ne]
      exact busy.others c' ne urs
    · rw [Function.update_of_ne same]
      exact busy.others c' ne urs'
  own := by
    intro urs'
    change (Function.update s.queues urs q urs').bodies c = _
    by_cases same : urs' = urs
    · rw [same, Function.update_self, bodies, Function.update_self, if_pos rfl]
    · rw [Function.update_of_ne same, if_neg same, busy.own, if_neg same]

theorem entered (busy : Busy chars s c urs 0) {q : RoleQueue Urs}
    (call : queueStep (s.queues urs) (.call c) = some (q, .enters)) :
    Busy chars (s.setQueue urs q) c urs 1 := by
  have zero : (s.queues urs).bodies c = 0 := by rw [busy.own, if_pos rfl]
  cases call_bodies call with
  | inl entered =>
      have bodies := entered.2
      rw [zero] at bodies
      exact busy.setQueue call bodies
  | inr waits => cases waits.1

/-- A coroutine that the queue makes wait holds no body. -/
theorem waits (busy : Busy chars s c urs 0) {q : RoleQueue Urs} {a : Queue.Answer Unit}
    (call : queueStep (s.queues urs) (.call c) = some (q, a)) (notEnters : a ≠ .enters) :
    Busy chars (s.setQueue urs q) c urs 0 := by
  have zero : (s.queues urs).bodies c = 0 := by rw [busy.own, if_pos rfl]
  cases call_bodies call with
  | inl entered => exact absurd entered.1 notEnters
  | inr waits =>
      have bodies : q.bodies = Function.update (s.queues urs).bodies c 0 := by
        rw [waits.2, ← zero, Function.update_eq_self]
      exact busy.setQueue call bodies

theorem resumed (busy : Busy chars s c urs 0) {q : RoleQueue Urs} {a : Queue.Answer Unit}
    (resume : queueStep (s.queues urs) (.resume c) = some (q, a)) :
    a = .enters ∧ Busy chars (s.setQueue urs q) c urs 1 ∨
      a ≠ .enters ∧ Busy chars (s.setQueue urs q) c urs 0 := by
  have zero : (s.queues urs).bodies c = 0 := by rw [busy.own, if_pos rfl]
  cases resume_bodies resume with
  | inl entered =>
      have bodies := entered.2
      rw [zero] at bodies
      exact .inl ⟨entered.1, busy.setQueue resume bodies⟩
  | inr failed =>
      have bodies : q.bodies = Function.update (s.queues urs).bodies c 0 := by
        rw [failed.2, ← zero, Function.update_eq_self]
      exact .inr ⟨by simp [failed.1], busy.setQueue resume bodies⟩

theorem finished (busy : Busy chars s c urs 1) {q : RoleQueue Urs} {a : Queue.Answer Unit}
    {ok : Bool} (finish : queueStep (s.queues urs) (.finish c ok ()) = some (q, a)) :
    Busy chars (s.setQueue urs q) c urs 0 := by
  have bodies := finish_bodies finish
  rw [busy.own, if_pos rfl] at bodies
  exact busy.setQueue finish bodies

theorem leave {m : Message Id Func} {ok : Bool} {o o' : Output}
    (busy : Busy chars s c (chars.getUrs m.id) 1)
    (step : s.leave chars c m ok o = some (s', o')) : Stops chars s c s' := by
  simp only [State.leave] at step
  split at step
  · rename_i finish
    cases step
    exact (busy.finished finish).idle
  · cases step

theorem inQueue {m : Message Id Func} {o : Output} (busy : Busy chars s c (chars.getUrs m.id) 1)
    (step : s.inQueue chars c m = some (s', o)) : Stops chars s c s' := by
  simp only [State.inQueue, State.fails] at step
  split at step
  · split at step
    · cases step
      exact busy.stops (by simp [Frame.held]) (by simp)
    · exact busy.leave step
  · split at step
    · exact busy.leave step
    · exact busy.leave step

theorem enter {m : Message Id Func} {o : Output} (busy : Busy chars s c (chars.getUrs m.id) 0)
    (step : s.enter chars c m = some (s', o)) : Stops chars s c s' := by
  simp only [State.enter] at step
  split at step
  · rename_i call
    exact (busy.entered call).inQueue step
  · rename_i notEnters call
    cases step
    exact (busy.waits call notEnters).stops (by simp [Frame.held]) (by simp)
  · cases step

theorem beside {m : Message Id Func} {o : Output} (busy : Busy chars s c urs 0)
    (other : chars.isPlayer m.id = false) (step : s.beside chars c m = some (s', o)) :
    Stops chars s c s' := by
  simp only [State.beside] at step
  split at step
  · cases step
    refine busy.stops (by simp [Frame.held]) ?_
    intro m' same
    cases same
    exact other
  · cases step
    exact busy.idle

theorem objCb {m : Message Id Func} {o : Output} (busy : Busy chars s c (chars.getUrs m.id) 0)
    (step : s.objCb chars c m = some (s', o)) : Stops chars s c s' := by
  simp only [State.objCb] at step
  split at step
  · split at step
    · split at step
      · exact busy.enter step
      · cases step
        exact busy.idle
    · rename_i other
      exact busy.beside (by simpa using other) step
  · cases step
    exact busy.idle

theorem objRecall {m : Message Id Func} {o : Output}
    (busy : Busy chars s c (chars.getUrs m.id) 0)
    (step : s.objRecall chars c m = some (s', o)) : Stops chars s c s' := by
  simp only [State.objRecall] at step
  split at step
  · exact busy.enter step
  · cases step
    exact busy.idle

theorem agentWork {m : Message Id Func} {cs obj : Bool} {o : Output}
    (busy : Busy chars s c (chars.getUrs m.id) 0)
    (step : s.agentWork chars c m cs obj = some (s', o)) : Stops chars s c s' := by
  simp only [State.agentWork] at step
  split at step
  · exact busy.objCb step
  · exact busy.objRecall step
  · split at step
    · split at step
      · split at step
        · exact busy.enter step
        · cases step
          exact busy.idle
      · rename_i other
        exact busy.beside (by simpa using other) step
    · cases step
      exact busy.idle

theorem measured {m : Message Id Func} {o : Output}
    (busy : Busy chars s c (chars.getUrs m.id) 1)
    (step : s.measured chars c m = some (s', o)) : Stops chars s c s' := by
  simp only [State.measured] at step
  split at step
  · rename_i finish
    exact (busy.finished finish).agentWork step
  · cases step

theorem agentDispatch {m : Message Id Func} {o : Output}
    (busy : Busy chars s c (chars.getUrs m.id) 0)
    (step : s.agentDispatch chars c m = some (s', o)) : Stops chars s c s' := by
  simp only [State.agentDispatch] at step
  split at step
  · cases step
    exact busy.idle
  · split at step
    · split at step
      · rename_i call
        exact (busy.entered call).measured step
      · rename_i notEnters call
        cases step
        exact (busy.waits call notEnters).stops (by simp [Frame.held]) (by simp)
      · cases step
    · exact busy.agentWork step

end Busy

section Step
variable {chars : Chars Id Urs Func} {s s' : State Id Urs Func}

theorem Sane.busy (sane : Sane chars s) {c n : Nat} {urs : Urs}
    (held : ∀ urs', (s.frames c).held chars urs' = if urs' = urs then n else 0) :
    Busy chars s c urs n where
  reached := sane.reached
  others := fun c' _ urs' => sane.bodies c' urs'
  own := fun urs' => by rw [sane.bodies, held]

theorem Sane.resumed (sane : Sane chars s) {c : Nat} {m : Message Id Func} {o : Output}
    {work : State Id Urs Func → Option (State Id Urs Func × Output)}
    (held : ∀ urs', (s.frames c).held chars urs' = 0)
    (works : ∀ q, Busy chars (s.setQueue (chars.getUrs m.id) q) c (chars.getUrs m.id) 1 →
      work (s.setQueue (chars.getUrs m.id) q) = some (s', o) → Stops chars s c s')
    (step : s.resumed chars c m work = some (s', o)) : Stops chars s c s' := by
  have busy : Busy chars s c (chars.getUrs m.id) 0 := sane.busy (by simp [held])
  simp only [State.resumed] at step
  split at step
  · rename_i q resume
    cases busy.resumed resume with
    | inl entered => exact works q entered.2 step
    | inr failed => exact absurd rfl failed.1
  · rename_i notEnters resume
    cases step
    cases busy.resumed resume with
    | inl entered => exact absurd entered.1 notEnters
    | inr failed => exact failed.2.idle
  · cases step

theorem Sane.bodyEnds (sane : Sane chars s) {c : Nat} {ok queued : Bool} {m : Message Id Func}
    {o : Output} (frame : s.frames c = .body m queued)
    (step : s.bodyEnds chars c ok m queued = some (s', o)) : Stops chars s c s' := by
  cases queued with
  | false =>
      have busy : Busy chars s c (chars.getUrs m.id) 0 := sane.busy (by simp [frame, Frame.held])
      cases step
      exact busy.idle
  | true =>
      have busy : Busy chars s c (chars.getUrs m.id) 1 := sane.busy (by simp [frame, Frame.held])
      simp only [State.bodyEnds, if_true] at step
      split at step
      · split at step
        · cases step
          exact busy.stops (by simp [Frame.held]) (by simp)
        · exact busy.leave step
      · exact busy.leave step

/-- The methods of players that start beside their queue. -/
def Opens [DecidableEq Id] (chars : Chars Id Urs Func) (dispatcher : Option Dispatcher)
    (s : State Id Urs Func) (id : Id) : Event Id Urs Func → Bool
  | .message _ m =>
      match dispatcher with
      | some .default =>
          m.cmd = .obj && m.id = id && s.present m.id && chars.hasFunc m.id m.funcName
      | _ => false
  | _ => false

/-- No method of the character runs beside the queue. -/
def Free (s : State Id Urs Func) (id : Id) : Prop :=
  ∀ c m, s.frames c = .body m false → m.id ≠ id

theorem Stops.free {c : Nat} {id : Id} (stops : Stops chars s c s')
    (player : chars.isPlayer id = true) (free : Free s id) : Free s' id := by
  obtain ⟨_, frame, frames, others⟩ := stops
  intro c' m here
  rw [frames] at here
  by_cases same : c' = c
  · rw [same, Function.update_self] at here
    intro eq
    rw [← eq, others m here] at player
    cases player
  · rw [Function.update_of_ne same] at here
    exact free c' m here

/-- `RPC_CMD.obj` under the default dispatch function. -/
theorem Sane.beside (sane : Sane chars s) {c : Nat} {m : Message Id Func} {o : Output}
    (idle : s.frames c = .idle) (step : s.beside chars c m = some (s', o)) :
    Stops chars s c s' ∧ (s.present m.id && chars.hasFunc m.id m.funcName) = false ∨
      Sane chars s' ∧ s'.frames = Function.update s.frames c (.body m false) ∧
        (s.present m.id && chars.hasFunc m.id m.funcName) = true := by
  have busy : Busy chars s c (chars.getUrs m.id) 0 := sane.busy (by simp [idle, Frame.held])
  simp only [State.beside] at step
  split at step
  · rename_i runs
    cases step
    exact .inr ⟨busy.setFrame (by simp [Frame.held]), rfl, runs⟩
  · rename_i stays
    cases step
    exact .inl ⟨busy.idle, by simpa using stays⟩

/-- A step stops a coroutine, changes what is loaded, or starts a method of a
message `obj` beside the queue. -/
inductive Moves [DecidableEq Id] (chars : Chars Id Urs Func) (dispatcher : Option Dispatcher)
    (s : State Id Urs Func) (e : Event Id Urs Func) (s' : State Id Urs Func) : Prop
  | stops (c) : Stops chars s c s' → (∀ id, Opens chars dispatcher s id e = false) →
      Moves chars dispatcher s e s'
  | loads : Sane chars s' → s'.frames = s.frames →
      (∀ id, Opens chars dispatcher s id e = false) → Moves chars dispatcher s e s'
  | opens (c m) : Sane chars s' → s'.frames = Function.update s.frames c (.body m false) →
      (∀ id, Opens chars dispatcher s id e = true ↔ id = m.id) → Moves chars dispatcher s e s'

theorem Sane.message [DecidableEq Id] (sane : Sane chars s) {d : Dispatcher} {c : Nat}
    {m : Message Id Func} {o : Output} (idle : s.frames c = .idle)
    (step : s.dispatch chars c m d = some (s', o)) :
    Moves chars (some d) s (.message c m) s' := by
  have busy : Busy chars s c (chars.getUrs m.id) 0 := sane.busy (by simp [idle, Frame.held])
  cases d with
  | agent => exact .stops c (busy.agentDispatch step) fun _ => rfl
  | default =>
      simp only [State.dispatch, State.defaultDispatch] at step
      split at step
      · rename_i obj
        cases sane.beside idle step with
        | inl stays =>
            refine .stops c stays.1 fun id => ?_
            simp only [Opens, Bool.and_assoc, stays.2, Bool.and_false]
        | inr runs =>
            refine .opens c m runs.1 runs.2.1 fun id => ?_
            simp only [Opens, obj, Bool.and_assoc, runs.2.2, decide_true, Bool.and_true,
              Bool.true_and, decide_eq_true_eq]
            exact eq_comm
      · rename_i objCb
        refine .stops c (busy.objCb step) fun id => ?_
        simp [Opens, objCb]
      · rename_i objRecall
        refine .stops c (busy.objRecall step) fun id => ?_
        simp [Opens, objRecall]

theorem Sane.step [DecidableEq Id] (sane : Sane chars s) {dispatcher : Option Dispatcher}
    {e : Event Id Urs Func} {o : Output} (step : s.step chars dispatcher e = some (s', o)) :
    Moves chars dispatcher s e s' := by
  cases e with
  | message c m =>
      simp only [State.step] at step
      split at step
      · rename_i idle
        exact sane.message idle step
      · cases step
  | resume c =>
      simp only [State.step] at step
      split at step
      · rename_i m frame
        exact .stops c (sane.resumed (by simp [frame, Frame.held])
          (fun _ busy work => busy.measured work) step) fun _ => rfl
      · rename_i m frame
        exact .stops c (sane.resumed (by simp [frame, Frame.held])
          (fun _ busy work => busy.inQueue work) step) fun _ => rfl
      · cases step
  | bodyEnds c ok =>
      simp only [State.step] at step
      split at step
      · rename_i frame
        exact .stops c (sane.bodyEnds frame step) fun _ => rfl
      · cases step
  | recallEnds c =>
      simp only [State.step] at step
      split at step
      · rename_i m frame
        cases step
        have busy : Busy chars s c (chars.getUrs m.id) 1 := sane.busy (by simp [frame, Frame.held])
        exact .stops c (busy.stops (by simp [Frame.held]) (by simp)) fun _ => rfl
      · cases step
  | recvEnds c ok =>
      simp only [State.step] at step
      split at step
      · rename_i m frame
        have busy : Busy chars s c (chars.getUrs m.id) 1 := sane.busy (by simp [frame, Frame.held])
        exact .stops c (busy.leave step) fun _ => rfl
      · cases step
  | setChar id present =>
      cases step
      exact .loads ⟨sane.reached, sane.bodies⟩ rfl fun _ => rfl
  | setQueue urs loaded =>
      cases step
      exact .loads ⟨sane.reached, sane.bodies⟩ rfl fun _ => rfl

/-- A method of the character is running in the coroutine. -/
def Running (s : State Id Urs Func) (c : Nat) (id : Id) : Prop :=
  ∃ m queued, s.frames c = .body m queued ∧ m.id = id

/-- The methods of the character run in his queue, one at a time. -/
def Serialised (chars : Chars Id Urs Func) (s : State Id Urs Func) (id : Id) : Prop :=
  (∀ c, Running s c id → 0 < (s.queues (chars.getUrs id)).bodies c) ∧
    ∀ c c', Running s c id → Running s c' id → c = c'

theorem Sane.serialised (sane : Sane chars s) {id : Id} (free : Free s id) :
    Serialised chars s id := by
  have inside : ∀ c, Running s c id → 0 < (s.queues (chars.getUrs id)).bodies c := by
    rintro c ⟨m, queued, frame, rfl⟩
    cases queued with
    | false => exact absurd rfl (free c m frame)
    | true =>
        rw [sane.bodies, frame]
        simp [Frame.held]
  refine ⟨inside, ?_⟩
  intro c c' runs runs'
  obtain ⟨trace, reach⟩ := sane.reached (chars.getUrs id)
  exact Queue.reach_exclusive true reach c c' (inside c runs) (inside c' runs')

theorem Sane.not_serialised (sane : Sane chars s) {c : Nat} {m : Message Id Func}
    (frame : s.frames c = .body m false) : ¬ Serialised chars s m.id := by
  intro serialised
  have inside := serialised.1 c ⟨m, false, frame, rfl⟩
  rw [sane.bodies, frame] at inside
  exact Nat.lt_irrefl 0 inside

theorem Moves.sane [DecidableEq Id] {dispatcher : Option Dispatcher} {e : Event Id Urs Func}
    (moves : Moves chars dispatcher s e s') : Sane chars s' := by
  cases moves with
  | stops _ stops _ => exact stops.1
  | loads sane _ _ => exact sane
  | opens _ _ sane _ _ => exact sane

theorem Moves.free [DecidableEq Id] {dispatcher : Option Dispatcher} {e : Event Id Urs Func}
    {id : Id} (moves : Moves chars dispatcher s e s') (player : chars.isPlayer id = true)
    (closed : Opens chars dispatcher s id e = false) (free : Free s id) : Free s' id := by
  cases moves with
  | stops _ stops _ => exact stops.free player free
  | loads _ frames _ =>
      intro c m here
      rw [frames] at here
      exact free c m here
  | opens c m _ frames starts =>
      intro c' m' here
      rw [frames] at here
      by_cases same : c' = c
      · rw [same, Function.update_self] at here
        cases here
        intro eq
        rw [(starts id).2 eq.symm] at closed
        cases closed
      · rw [Function.update_of_ne same] at here
        exact free c' m' here

theorem Moves.not_serialised [DecidableEq Id] {dispatcher : Option Dispatcher}
    {e : Event Id Urs Func} {id : Id} (moves : Moves chars dispatcher s e s')
    (starts : Opens chars dispatcher s id e = true) : ¬ Serialised chars s' id := by
  cases moves with
  | stops _ _ closed =>
      rw [closed id] at starts
      cases starts
  | loads _ _ closed =>
      rw [closed id] at starts
      cases starts
  | opens c m sane frames here =>
      rw [(here id).1 starts]
      refine sane.not_serialised (c := c) ?_
      rw [frames, Function.update_self]

end Step

/-- Along a run, the methods of a player are serialised exactly until one is
started by a message `obj`. -/
theorem run_serialised_iff [DecidableEq Id] {chars : Chars Id Urs Func} {fs : List Dispatcher}
    {id : Id} (player : chars.isPlayer id = true)
    {trace : List (Event Id Urs Func × State Id Urs Func × Output × State Id Urs Func)}
    {s : State Id Urs Func} (reach : (machine chars fs).record.Reach trace s) :
    Sane chars s ∧
      ((∀ x ∈ trace, Opens chars (inForce fs) x.2.1 id x.1 = false) →
        Free s id ∧ ∀ x ∈ trace, Serialised chars x.2.2.2 id) ∧
      ((∀ x ∈ trace, Serialised chars x.2.2.2 id) →
        ∀ x ∈ trace, Opens chars (inForce fs) x.2.1 id x.1 = false) := by
  induction reach with
  | init =>
      refine ⟨⟨fun _ => ⟨[], .init⟩, fun _ _ => rfl⟩, fun _ => ⟨?_, by simp⟩, fun _ => by simp⟩
      intro c m frame
      cases frame
  | @next trace s e s' o _ step ih =>
      obtain ⟨sane, keeps, needs⟩ := ih
      obtain ⟨⟨t, o'⟩, moved, label⟩ := Option.map_eq_some_iff.1 step
      cases label
      have moves := sane.step moved
      simp only [List.forall_mem_append, List.forall_mem_singleton]
      refine ⟨moves.sane, ?_, ?_⟩
      · rintro ⟨before, closed⟩
        obtain ⟨free, all⟩ := keeps before
        have free' := moves.free player closed free
        exact ⟨free', all, moves.sane.serialised free'⟩
      · rintro ⟨all, serialised⟩
        refine ⟨needs all, ?_⟩
        by_contra starts
        exact moves.not_serialised (by simpa using starts) serialised

/-- Alone, the dispatch function of the agent serialises the methods of every
player. -/
theorem agent_serialised [DecidableEq Id] {chars : Chars Id Urs Func} {id : Id}
    (player : chars.isPlayer id = true)
    {trace : List (Event Id Urs Func × State Id Urs Func × Output × State Id Urs Func)}
    {s : State Id Urs Func} (reach : (machine chars [.agent]).record.Reach trace s) :
    ∀ x ∈ trace, Serialised chars x.2.2.2 id := by
  refine ((run_serialised_iff player reach).2.1 ?_).2
  intro x _
  cases x.1 <;> rfl

/-- The message `obj` for the character finds him and the method. -/
def StartsObj (chars : Chars Id Urs Func) (s : State Id Urs Func) (id : Id)
    (e : Event Id Urs Func) : Prop :=
  ∃ c m, e = .message c m ∧ m.cmd = .obj ∧ m.id = id ∧ s.present id = true ∧
    chars.hasFunc id m.funcName = true

omit [DecidableEq Urs] in
theorem opens_eq_false_iff [DecidableEq Id] {chars : Chars Id Urs Func} {s : State Id Urs Func}
    {id : Id} {e : Event Id Urs Func} :
    Opens chars (inForce installed) s id e = false ↔ ¬ StartsObj chars s id e := by
  rw [← Bool.not_eq_true, not_iff_not]
  cases e with
  | message c m =>
      simp only [Opens, inForce, installed, List.foldl, Bool.and_eq_true, decide_eq_true_eq]
      constructor
      · rintro ⟨⟨⟨obj, rfl⟩, present⟩, has⟩
        exact ⟨c, m, rfl, obj, rfl, present, has⟩
      · rintro ⟨_, _, same, obj, rfl, present, has⟩
        cases same
        exact ⟨⟨⟨obj, rfl⟩, present⟩, has⟩
  | _ => simp [Opens, StartsObj]

/-- With the functions of the file, the methods of a player are serialised
along a run exactly if no message `obj` starts one. -/
theorem serialised_iff_no_obj [DecidableEq Id] {chars : Chars Id Urs Func} {id : Id}
    (player : chars.isPlayer id = true)
    {trace : List (Event Id Urs Func × State Id Urs Func × Output × State Id Urs Func)}
    {s : State Id Urs Func} (reach : (machine chars installed).record.Reach trace s) :
    (∀ x ∈ trace, Serialised chars x.2.2.2 id) ↔
      ∀ x ∈ trace, ¬ StartsObj chars x.2.1 id x.1 := by
  obtain ⟨_, keeps, needs⟩ := run_serialised_iff player reach
  constructor
  · intro all x mem
    exact opens_eq_false_iff.1 (needs all x mem)
  · intro none
    exact (keeps fun x mem => opens_eq_false_iff.2 (none x mem)).2

/-- Two callbacks for one player: the second waits. -/
theorem serialised_of_two_callbacks :
    ∃ (chars : Chars Nat Nat Nat) (trace : _) (s : State Nat Nat Nat),
      (machine chars installed).record.Reach trace s ∧
      trace.map (·.2.2.1) = [.sets, .sets, .starts, .waits] ∧
      ∀ x ∈ trace, Serialised chars x.2.2.2 7 := by
  have run : ∃ trace s, (machine (⟨fun _ => true, id, fun _ _ => true, fun _ _ => true⟩ :
        Chars Nat Nat Nat) installed).record.Reach trace s ∧
      trace.map Prod.fst = [.setChar 7 true, .setQueue 7 true, .message 0 ⟨.objCb, 0, 7, 0, 1⟩,
        .message 1 ⟨.objCb, 0, 7, 0, 2⟩] ∧
      trace.map (·.2.2.1) = [.sets, .sets, .starts, .waits] :=
    ⟨_, _, .next (.next (.next (.next .init rfl) rfl) rfl) rfl, rfl, rfl⟩
  obtain ⟨trace, s, reach, events, outputs⟩ := run
  refine ⟨_, trace, s, reach, outputs, (serialised_iff_no_obj rfl reach).2 ?_⟩
  intro x mem starts
  obtain ⟨c, m, event, obj, _⟩ := starts
  have here : x.1 ∈ trace.map Prod.fst := List.mem_map_of_mem mem
  rw [events, event] at here
  simp at here
  obtain ⟨_, rfl⟩ | ⟨_, rfl⟩ := here
  all_goals cases obj

/-- Two messages `obj` for one player: both methods run. -/
theorem two_obj_overlap :
    ¬ ∀ (chars : Chars Nat Nat Nat) id trace s, chars.isPlayer id = true →
      (machine chars installed).record.Reach trace s →
      ∀ x ∈ trace, Serialised chars x.2.2.2 id := by
  intro all
  have run : ∃ trace s, (machine (⟨fun _ => true, id, fun _ _ => true, fun _ _ => true⟩ :
        Chars Nat Nat Nat) installed).record.Reach trace s ∧
      trace.map Prod.fst = [.setChar 7 true, .message 0 ⟨.obj, 0, 7, 0, 1⟩,
        .message 1 ⟨.obj, 0, 7, 0, 2⟩] ∧
      ∃ x ∈ trace, Running x.2.2.2 0 7 ∧ Running x.2.2.2 1 7 :=
    ⟨_, _, .next (.next (.next .init rfl) rfl) rfl, rfl, _,
      List.mem_append_right _ List.mem_cons_self, ⟨_, _, rfl, rfl⟩, ⟨_, _, rfl, rfl⟩⟩
  obtain ⟨trace, s, reach, _, x, mem, first, second⟩ := run
  cases (all _ 7 trace s rfl reach x mem).2 0 1 first second

end Qiuqiu.Rpc.Dispatch
