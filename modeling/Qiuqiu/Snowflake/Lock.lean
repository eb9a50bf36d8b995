import Qiuqiu.Base.Outcome
import Qiuqiu.Snowflake.CreateId

/-!
The mutex of the id generator (skynet/lualib-src/lua-skynet.c, `lcreate_id`). It
is taken before the arguments are read and released only on the way to the
normal return, so that every raise between the two keeps it, and every later
call of the process blocks. The calls that raise are those with an argument that
is no integer and those of a second whose sequence numbers are used up. A call with
an integer out of its range does not even raise: the texts of these errors have `%s`
for a number, and the process ends in reading there.
-/
namespace Qiuqiu.Snowflake.Lock
open Triple

/-- What all services of the process share: `mutex` and `SF_NODE`, and whether the process
has been killed. -/
structure Process where
  locked : Bool
  node : Node
  dead : Bool

inductive Stop where
  /-- `pthread_mutex_lock` does not return. -/
  | blocked
  /-- The process reads at an address that is none. -/
  | killed
  | argError (arg : Nat)
  | error (err : Error)

section Code
variable {Value : Type} (checkinteger : Value → Option Int)

def mutexLock : ExceptT Stop (StateM Process) Unit := do
  if (← get).locked then throw .blocked
  modify ({ · with locked := true })

def mutexUnlock : ExceptT Stop (StateM Process) Unit :=
  modify ({ · with locked := false })

/-- `luaL_checkinteger`; `checkinteger` is none of a value that is no integer. -/
def luaLCheckinteger (arg : Nat) (v : Value) : ExceptT Stop (StateM Process) Int :=
  match checkinteger v with
  | some n => pure n
  | none => throw (.argError arg)

/-- What `luaL_error` is given for the `%s` of its text. -/
def stringArg : Error → Option Nat
  | .serverIdRange => some maxServerId.toNat
  | .robotNoRange => some maxRobotNo.toNat
  | .createIdFail => none
  | .invalidNumber n => some n
  | .badIndex index => some index

/-- `luaL_error`. `lua_pushvfstring` takes a number for the address of a string and writes
(null) for 0 only. -/
def luaLError {α : Type} (err : Error) : ExceptT Stop (StateM Process) α :=
  match stringArg err with
  | none | some 0 => throw (.error err)
  | some _ => do
      modify ({ · with dead := true })
      throw .killed

/-- `luaL_error` where the result is an error. -/
def orError {α : Type} : Except Error α → ExceptT Stop (StateM Process) α
  | .ok a => pure a
  | .error err => luaLError err

def lcreateId (serverId robotNo : Value) (nowtime : Nat) :
    ExceptT Stop (StateM Process) String := do
  mutexLock
  let serverId ← luaLCheckinteger checkinteger 1 serverId
  let robotNo ← luaLCheckinteger checkinteger 2 robotNo
  if serverId ≤ 0 ∨ serverId > maxServerId then luaLError .serverIdRange
  if robotNo ≤ 0 ∨ robotNo > maxRobotNo then luaLError .robotNoRange
  let next ← orError ((← get).node.advance nowtime)
  modify ({ · with node := next })
  let id ← orError (format serverId.toNat robotNo.toNat nowtime next.seq)
  mutexUnlock
  return id

inductive Event (Value : Type) where
  | createId (serverId robotNo : Value) (nowtime : Nat)

/-- One call of `create_id`, in any service and at any time. -/
def step (w : Process) : Event Value → Option (Process × Except Stop String)
  | .createId serverId robotNo nowtime =>
      if w.dead then none
      else
        let out := outcome (lcreateId checkinteger serverId robotNo nowtime) w
        some (out.2, out.1)

def machine : Machine Process (Event Value) (Except Stop String) where
  init := ⟨false, ⟨0, 0⟩, false⟩
  step := step checkinteger

/-- The call comes out of `lcreate_id`, and the mutex is unlocked behind it. -/
def Released (o : Except Stop String) (w : Process) : Prop :=
  w.dead = false ∧ w.locked = false ∧ o ≠ .error .blocked

def inRange (n : Option Int) (max : Int) : Bool :=
  match n with
  | some n => 0 < n && n ≤ max
  | none => false

/-- The numbers of the second are not used up. -/
def room (node : Node) (nowtime : Nat) : Bool :=
  node.sec = 0 || node.seq ≤ seqMaxValue || node.sec ≠ nowtime

def accepted (w : Process) : Event Value → Bool
  | .createId serverId robotNo nowtime =>
      inRange (checkinteger serverId) maxServerId && inRange (checkinteger robotNo) maxRobotNo &&
        room w.node nowtime

end Code

section Calls
variable {Value : Type} {checkinteger : Value → Option Int}
  {w : Process} {serverId robotNo : Value} {nowtime : Nat}

theorem inRange_iff {n : Int} {max : Int} : inRange (some n) max = true ↔ ¬ (n ≤ 0 ∨ n > max) := by
  simp only [inRange, Bool.and_eq_true, decide_eq_true_eq]
  omega

theorem advance_ok_iff {node : Node} :
    (∃ next, node.advance nowtime = .ok next) ↔ room node nowtime = true := by
  simp only [Node.advance, room, Bool.or_eq_true, decide_eq_true_eq]
  split
  · simp [*]
  · split
    · simp only [reduceCtorEq, exists_false, false_iff]
      omega
    · split
      · simp_all
      · simp only [Except.ok.injEq, exists_eq', true_iff]
        omega

theorem mutexLock_free (free : w.locked = false) :
    outcome mutexLock w = (.ok (), { w with locked := true }) := by
  rw [mutexLock, outcome_bind_ok (outcome_get w)]
  simp only [free, Bool.false_eq_true, if_false]
  rfl

theorem lcreateId_locked (held : w.locked = true) :
    outcome (lcreateId checkinteger serverId robotNo nowtime) w = (.error .blocked, w) := by
  have waits : outcome mutexLock w = (.error .blocked, w) := by
    rw [mutexLock, outcome_bind_ok (outcome_get w)]
    simp only [held, if_true]
    rfl
  rw [lcreateId, outcome_bind_error waits]

theorem luaLCheckinteger_some {v : Value} {n : Int} (arg : Nat) (read : checkinteger v = some n) :
    outcome (luaLCheckinteger checkinteger arg v) w = (.ok n, w) := by
  rw [luaLCheckinteger, read]
  rfl

theorem luaLCheckinteger_none {v : Value} (arg : Nat) (read : checkinteger v = none) :
    outcome (luaLCheckinteger checkinteger arg v) w = (.error (.argError arg), w) := by
  rw [luaLCheckinteger, read]
  rfl

theorem orError_ok {α : Type} (a : α) : outcome (orError (.ok a)) w = (.ok a, w) := rfl

/-- `luaL_error` does not return, and the mutex stays as it is. -/
theorem luaLError_stops (α : Type) (err : Error) (w : Process) :
    ∃ stop w', outcome (luaLError err : ExceptT Stop (StateM Process) α) w = (.error stop, w') ∧
      w'.locked = w.locked := by
  unfold luaLError
  split
  · exact ⟨_, _, outcome_throw _ _, rfl⟩
  · exact ⟨_, _, outcome_throw _ _, rfl⟩
  · exact ⟨_, _, outcome_bind_ok (outcome_modify _ _) _, rfl⟩

/-- A call that gets the mutex keeps it or returns an id and releases it. -/
theorem lcreateId_free (checkinteger : Value → Option Int) (serverId robotNo : Value)
    (nowtime : Nat) (free : w.locked = false) :
    (accepted checkinteger w (.createId serverId robotNo nowtime) = false ∧
      (outcome (lcreateId checkinteger serverId robotNo nowtime) w).2.locked = true) ∨
    accepted checkinteger w (.createId serverId robotNo nowtime) = true ∧
      ∃ next id, outcome (lcreateId checkinteger serverId robotNo nowtime) w =
        (.ok id, ⟨false, next, w.dead⟩) := by
  rw [lcreateId, outcome_bind_ok (mutexLock_free free)]
  cases first : checkinteger serverId with
  | none =>
      rw [outcome_bind_error (luaLCheckinteger_none 1 first)]
      exact .inl ⟨by simp [accepted, first, inRange], rfl⟩
  | some serverId' =>
      rw [outcome_bind_ok (luaLCheckinteger_some 1 first)]
      cases second : checkinteger robotNo with
      | none =>
          rw [outcome_bind_error (luaLCheckinteger_none 2 second)]
          exact .inl ⟨by simp [accepted, second, inRange], rfl⟩
      | some robotNo' =>
          rw [outcome_bind_ok (luaLCheckinteger_some 2 second)]
          by_cases server : serverId' ≤ 0 ∨ serverId' > maxServerId
          · obtain ⟨stop, w', stops, kept⟩ := luaLError_stops PUnit .serverIdRange
              { w with locked := true }
            rw [if_pos server, outcome_bind_error stops]
            have refused := mt inRange_iff.mp (not_not.mpr server)
            exact .inl ⟨by simp [accepted, first, refused], kept⟩
          · rw [if_neg server]
            by_cases robot : robotNo' ≤ 0 ∨ robotNo' > maxRobotNo
            · obtain ⟨stop, w', stops, kept⟩ := luaLError_stops PUnit .robotNoRange
                { w with locked := true }
              rw [if_pos robot, outcome_bind_error stops]
              have refused := mt inRange_iff.mp (not_not.mpr robot)
              exact .inl ⟨by simp [accepted, second, refused], kept⟩
            · rw [if_neg robot, outcome_bind_ok (outcome_get _)]
              cases advanced : w.node.advance nowtime with
              | error err =>
                  have full : ¬ room w.node nowtime = true := by
                    rw [← advance_ok_iff, advanced]
                    rintro ⟨_, ⟨⟩⟩
                  obtain ⟨stop, w', stops, kept⟩ := luaLError_stops Node err
                    { w with locked := true }
                  rw [outcome_bind_error (show outcome (orError (.error err)) _ = _ from stops)]
                  exact .inl ⟨by simp [accepted, full], kept⟩
              | ok next =>
                  have free : room w.node nowtime = true := advance_ok_iff.mp ⟨next, advanced⟩
                  refine .inr ⟨?_, next, ?_⟩
                  · simp only [accepted, first, second, inRange_iff.mpr server,
                      inRange_iff.mpr robot, free, Bool.and_self]
                  · rw [outcome_bind_ok (orError_ok next), outcome_bind_ok (outcome_modify _ _),
                      format_eq, outcome_bind_ok (orError_ok _)]
                    exact ⟨_, rfl⟩

/-- A call from an unlocked state is released exactly when it is accepted. -/
theorem step_free {w' : Process} {e : Event Value} {o : Except Stop String}
    (free : w.locked = false) (h : step checkinteger w e = some (w', o)) :
    Released o w' ↔ accepted checkinteger w e = true := by
  obtain ⟨serverId, robotNo, nowtime⟩ := e
  simp only [step] at h
  split at h
  · cases h
  case isFalse alive =>
      cases h
      obtain ⟨refused, kept⟩ | ⟨taken, next, id, out⟩ :=
        lcreateId_free checkinteger serverId robotNo nowtime free
      · simp [Released, refused, kept]
      · simp [Released, taken, out, alive]

/-- Integers out of their ranges kill the process. -/
theorem lcreateId_killed {server robot : Int} (free : w.locked = false)
    (first : checkinteger serverId = some server) (second : checkinteger robotNo = some robot)
    (out : (inRange (some server) maxServerId && inRange (some robot) maxRobotNo) = false) :
    outcome (lcreateId checkinteger serverId robotNo nowtime) w =
      (.error .killed, ⟨true, w.node, true⟩) := by
  rw [lcreateId, outcome_bind_ok (mutexLock_free free),
    outcome_bind_ok (luaLCheckinteger_some 1 first),
    outcome_bind_ok (luaLCheckinteger_some 2 second)]
  by_cases refused : server ≤ 0 ∨ server > maxServerId
  · rw [if_pos refused]
    exact outcome_bind_error rfl _
  · rw [if_neg refused, if_pos]
    · exact outcome_bind_error rfl _
    · rw [inRange_iff.mpr refused, Bool.true_and] at out
      by_contra accepts
      rw [inRange_iff.mpr accepts] at out
      cases out

/-- Behind a call that keeps the mutex every call blocks. -/
theorem step_locked {w' : Process} {e : Event Value} {o : Except Stop String}
    (held : w.locked = true) (h : step checkinteger w e = some (w', o)) :
    o = .error .blocked ∧ w' = w := by
  obtain ⟨serverId, robotNo, nowtime⟩ := e
  simp only [step, lcreateId_locked held] at h
  split at h
  · cases h
  · cases h
    exact ⟨rfl, rfl⟩

end Calls

section Runs
variable {Value : Type} {checkinteger : Value → Option Int}

/-- In every run all calls come out and leave the mutex unlocked exactly when each of them
is accepted in the state before it. -/
theorem unlocked_iff_accepted {trace : List (Event Value × Process × Except Stop String × Process)}
    {w : Process} (reach : (machine checkinteger).record.Reach trace w) :
    (∀ x ∈ trace, Released x.2.2.1 x.2.2.2) ↔
      ∀ x ∈ trace, accepted checkinteger x.2.1 x.1 = true := by
  refine (reach.record_iff (fun w => w.locked = false) rfl
    (P := fun _ _ o w' => Released o w') (Q := fun w e _ _ => accepted checkinteger w e = true)
    ?_ ?_).2
  · intro w e w' o free step released
    exact released.2.1
  · intro w e w' o free step
    exact step_free free step

theorem unlocked_of_two_calls :
    ∃ trace w, (machine (id : Option Int → Option Int)).record.Reach trace w ∧
      trace.length = 2 ∧ ∀ x ∈ trace, Released x.2.2.1 x.2.2.2 := by
  have reach : (machine (id : Option Int → Option Int)).record.Reach _ _ :=
    .next (.next .init (e := .createId (some 1) (some 1) 5) rfl)
      (e := .createId (some 7) (some 31) 5) rfl
  refine ⟨_, _, reach, rfl, (unlocked_iff_accepted reach).mpr ?_⟩
  decide

/-- The call that gives nil as its server raises and keeps the mutex; the call after it,
with arguments in their ranges, blocks. -/
theorem blocked_of_nil_serverId :
    ∃ trace w, (machine (id : Option Int → Option Int)).record.Reach trace w ∧
      trace.map (fun x => (x.1, x.2.2.1)) =
        [(.createId none (some 1) 5, .error (.argError 1)),
          (.createId (some 1) (some 1) 5, .error .blocked)] ∧
      w.locked = true :=
  ⟨_, _, .next (.next .init (e := .createId none (some 1) 5) rfl)
    (e := .createId (some 1) (some 1) 5) rfl, rfl, rfl⟩

end Runs

end Qiuqiu.Snowflake.Lock
