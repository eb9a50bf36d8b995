import Mathlib.Logic.Function.Basic
import Qiuqiu.Base.Machine

/-!
The profile of the requests of a database service (lualib/profile_cmd.lua and the `lua`
dispatch of service/databasecell/databasecell.lua). `CmdCal_S` starts the profile of the
coroutine when `IsRecord` is set; `CmdCal_E` asks the flag again before it stops it, and a
request that raises, or a `closedb` that is not for this service, does not come to it.
-/
namespace Qiuqiu.Database.Profile

inductive Call where
  | start
  | stop
  deriving DecidableEq

/-- A coroutine: whether `profile` holds a start time for it, the local `isRecord` of the
request it runs, whether it is dead, and its calls of `profile` so far, the last one
first. A coroutine without a request is new or lies in the pool. -/
structure Co where
  timing : Bool
  request : Option Bool
  dead : Bool
  calls : List Call

namespace Co
variable (c : Co)

/-- `profile.start` (service-src/service_snlua.c), and whether it raised. -/
def start : Co × Bool :=
  let c := { c with calls := .start :: c.calls }
  if c.timing then (c, true) else ({ c with timing := true }, false)

/-- `profile.stop`. -/
def stop : Co × Bool :=
  let c := { c with calls := .stop :: c.calls }
  if c.timing then ({ c with timing := false }, false) else (c, true)

/-- The value of `CmdCal_S`, or that it raised. -/
def cmdCalS (isRecord : Bool) : Co × Option Bool :=
  if isRecord then
    match c.start with
    | (c, true) => (c, none)
    | (c, false) => (c, some true)
  else (c, some false)

/-- `CmdCal_E`, and whether it raised. -/
def cmdCalE (isRecord : Bool) : Co × Bool := if isRecord then c.stop else (c, false)

/-- The request is over: its coroutine goes to the pool, or dies when it raised. -/
def finish (raised : Bool) : Co := { c with request := none, dead := raised }

end Co

structure Message where
  session : Nat
  source : Nat
  command : String

/-- The names of the handlers of the service and the address of its manager. -/
structure Config where
  accept : List String
  response : List String
  dbMgrno : Nat

/-- Where the dispatch of a message goes behind `CmdCal_S`. -/
inductive Route where
  | handler
  | raises
  | returns
  deriving DecidableEq

def Config.route (cfg : Config) (m : Message) : Route :=
  if m.session = 0 then
    if m.command ∈ cfg.accept then .handler else .raises
  else if m.command ∈ cfg.response then
    if m.command = "closedb" ∧ m.source ≠ cfg.dbMgrno then .returns else .handler
  else .raises

namespace Co
variable (c : Co)

/-- The dispatch of a message up to its handler. -/
def dispatch (isRecord : Bool) (route : Route) : Co :=
  match c.cmdCalS isRecord with
  | (c, none) => c.finish true
  | (c, some isRecord) =>
      match route with
      | .handler => { c with request := some isRecord }
      | .raises => c.finish true
      | .returns => c.finish false

/-- The dispatch behind its handler. `started` is its local `isRecord`. -/
def handlerReturns (started isRecord : Bool) : Co :=
  if started then
    match c.cmdCalE isRecord with
    | (c, raised) => c.finish raised
  else c.finish false

end Co

structure State where
  isRecord : Bool
  cos : Nat → Co

/-- A handler is free to yield: anything may happen before it returns or raises. -/
inductive Event where
  | profileOn
  | profileOff
  | dispatch (co : Nat) (m : Message)
  | handlerReturns (co : Nat)
  | handlerRaises (co : Nat)

def State.set (s : State) (co : Nat) (c : Co) : State :=
  { s with cos := Function.update s.cos co c }

def State.step (cfg : Config) (s : State) : Event → Option State
  | .profileOn => some { s with isRecord := true }
  | .profileOff => some { s with isRecord := false }
  | .dispatch co m =>
      if (s.cos co).request.isNone && !(s.cos co).dead then
        some (s.set co ((s.cos co).dispatch s.isRecord (cfg.route m)))
      else none
  | .handlerReturns co =>
      (s.cos co).request.map fun started =>
        s.set co ((s.cos co).handlerReturns started s.isRecord)
  | .handlerRaises co => (s.cos co).request.map fun _ => s.set co ((s.cos co).finish true)

def machine (cfg : Config) (profileCmd : Bool) : Machine State Event Unit where
  init := ⟨profileCmd, fun _ => ⟨false, none, false, []⟩⟩
  step := fun s e => (s.step cfg e).map (·, ())

/-- Calls, the last one first, that start with a start and take turns. -/
def Alternates : List Call → Prop
  | [] => True
  | [c] => c = .start
  | c :: c' :: calls => c ≠ c' ∧ Alternates (c' :: calls)

/-- The calls of a coroutine take turns, and without a request the last one is no start. -/
structure Co.Balanced (c : Co) : Prop where
  alternates : Alternates c.calls
  stopped : c.request = none → c.calls.head? ≠ some .start

def State.Balanced (s : State) : Prop := ∀ co, (s.cos co).Balanced

/-- A request that starts the profile comes to its handler, which returns while the flag
is set. -/
def StepOk (cfg : Config) (s : State) : Event → Prop
  | .dispatch _ m => s.isRecord = true → cfg.route m = .handler
  | .handlerReturns co => (s.cos co).request = some true → s.isRecord = true
  | .handlerRaises co => (s.cos co).request ≠ some true
  | _ => True

/-- The profile times a coroutine exactly while it runs a request that started it. -/
structure Co.Inv (c : Co) : Prop where
  timing : c.timing = true ↔ c.request = some true
  started : c.timing = true ↔ c.calls.head? = some .start
  alternates : Alternates c.calls

namespace Co
variable {c : Co} {isRecord started : Bool} {route : Route}

theorem Inv.balanced (inv : c.Inv) : c.Balanced where
  alternates := inv.alternates
  stopped := by
    intro none started
    have running := inv.timing.mp (inv.started.mpr started)
    rw [none] at running
    cases running

/-- A call takes its turn: a stop behind a start and a start otherwise. -/
theorem alternates_cons {call : Call} {calls : List Call} (alternates : Alternates calls)
    (turn : calls.head? = some .start ↔ call = .stop) : Alternates (call :: calls) := by
  match calls, call with
  | [], .start => rfl
  | [], .stop => cases turn.mpr rfl
  | .start :: _, .start => cases turn.mp rfl
  | .start :: _, .stop => exact ⟨nofun, alternates⟩
  | .stop :: _, .start => exact ⟨nofun, alternates⟩
  | .stop :: _, .stop => cases turn.mpr rfl

theorem Inv.idle (inv : c.Inv) (idle : c.request ≠ some true) :
    c.timing = false ∧ c.calls.head? ≠ some .start := by
  have untimed : c.timing ≠ true := fun timed => idle (inv.timing.mp timed)
  exact ⟨Bool.eq_false_iff.mpr untimed, fun started => untimed (inv.started.mpr started)⟩

/-- A request that ends without a profile. -/
theorem Inv.finish (inv : c.Inv) (idle : c.request ≠ some true) (raised : Bool) :
    (c.finish raised).Inv where
  timing := by simp [Co.finish, (inv.idle idle).1]
  started := inv.started
  alternates := inv.alternates

/-- A request that ends with its profile started. -/
theorem not_balanced_finish (started : c.calls.head? = some .start) (raised : Bool) :
    ¬ (c.finish raised).Balanced := fun balanced => balanced.stopped rfl started

theorem Inv.start (inv : c.Inv) (idle : c.request ≠ some true) :
    c.start = ({ c with calls := .start :: c.calls, timing := true }, false) := by
  simp [Co.start, (inv.idle idle).1]

theorem Inv.stop (inv : c.Inv) (runs : c.request = some true) :
    c.stop = ({ c with calls := .stop :: c.calls, timing := false }, false) := by
  simp [Co.stop, inv.timing.mpr runs]

theorem Inv.dispatch (inv : c.Inv) (idle : c.request = none)
    (ok : isRecord = true → route = .handler) : (c.dispatch isRecord route).Inv := by
  have none : c.request ≠ some true := by simp [idle]
  cases isRecord with
  | true =>
      cases ok rfl
      simp only [Co.dispatch, Co.cmdCalS, inv.start none, if_true]
      refine ⟨by simp, by simp, alternates_cons inv.alternates ?_⟩
      simp [(inv.idle none).2]
  | false =>
      cases route with
      | handler =>
          refine ⟨?_, inv.started, inv.alternates⟩
          simp [Co.dispatch, Co.cmdCalS, (inv.idle none).1]
      | raises => exact inv.finish none true
      | returns => exact inv.finish none false

theorem Inv.handled_of_balanced (inv : c.Inv) (idle : c.request = none)
    (balanced : (c.dispatch isRecord route).Balanced) (records : isRecord = true) :
    route = .handler := by
  have none : c.request ≠ some true := by simp [idle]
  subst records
  simp only [Co.dispatch, Co.cmdCalS, inv.start none, if_true] at balanced
  cases route with
  | handler => rfl
  | raises => exact absurd balanced (not_balanced_finish rfl true)
  | returns => exact absurd balanced (not_balanced_finish rfl false)

theorem Inv.handlerReturns (inv : c.Inv) (runs : c.request = some started)
    (ok : started = true → isRecord = true) : (c.handlerReturns started isRecord).Inv := by
  cases started with
  | false => exact inv.finish (by simp [runs]) false
  | true =>
      cases ok rfl
      simp only [Co.handlerReturns, Co.cmdCalE, inv.stop runs, if_true]
      refine ⟨by simp [Co.finish], by simp [Co.finish], alternates_cons inv.alternates ?_⟩
      simp [inv.started.mp (inv.timing.mpr runs)]

theorem Inv.recorded_of_balanced (inv : c.Inv) (runs : c.request = some true)
    (balanced : (c.handlerReturns true isRecord).Balanced) : isRecord = true := by
  cases isRecord with
  | true => rfl
  | false =>
      have started := inv.started.mp (inv.timing.mpr runs)
      exact absurd balanced (not_balanced_finish started false)

end Co

namespace State
variable {cfg : Config} {s s' : State} {e : Event}

def Inv (s : State) : Prop := ∀ co, (s.cos co).Inv

/-- A step changes one coroutine. -/
theorem forall_set {P : Co → Prop} {co : Nat} {c : Co} (others : ∀ co, P (s.cos co)) (here : P c) :
    ∀ co', P ((s.set co c).cos co') := by
  intro co'
  simp only [State.set, Function.update_apply]
  split
  · exact here
  · exact others co'

theorem set_cos (co : Nat) (c : Co) : (s.set co c).cos co = c := Function.update_self ..

theorem Inv.step (inv : s.Inv) (step : s.step cfg e = some s') (ok : StepOk cfg s e) :
    s'.Inv := by
  cases e with
  | profileOn | profileOff =>
      cases step
      exact inv
  | dispatch co m =>
      rw [State.step, Option.ite_none_right_eq_some, Bool.and_eq_true, Option.isNone_iff_eq_none]
        at step
      obtain ⟨⟨idle, -⟩, eq⟩ := step
      cases eq
      exact forall_set inv ((inv co).dispatch idle ok)
  | handlerReturns co =>
      obtain ⟨started, runs, rfl⟩ := Option.map_eq_some_iff.mp step
      exact forall_set inv ((inv co).handlerReturns runs fun eq => ok (eq ▸ runs))
  | handlerRaises co =>
      obtain ⟨started, runs, rfl⟩ := Option.map_eq_some_iff.mp step
      exact forall_set inv ((inv co).finish ok true)

/-- A step that breaks the condition leaves a start without its stop. -/
theorem Inv.stepOk (inv : s.Inv) (step : s.step cfg e = some s') (balanced : s'.Balanced) :
    StepOk cfg s e := by
  cases e with
  | profileOn | profileOff => trivial
  | dispatch co m =>
      rw [State.step, Option.ite_none_right_eq_some, Bool.and_eq_true, Option.isNone_iff_eq_none]
        at step
      obtain ⟨⟨idle, -⟩, eq⟩ := step
      cases eq
      have here := balanced co
      rw [set_cos] at here
      exact (inv co).handled_of_balanced idle here
  | handlerReturns co =>
      obtain ⟨started, runs, rfl⟩ := Option.map_eq_some_iff.mp step
      intro recorded
      cases runs.symm.trans recorded
      have here := balanced co
      rw [set_cos] at here
      exact (inv co).recorded_of_balanced runs here
  | handlerRaises co =>
      obtain ⟨started, runs, rfl⟩ := Option.map_eq_some_iff.mp step
      intro recorded
      have here := balanced co
      rw [set_cos] at here
      exact Co.not_balanced_finish ((inv co).started.mp ((inv co).timing.mpr recorded)) true here

end State

/-- Along every interleaving the profile is balanced exactly when every request that starts
it comes to its handler and the handler returns while the flag is set. -/
theorem balanced_iff_recorded_to_the_end (cfg : Config) (profileCmd : Bool)
    {trace : List (Event × State × Unit × State)} {s : State}
    (reach : (machine cfg profileCmd).record.Reach trace s) :
    (∀ x ∈ trace, x.2.2.2.Balanced) ↔ ∀ x ∈ trace, StepOk cfg x.2.1 x.1 := by
  refine reach.states_iff State.Inv ?_ ?_ (fun s inv co => (inv co).balanced) ?_
  · intro co
    exact ⟨by simp [machine], by simp [machine], trivial⟩
  · intro s e s' o inv step ok
    obtain ⟨s₁, moved, eq⟩ := Option.map_eq_some_iff.mp step
    cases eq
    exact inv.step moved ok
  · intro s e s' o inv step balanced
    obtain ⟨s₁, moved, eq⟩ := Option.map_eq_some_iff.mp step
    cases eq
    exact inv.stepOk moved balanced

def modConfig : Config := ⟨["mod_createnexist"], ["mod_getdata", "closedb"], 1⟩

def modGetdata : Message := ⟨7, 2, "mod_getdata"⟩

/-- Two requests in turn on one coroutine, the first with the profile on. -/
theorem balanced_two_requests :
    ∃ trace s, (machine modConfig true).record.Reach trace s ∧
      (s.cos 0).calls = [.stop, .start] ∧ ∀ x ∈ trace, x.2.2.2.Balanced := by
  have reach : (machine modConfig true).record.Reach _ _ :=
    .next (.next (.next (.next (.next .init (e := .dispatch 0 modGetdata) rfl)
      (e := .handlerReturns 0) rfl) (e := .profileOff) rfl) (e := .dispatch 0 modGetdata) rfl)
      (e := .handlerReturns 0) rfl
  refine ⟨_, _, reach, rfl, (balanced_iff_recorded_to_the_end modConfig true reach).mpr ?_⟩
  simp only [List.nil_append, List.cons_append, List.forall_mem_cons]
  exact ⟨fun _ => rfl, fun _ => rfl, trivial, fun _ => rfl, nofun, nofun⟩

/-- The profile is switched off and on during a request: the next request on its coroutine
starts it again, and raises. -/
theorem start_without_stop :
    ∃ trace s, (machine modConfig true).record.Reach trace s ∧
      (s.cos 0).calls = [.start, .start] ∧ (s.cos 0).dead = true ∧
      ¬ ∀ x ∈ trace, x.2.2.2.Balanced := by
  have reach : (machine modConfig true).record.Reach _ _ :=
    .next (.next (.next (.next (.next .init (e := .dispatch 0 modGetdata) rfl)
      (e := .profileOff) rfl) (e := .handlerReturns 0) rfl) (e := .profileOn) rfl)
      (e := .dispatch 0 modGetdata) rfl
  refine ⟨_, _, reach, rfl, rfl, fun all => ?_⟩
  have last := all _ (List.mem_append_right _ List.mem_cons_self)
  exact (last 0).alternates.1 rfl

end Qiuqiu.Database.Profile
