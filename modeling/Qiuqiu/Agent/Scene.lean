import Mathlib.Data.List.Basic
import Mathlib.Logic.Function.Basic
import Qiuqiu.Base.Machine

/-!
The scene of an agent (service/agent/scene.lua). `enter` names its random scene by
two local variables that hide the variables `snode` and `sname` of the file, so the
assignments after the call change nothing: the agent never knows that it is in a
scene. A run does what it should exactly when no scene accepts the agent and no
`enter` comes while another one waits for its scene.
-/
namespace Qiuqiu.Agent.Scene
variable {Node : Type}

/-- `runconfig.scene` in the order of `pairs`, and the node of the agent. -/
structure Config (Node : Type) where
  scene : List (Node × List Nat)
  mynode : Node

namespace Config
variable [DecidableEq Node] (cfg : Config Node)

def nodes : List Node :=
  cfg.scene.flatMap fun kv =>
    if (cfg.scene.lookup cfg.mynode).isSome then [kv.1, cfg.mynode] else [kv.1]

/-- The result of `random_scene`, or that a call of `math.random` raised; `idx` are the
two numbers it returned. -/
inductive Pick (Node : Type) where
  | impossible
  | raises
  | scene (node : Node) (sid : Nat)

def randomScene (idx : Nat × Nat) : Pick Node :=
  if cfg.nodes = [] then .raises
  else
    match cfg.nodes[idx.1 - 1]? with
    | none => .impossible
    | some scenenode =>
        match cfg.scene.lookup scenenode with
        | none => .raises
        | some scenelist =>
            if scenelist = [] then .raises
            else
              match scenelist[idx.2 - 1]? with
              | none => .impossible
              | some sid => .scene scenenode sid

end Config

/-- A scene: its node and the name of its service. -/
abbrev Place (Node : Type) := Node × String

/-- The variables of the file, the calls of `enter` that wait for a scene, by
coroutine, and the scenes that have accepted the agent and were not told to leave. -/
structure State (Node : Type) where
  snode : Option Node
  sname : Option String
  entering : Nat → Option (Place Node)
  scenes : List (Place Node)

/-- `answered` is the end of the call of a scene: its result, or that it raised. -/
inductive Event where
  | enter (c : Nat) (idx : Nat × Nat)
  | answered (c : Nat) (isok : Option Bool)
  | leaveScene (c : Nat)

inductive Output (Node : Type) where
  | calls (place : Place Node) (cmd : String)
  | returns (result : Option (String × Nat × String))
  | raises
  deriving DecidableEq

/-- The answer to an agent that is in a scene. -/
def refusal : Option (String × Nat × String) := some ("enter", 1, "已在场景")

namespace State
variable (s : State Node)

def setEntering (c : Nat) (place : Option (Place Node)) : State Node :=
  { s with entering := Function.update s.entering c place }

/-- `PROTO_FUN.enter` behind its call: both assignments are those of a local variable to
itself. -/
def answered (c : Nat) (place : Place Node) : Option Bool → State Node × Output Node
  | none => (s.setEntering c none, .raises)
  | some false => (s.setEntering c none, .returns (some ("enter", 1, "进入失败")))
  | some true => ({ s.setEntering c none with scenes := place :: s.scenes }, .returns none)

/-- `PROTO_FUN.leave_scene`. The type it calls with, `name`, is nothing the file
assigns, and a call with the type nil raises. -/
def leaveScene : State Node × Output Node :=
  if s.sname.isNone then (s, .returns none) else (s, .raises)

variable [DecidableEq Node] (cfg : Config Node)

/-- `PROTO_FUN.enter` up to its call. -/
def enter (c : Nat) (idx : Nat × Nat) :
    Option (State Node × Output Node) :=
  if s.sname.isSome then some (s, .returns refusal)
  else
    match cfg.randomScene idx with
    | .impossible => none
    | .raises => some (s, .raises)
    | .scene snode sid =>
        let sname := "scene" ++ toString sid
        some (s.setEntering c (some (snode, sname)), .calls (snode, sname) "enter")

def step : Event → Option (State Node × Output Node)
  | .enter c idx => if (s.entering c).isNone then s.enter cfg c idx else none
  | .answered c isok => (s.entering c).map fun place => s.answered c place isok
  | .leaveScene c => if (s.entering c).isNone then some s.leaveScene else none

end State

def machine [DecidableEq Node] (cfg : Config Node) : Machine (State Node) Event (Output Node) where
  init := ⟨none, none, fun _ => none, []⟩
  step := fun s e => s.step cfg e

/-- A step does what the file is for. -/
structure StepOk (s : State Node) (e : Event) (o : Output Node) (s' : State Node) : Prop where
  entered : ∀ c place, e = .answered c (some true) → s.entering c = some place →
    s'.snode = some place.1 ∧ s'.sname = some place.2
  refused : ∀ c idx, e = .enter c idx → (s.scenes ≠ [] ∨ ∃ c' place, s.entering c' = some place) →
    o = .returns refusal
  left : ∀ c place, e = .leaveScene c → place ∈ s.scenes → o = .calls place "leave"
  atMostOne : ∀ place ∈ s'.scenes, ∀ place' ∈ s'.scenes, place = place'
  named : ∀ sname, s'.sname = some sname → ∃ snode, s'.snode = some snode ∧
    ∀ place, place ∈ s'.scenes ↔ place = (snode, sname)

/-- No scene accepts the agent, and `enter` comes while no other one waits. -/
def Alone (s : State Node) : Event → Prop
  | .enter _ _ => ∀ c, s.entering c = none
  | .answered _ isok => isok ≠ some true
  | .leaveScene _ => True

/-- The agent is in no scene and knows of none. -/
structure Outside (s : State Node) : Prop where
  sname : s.sname = none
  scenes : s.scenes = []

section Step
variable {s s' : State Node} {e : Event} {o : Output Node}

/-- What a step can do while the agent knows of no scene. -/
inductive Moves (s : State Node) : Event → Output Node → State Node → Prop
  | fails {c idx} : Moves s (.enter c idx) .raises s
  | calls {c idx place} :
      Moves s (.enter c idx) (.calls place "enter") (s.setEntering c (some place))
  | raised {c place} : s.entering c = some place →
      Moves s (.answered c none) .raises (s.setEntering c none)
  | denied {c place result} : s.entering c = some place →
      Moves s (.answered c (some false)) (.returns result) (s.setEntering c none)
  | accepted {c place} : s.entering c = some place →
      Moves s (.answered c (some true)) (.returns none)
        { s.setEntering c none with scenes := place :: s.scenes }
  | stays {c} : Moves s (.leaveScene c) (.returns none) s

theorem step_moves [DecidableEq Node] {cfg : Config Node} (unknown : s.sname = none)
    (step : s.step cfg e = some (s', o)) : Moves s e o s' := by
  cases e with
  | enter c idx =>
      simp only [State.step, State.enter, unknown] at step
      split at step
      · split at step
        · contradiction
        · split at step
          · cases step
          · cases step
            exact .fails
          · cases step
            exact .calls
      · cases step
  | answered c isok =>
      obtain ⟨place, waits, answer⟩ := Option.map_eq_some_iff.mp step
      cases isok with
      | none =>
          cases answer
          exact .raised waits
      | some isok =>
          cases isok with
          | false =>
              cases answer
              exact .denied waits
          | true =>
              cases answer
              exact .accepted waits
  | leaveScene c =>
      simp only [State.step, State.leaveScene, unknown] at step
      split at step
      · cases step
        exact .stays
      · cases step

/-- A step that accepts no scene leaves the agent outside. -/
theorem Outside.moves (outside : Outside s) (moves : Moves s e o s') (alone : Alone s e) :
    Outside s' := by
  cases moves with
  | fails => exact outside
  | calls => exact ⟨outside.sname, outside.scenes⟩
  | raised _ => exact ⟨outside.sname, outside.scenes⟩
  | denied _ => exact ⟨outside.sname, outside.scenes⟩
  | accepted _ => exact absurd rfl alone
  | stays => exact outside

theorem Outside.stepOk (outside : Outside s) (moves : Moves s e o s') (alone : Alone s e) :
    StepOk s e o s' where
  entered := by
    rintro c place rfl
    exact absurd rfl alone
  refused := by
    rintro c idx rfl busy
    cases busy with
    | inl inside => exact absurd outside.scenes inside
    | inr waits =>
        obtain ⟨c', place, waits⟩ := waits
        cases waits.symm.trans (alone c')
  left := by
    intro c place _ mem
    rw [outside.scenes] at mem
    cases mem
  atMostOne := by
    intro place mem
    rw [(outside.moves moves alone).scenes] at mem
    cases mem
  named := by
    intro sname known
    cases known.symm.trans (outside.moves moves alone).sname

/-- A scene that accepts the agent is not remembered, and an `enter` beside another one
is not refused. -/
theorem Outside.alone_of_stepOk (outside : Outside s) (moves : Moves s e o s')
    (ok : StepOk s e o s') : Alone s e := by
  cases moves with
  | fails =>
      intro c
      by_contra waits
      obtain ⟨place, waits⟩ := Option.ne_none_iff_exists'.mp waits
      cases ok.refused _ _ rfl (.inr ⟨c, place, waits⟩)
  | calls =>
      intro c
      by_contra waits
      obtain ⟨place, waits⟩ := Option.ne_none_iff_exists'.mp waits
      cases ok.refused _ _ rfl (.inr ⟨c, place, waits⟩)
  | raised _ => exact nofun
  | denied _ => exact nofun
  | accepted waits =>
      have known := (ok.entered _ _ rfl waits).2
      cases known.symm.trans outside.sname
  | stays => trivial

end Step

/-- Along every interleaving of the requests of an agent, every step does what it should
exactly when no scene accepts the agent and no `enter` comes while another one waits. -/
theorem stepOk_iff_alone [DecidableEq Node] (cfg : Config Node)
    {trace : List (Event × State Node × Output Node × State Node)} {s : State Node}
    (reach : (machine cfg).record.Reach trace s) :
    (∀ x ∈ trace, StepOk x.2.1 x.1 x.2.2.1 x.2.2.2) ↔ ∀ x ∈ trace, Alone x.2.1 x.1 := by
  refine (reach.record_iff Outside ⟨rfl, rfl⟩ (Q := fun s e _ _ => Alone s e) ?_ ?_).2
  · intro s e s' o outside step ok
    have moves := step_moves outside.sname step
    exact outside.moves moves (outside.alone_of_stepOk moves ok)
  · intro s e s' o outside step
    have moves := step_moves outside.sname step
    exact ⟨outside.alone_of_stepOk moves, outside.stepOk moves⟩

def oneScene : Config Nat := ⟨[(1, [1001, 1002])], 1⟩

/-- A scene that denies the agent. -/
theorem stepOk_of_denied :
    ∃ trace s, (machine oneScene).record.Reach trace s ∧ trace.length = 3 ∧
      ∀ x ∈ trace, StepOk x.2.1 x.1 x.2.2.1 x.2.2.2 := by
  have reach : (machine oneScene).record.Reach _ _ :=
    .next (.next (.next .init (e := .enter 0 (1, 2)) rfl) (e := .answered 0 (some false)) rfl)
      (e := .leaveScene 0) rfl
  refine ⟨_, _, reach, rfl, (stepOk_iff_alone oneScene reach).mpr ?_⟩
  simp only [List.nil_append, List.cons_append, List.forall_mem_cons]
  refine ⟨?_, ?_, trivial, ?_⟩
  · intro _
    rfl
  · intro accepted
    cases accepted
  · intro _ mem
    cases mem

/-- The scene 1002 accepts the agent, and the agent enters the scene 1001 too. -/
theorem two_scenes_accept :
    ∃ trace s, (machine oneScene).record.Reach trace s ∧
      s.scenes = [(1, "scene1001"), (1, "scene1002")] ∧ s.sname = none ∧
      ¬ ∀ x ∈ trace, StepOk x.2.1 x.1 x.2.2.1 x.2.2.2 := by
  have reach : (machine oneScene).record.Reach _ _ :=
    .next (.next (.next (.next .init (e := .enter 0 (1, 2)) rfl)
      (e := .answered 0 (some true)) rfl) (e := .enter 0 (1, 1)) rfl)
      (e := .answered 0 (some true)) rfl
  refine ⟨_, _, reach, rfl, rfl, fun all => ?_⟩
  have last := all _ (List.mem_append_right _ List.mem_cons_self)
  cases (last.entered 0 (1, "scene1001") rfl rfl).2

end Qiuqiu.Agent.Scene
