import Mathlib.Logic.Function.Basic
import Mathlib.Tactic.SplitIfs
import Qiuqiu.Base.Assoc
import Qiuqiu.Base.Machine

/-!
The supervision of nodes (lualib/dpcluster.lua): `heartbeat` puts a record for a node into
`NODE_HEARTBEAT`, and the one loop of `dealwish_timer` calls every node of the table and
counts its failures in the record. The third failure removes the entry of the node,
whichever record it has by then, and runs `errFunc` inside the loop.
-/
namespace Qiuqiu.Cluster.Heartbeat
variable {Node : Type}

/-- The traversal of the table: the nodes it has visited, the last one first, and whether a
new key was put into the table meanwhile. `next` may then go anywhere. -/
structure Traversal (Node : Type) where
  seen : List Node
  disturbed : Bool

/-- Where the loop stands; in `idle` there is none, in `dead` it has raised. It yields in
its sleep, in its calls and in `errFunc`, not in `stepping`. -/
inductive Loop (Node : Type) where
  | idle
  | sleeping
  | stepping (t : Traversal Node)
  | calling (t : Traversal Node) (node : Node) (data : Nat)
  | inErrFunc (t : Traversal Node) (data : Nat)
  | dead

namespace Loop

/-- The loop goes on. -/
def Running : Loop Node → Prop
  | .idle | .dead => False
  | _ => True

/-- A key that was not there is put into the table. -/
def disturb : Loop Node → Loop Node
  | .stepping t => .stepping { t with disturbed := true }
  | .calling t node data => .calling { t with disturbed := true } node data
  | .inErrFunc t data => .inErrFunc { t with disturbed := true } data
  | loop => loop

end Loop

/-- What a call brings back: the empty answer of `CMD.req_heartbeat`, a packed message whose
first value is true or not, or bytes that are no packed message. -/
inductive Reply where
  | empty
  | packed (reOk : Bool)
  | corrupt

namespace Reply

/-- `lua_unpack_func`: the first value, or an error. -/
def luaUnpackFunc : Reply → Option Bool
  | .empty => some false
  | .packed reOk => some reOk
  | .corrupt => none

/-- `skynet.trash` takes a string or a pointer and raises for anything else. -/
def trash : Reply → Option Unit
  | .empty => none
  | _ => some ()

/-- `reOk` behind a call. `pcall` catches the error of the call itself; the two functions
behind it raise into the loop. -/
def reOk : Option Reply → Option Bool
  | none => some false
  | some reply => do
      let reOk ← reply.luaUnpackFunc
      reply.trash
      return reOk

end Reply

/-- The table holds the records by number, in the order of their registrations. `errCnt` is
the field of a record. The nodes of all registrations, the answers to the calls made for a
registration, the last one first, and the registrations whose `errFunc` was called are
those of the run. -/
structure State (Node : Type) where
  nodeHeartbeat : List (Node × Nat)
  errCnt : Nat → Nat
  loop : Loop Node
  registered : List Node
  beats : Nat → List Bool
  called : List Nat

/-- `answered` is the end of a call, with none when it raised. `nextRaises` is the error of
`next` at a key that is gone. -/
inductive Event (Node : Type) where
  | heartbeat (nodeName : Node)
  | wake
  | visit (nodeName : Node)
  | finish
  | nextRaises
  | answered (reply : Option Reply)
  | errFuncReturns
  | errFuncRaises

namespace State
variable [DecidableEq Node] (s : State Node)

def keys : List Node := s.nodeHeartbeat.map Prod.fst

/-- `heartbeat`, in any coroutine, also in `errFunc`. -/
def heartbeat (nodeName : Node) : State Node :=
  let data := s.registered.length
  { s with
    nodeHeartbeat := Assoc.put s.nodeHeartbeat nodeName data
    errCnt := Function.update s.errCnt data 0
    loop := match s.loop with
      | .idle => .sleeping
      | loop => if nodeName ∈ s.keys then loop else loop.disturb
    registered := s.registered ++ [nodeName]
    beats := Function.update s.beats data [] }

/-- The count for a record behind its call. -/
def count (t : Traversal Node) (nodeName : Node) (data : Nat) (reOk : Bool) :
    State Node × Option Nat :=
  let s := { s with beats := Function.update s.beats data (reOk :: s.beats data) }
  if reOk then
    ({ s with errCnt := Function.update s.errCnt data 0, loop := .stepping t }, none)
  else
    let s := { s with errCnt := Function.update s.errCnt data (s.errCnt data + 1) }
    if s.errCnt data ≥ 3 then
      ({ s with
        nodeHeartbeat := Assoc.remove s.nodeHeartbeat nodeName
        loop := .inErrFunc t data
        called := data :: s.called }, some data)
    else ({ s with loop := .stepping t }, none)

/-- The end of the call for a record. -/
def answered (t : Traversal Node) (nodeName : Node) (data : Nat) (reply : Option Reply) :
    State Node × Option Nat :=
  match Reply.reOk reply with
  | none => ({ s with loop := .dead }, none)
  | some reOk => s.count t nodeName data reOk

/-- `next` goes to a node it has not visited, or anywhere in a disturbed table. -/
def mayVisit (t : Traversal Node) (nodeName : Node) : Bool :=
  t.disturbed || decide (nodeName ∉ t.seen)

/-- A step and the registration whose `errFunc` it calls. -/
def step : Event Node → Option (State Node × Option Nat)
  | .heartbeat nodeName =>
      match s.loop with
      | .stepping _ => none
      | _ => some (s.heartbeat nodeName, none)
  | .wake =>
      match s.loop with
      | .sleeping => some ({ s with loop := .stepping ⟨[], false⟩ }, none)
      | _ => none
  | .visit nodeName =>
      match s.loop, s.nodeHeartbeat.lookup nodeName with
      | .stepping t, some data =>
          if mayVisit t nodeName then
            some ({ s with loop := .calling { t with seen := nodeName :: t.seen } nodeName data },
              none)
          else none
      | _, _ => none
  | .finish =>
      match s.loop with
      | .stepping t =>
          if t.disturbed || s.keys.all fun nodeName => !mayVisit t nodeName then
            some ({ s with loop := .sleeping }, none)
          else none
      | _ => none
  | .nextRaises =>
      match s.loop with
      | .stepping t =>
          if t.disturbed && t.seen.head?.any (· ∉ s.keys) then some ({ s with loop := .dead }, none)
          else none
      | _ => none
  | .answered reply =>
      match s.loop with
      | .calling t nodeName data => some (s.answered t nodeName data reply)
      | _ => none
  | .errFuncReturns =>
      match s.loop with
      | .inErrFunc t _ => some ({ s with loop := .stepping t }, none)
      | _ => none
  | .errFuncRaises =>
      match s.loop with
      | .inErrFunc _ _ => some ({ s with loop := .dead }, none)
      | _ => none

end State

def machine (Node : Type) [DecidableEq Node] : Machine (State Node) (Event Node) (Option Nat) where
  init := ⟨[], fun _ => 0, .idle, [], fun _ => [], []⟩
  step := State.step

/-- The last three calls made for a registration have failed. -/
def ThirdFailure (beats : List Bool) : Prop := ∃ older, beats = false :: false :: false :: older

/-- A step keeps the supervision: `errFunc` is called once and behind a third failure of its
registration, a registration goes by its own third failure or by another one of its node,
and the loop runs while there are registrations. -/
structure Supervises (s : State Node) (e : Event Node) (o : Option Nat) (s' : State Node) :
    Prop where
  calls : ∀ data, o = some data → data ∉ s.called ∧ ThirdFailure (s'.beats data)
  removes : ∀ kv ∈ s.nodeHeartbeat, kv ∉ s'.nodeHeartbeat →
    e = .heartbeat kv.1 ∨ (∃ t reply, e = .answered reply ∧ s.loop = .calling t kv.1 kv.2 ∧
      ThirdFailure (s'.beats kv.2))
  runs : s'.nodeHeartbeat ≠ [] → s'.loop.Running

/-- A step stays off the ways the loop goes wrong: nothing is registered with a dead loop,
a call that returns brings a packed message back, nothing is left when the loop dies, and
the third failure is counted for the record that the node still has. -/
def Undisturbed (s : State Node) : Event Node → Prop
  | .heartbeat _ => s.loop ≠ .dead
  | .answered none | .answered (some (.packed false)) =>
      ∀ t nodeName data, s.loop = .calling t nodeName data →
        2 ≤ s.errCnt data → (nodeName, data) ∈ s.nodeHeartbeat
  | .answered (some .empty) | .answered (some .corrupt) => False
  | .nextRaises | .errFuncRaises => s.nodeHeartbeat = []
  | _ => True

/-- The events that only move the loop on. -/
def Event.Plain : Event Node → Prop
  | .wake | .visit _ | .finish | .errFuncReturns => True
  | _ => False

/-- What a step can do. -/
inductive Moves [DecidableEq Node] (s : State Node) :
    Event Node → Option Nat → State Node → Prop
  | registers {nodeName} : Moves s (.heartbeat nodeName) none (s.heartbeat nodeName)
  | goes {e loop} : e.Plain → loop.Running →
      (∀ t nodeName data, loop = .calling t nodeName data → (nodeName, data) ∈ s.nodeHeartbeat) →
      Moves s e none { s with loop := loop }
  | dies {e} : e = .nextRaises ∨ e = .errFuncRaises → Moves s e none { s with loop := .dead }
  | chokes {t nodeName data reply} : s.loop = .calling t nodeName data →
      Reply.reOk reply = none → Moves s (.answered reply) none { s with loop := .dead }
  | succeeds {t nodeName data reply} : s.loop = .calling t nodeName data →
      Reply.reOk reply = some true → Moves s (.answered reply) none { s with
        beats := Function.update s.beats data (true :: s.beats data)
        errCnt := Function.update s.errCnt data 0
        loop := .stepping t }
  | fails {t nodeName data reply} : s.loop = .calling t nodeName data →
      Reply.reOk reply = some false → s.errCnt data < 2 → Moves s (.answered reply) none { s with
        beats := Function.update s.beats data (false :: s.beats data)
        errCnt := Function.update s.errCnt data (s.errCnt data + 1)
        loop := .stepping t }
  | third {t nodeName data reply} : s.loop = .calling t nodeName data →
      Reply.reOk reply = some false → 2 ≤ s.errCnt data →
      Moves s (.answered reply) (some data) { s with
        beats := Function.update s.beats data (false :: s.beats data)
        errCnt := Function.update s.errCnt data (s.errCnt data + 1)
        nodeHeartbeat := Assoc.remove s.nodeHeartbeat nodeName
        loop := .inErrFunc t data
        called := data :: s.called }

section Step
variable {s s' : State Node} {e : Event Node} {o : Option Nat}

/-- The failures since the last success. -/
def streak (beats : List Bool) : Nat := (beats.takeWhile (!·)).length

theorem thirdFailure_of_streak {beats : List Bool} (two : 2 ≤ streak beats) :
    ThirdFailure (false :: beats) := by
  match beats with
  | [] | [_] => simp [streak, List.takeWhile] at two <;> split at two <;> simp at two
  | true :: _ => simp [streak] at two
  | false :: true :: _ => simp [streak] at two
  | false :: false :: older => exact ⟨older, rfl⟩

/-- A record in the table is that of its node and its `errFunc` was not called; so is the
record of a call that is under way, whose node has a record. -/
structure Inv (s : State Node) : Prop where
  keyed : Assoc.Keyed s.nodeHeartbeat
  owner : ∀ kv ∈ s.nodeHeartbeat, s.registered[kv.2]? = some kv.1
  counts : ∀ data, s.errCnt data = streak (s.beats data)
  out : ∀ data ∈ s.called, data < s.registered.length ∧
    ∀ nodeName, (nodeName, data) ∉ s.nodeHeartbeat
  pending : ∀ t nodeName data, s.loop = .calling t nodeName data →
    nodeName ∈ s.keys ∧ data < s.registered.length ∧ data ∉ s.called
  runs : s.nodeHeartbeat ≠ [] → s.loop.Running

theorem Inv.lt (inv : Inv s) {kv : Node × Nat} (mem : kv ∈ s.nodeHeartbeat) :
    kv.2 < s.registered.length :=
  (List.getElem?_eq_some_iff.mp (inv.owner kv mem)).1

theorem Inv.uncalled (inv : Inv s) {kv : Node × Nat} (mem : kv ∈ s.nodeHeartbeat) :
    kv.2 ∉ s.called := fun called => (inv.out kv.2 called).2 kv.1 mem

/-- The answer to a call keeps the counts. -/
theorem Inv.counts_update (inv : Inv s) (data : Nat) (reOk : Bool) {n : Nat}
    (n_eq : n = streak (reOk :: s.beats data)) (data' : Nat) :
    Function.update s.errCnt data n data' =
      streak (Function.update s.beats data (reOk :: s.beats data) data') := by
  by_cases same : data' = data
  · subst same
    rw [Function.update_self, Function.update_self, n_eq]
  · rw [Function.update_of_ne same, Function.update_of_ne same, inv.counts]

/-- A step off the wrong ways gets what it counts. -/
theorem Undisturbed.reOk {reply : Option Reply} (ok : Undisturbed s (.answered reply)) :
    Reply.reOk reply ≠ none := by
  match reply with
  | none | some (.packed _) => simp [Reply.reOk, Reply.luaUnpackFunc, Reply.trash]
  | some .empty | some .corrupt => exact ok.elim

/-- A failure that is a third is counted for the record that the node still has. -/
theorem undisturbed_of_failed {reply : Option Reply} (failed : Reply.reOk reply = some false) :
    Undisturbed s (.answered reply) ↔
      ∀ t nodeName data, s.loop = .calling t nodeName data →
        2 ≤ s.errCnt data → (nodeName, data) ∈ s.nodeHeartbeat := by
  match reply with
  | none | some (.packed false) => rfl
  | some (.packed true) | some .empty | some .corrupt => cases failed

variable [DecidableEq Node]

theorem answered_moves {t : Traversal Node} {nodeName : Node} {data : Nat}
    (reply : Option Reply) (calling : s.loop = .calling t nodeName data) :
    Moves s (.answered reply) (s.answered t nodeName data reply).2
      (s.answered t nodeName data reply).1 := by
  unfold State.answered
  split
  next raises => exact .chokes calling raises
  next reOk got =>
    cases reOk with
    | true => exact .succeeds calling got
    | false =>
        simp only [State.count, Bool.false_eq_true, if_false, Function.update_self]
        split_ifs with enough
        · exact .third calling got (by omega)
        · exact .fails calling got (by omega)

theorem step_moves (keyed : Assoc.Keyed s.nodeHeartbeat) (step : s.step e = some (s', o)) :
    Moves s e o s' := by
  cases e with
  | heartbeat nodeName =>
      simp only [State.step] at step
      split at step
      · cases step
      · cases step
        exact .registers
  | wake =>
      simp only [State.step] at step
      split at step
      · cases step
        exact .goes trivial trivial nofun
      · cases step
  | visit nodeName =>
      simp only [State.step] at step
      split at step
      next t data stepping found =>
        split_ifs at step
        cases step
        refine .goes trivial trivial fun t' nodeName' data' eq => ?_
        cases eq
        exact keyed.lookup_some.mp found
      · cases step
  | finish =>
      simp only [State.step] at step
      split at step
      · split_ifs at step
        cases step
        exact .goes trivial trivial nofun
      · cases step
  | nextRaises =>
      simp only [State.step] at step
      split at step
      · split_ifs at step
        cases step
        exact .dies (.inl rfl)
      · cases step
  | answered reply =>
      simp only [State.step] at step
      split at step
      next t nodeName data calling =>
        have moves := answered_moves reply calling
        rw [Option.some.inj step] at moves
        exact moves
      · cases step
  | errFuncReturns =>
      simp only [State.step] at step
      split at step
      · cases step
        exact .goes trivial trivial nofun
      · cases step
  | errFuncRaises =>
      simp only [State.step] at step
      split at step
      · cases step
        exact .dies (.inr rfl)
      · cases step

/-- A registration disturbs the traversal at most. -/
theorem calling_heartbeat {t : Traversal Node} {nodeName nodeName' : Node} {data : Nat}
    (calling : (s.heartbeat nodeName).loop = .calling t nodeName' data) :
    ∃ t, s.loop = .calling t nodeName' data := by
  simp only [State.heartbeat] at calling
  split at calling
  · cases calling
  · split_ifs at calling
    · exact ⟨t, calling⟩
    · cases loop : s.loop <;> rw [loop] at calling <;> cases calling
      exact ⟨_, rfl⟩

theorem running_heartbeat (nodeName : Node) (alive : s.loop ≠ .dead) :
    (s.heartbeat nodeName).loop.Running := by
  simp only [State.heartbeat]
  split
  · trivial
  next other =>
    split_ifs <;> cases loop : s.loop <;> trivial

theorem Inv.heartbeat (inv : Inv s) (nodeName : Node) (alive : s.loop ≠ .dead) :
    Inv (s.heartbeat nodeName) where
  keyed := inv.keyed.put
  owner := by
    intro kv mem
    cases List.mem_cons.mp mem with
    | inl new =>
        subst new
        exact List.getElem?_concat_length
    | inr old =>
        obtain ⟨mem, -⟩ := Assoc.mem_remove.mp old
        exact (List.getElem?_append_left (inv.lt mem)).trans (inv.owner kv mem)
  counts := by
    intro data
    simp only [State.heartbeat, Function.update_apply]
    split_ifs
    · rfl
    · exact inv.counts data
  out := by
    intro data called
    obtain ⟨lt, absent⟩ := inv.out data called
    refine ⟨by simpa [State.heartbeat] using Nat.lt_succ_of_lt lt, fun nodeName' mem => ?_⟩
    cases List.mem_cons.mp mem with
    | inl new =>
        cases new
        exact Nat.lt_irrefl _ lt
    | inr old => exact absent nodeName' (Assoc.mem_remove.mp old).1
  pending := by
    intro t nodeName' data calling
    obtain ⟨t, calling⟩ := calling_heartbeat calling
    obtain ⟨present, lt, uncalled⟩ := inv.pending _ _ _ calling
    exact ⟨Assoc.mem_keys_put.mpr (.inr present),
      by simpa [State.heartbeat] using Nat.lt_succ_of_lt lt, uncalled⟩
  runs := fun _ => running_heartbeat nodeName alive

theorem Inv.moves (inv : Inv s) (moves : Moves s e o s') (ok : Undisturbed s e) : Inv s' := by
  cases moves with
  | registers => exact inv.heartbeat _ ok
  | goes plain running visits =>
      refine ⟨inv.keyed, inv.owner, inv.counts, inv.out, ?_, fun _ => running⟩
      intro t nodeName data calling
      have mem := visits t nodeName data calling
      exact ⟨List.mem_map_of_mem mem, inv.lt mem, inv.uncalled mem⟩
  | dies how =>
      have none : s.nodeHeartbeat = [] := by
        rcases how with rfl | rfl <;> exact ok
      exact ⟨inv.keyed, inv.owner, inv.counts, inv.out, nofun, fun some => absurd none some⟩
  | chokes calling raises => exact absurd raises ok.reOk
  | succeeds calling got =>
      exact ⟨inv.keyed, inv.owner, inv.counts_update _ true rfl, inv.out, nofun, fun _ => trivial⟩
  | fails calling got few =>
      refine ⟨inv.keyed, inv.owner, inv.counts_update _ false ?_, inv.out, nofun, fun _ => trivial⟩
      rw [inv.counts]
      rfl
  | @third t nodeName data reply calling got enough =>
      have mem := (undisturbed_of_failed got).mp ok t nodeName data calling enough
      refine ⟨inv.keyed.remove, fun kv inside => inv.owner kv (Assoc.mem_remove.mp inside).1,
        inv.counts_update _ false ?_, ?_, nofun, fun _ => trivial⟩
      · rw [inv.counts]
        rfl
      · intro data' called
        cases List.mem_cons.mp called with
        | inl same =>
            subst same
            refine ⟨inv.lt mem, fun nodeName' inside => ?_⟩
            obtain ⟨inside, other⟩ := Assoc.mem_remove.mp inside
            have owner := inv.owner _ inside
            rw [inv.owner _ mem] at owner
            exact other (Option.some.inj owner).symm
        | inr earlier =>
            obtain ⟨lt, absent⟩ := inv.out data' earlier
            exact ⟨lt, fun nodeName' inside => absent nodeName' (Assoc.mem_remove.mp inside).1⟩

theorem Inv.supervises (inv : Inv s) (moves : Moves s e o s') (ok : Undisturbed s e) :
    Supervises s e o s' where
  calls := by
    intro data calls
    cases moves with
    | third calling got enough =>
        cases calls
        refine ⟨(inv.pending _ _ _ calling).2.2, ?_⟩
        simp only [Function.update_self]
        exact thirdFailure_of_streak (inv.counts _ ▸ enough)
    | _ => cases calls
  removes := by
    intro kv mem gone
    cases moves with
    | @registers nodeName =>
        refine .inl ?_
        by_contra other
        refine gone (List.mem_cons_of_mem _ (Assoc.mem_remove.mpr ⟨mem, fun same => ?_⟩))
        exact other (same ▸ rfl)
    | @third t nodeName data reply calling got enough =>
        have current := (undisturbed_of_failed got).mp ok t nodeName data calling enough
        have here : kv.1 = nodeName := by
          by_contra other
          exact gone (Assoc.mem_remove.mpr ⟨mem, other⟩)
        have same : kv = (nodeName, data) :=
          List.inj_on_of_nodup_map inv.keyed mem current here
        subst same
        refine .inr ⟨t, reply, rfl, calling, ?_⟩
        simp only [Function.update_self]
        exact thirdFailure_of_streak (inv.counts _ ▸ enough)
    | _ => exact absurd mem gone
  runs := (inv.moves moves ok).runs

/-- A step that goes one of the wrong ways does not keep the supervision. -/
theorem Inv.undisturbed (inv : Inv s) (moves : Moves s e o s')
    (supervises : Supervises s e o s') : Undisturbed s e := by
  cases moves with
  | registers =>
      intro dead
      have runs := supervises.runs (List.cons_ne_nil _ _)
      simp [State.heartbeat, dead, Loop.Running, Loop.disturb] at runs
  | @goes e _ plain _ _ => cases e <;> trivial
  | dies how =>
      have none : s.nodeHeartbeat = [] := by
        by_contra some
        exact supervises.runs some
      rcases how with rfl | rfl <;> exact none
  | chokes calling raises =>
      -- The node of the call has a record, so the loop dies with a registration.
      obtain ⟨kv, mem, -⟩ := List.mem_map.mp (inv.pending _ _ _ calling).1
      exact (supervises.runs (List.ne_nil_of_mem mem)).elim
  | @succeeds t nodeName data reply calling got =>
      match reply with
      | some (.packed true) => trivial
      | none | some (.packed false) | some .empty | some .corrupt => cases got
  | fails calling got few =>
      refine (undisturbed_of_failed got).mpr fun t nodeName data calling' enough => ?_
      rw [calling] at calling'
      cases calling'
      omega
  | @third t nodeName data reply calling got enough =>
      refine (undisturbed_of_failed got).mpr fun t' nodeName' data' calling' _ => ?_
      rw [calling] at calling'
      cases calling'
      -- The node has a record; the step removes it, so it is the one that failed.
      obtain ⟨kv, mem, rfl⟩ := List.mem_map.mp (inv.pending _ _ _ calling).1
      have gone : kv ∉ Assoc.remove s.nodeHeartbeat kv.1 := fun inside =>
        (Assoc.mem_remove.mp inside).2 rfl
      cases supervises.removes kv mem gone with
      | inl registered => cases registered
      | inr own =>
          obtain ⟨t', -, -, calling', -⟩ := own
          rw [calling] at calling'
          cases calling'
          exact mem

end Step

/-- Along every interleaving the supervision is kept exactly when nothing is registered
with a dead loop, every call that returns brings a packed message back, the loop dies only
without registrations, and a third failure is counted for the record that the node still
has. -/
theorem supervises_iff_undisturbed [DecidableEq Node]
    {trace : List (Event Node × State Node × Option Nat × State Node)} {s : State Node}
    (reach : (machine Node).record.Reach trace s) :
    (∀ x ∈ trace, Supervises x.2.1 x.1 x.2.2.1 x.2.2.2) ↔
      ∀ x ∈ trace, Undisturbed x.2.1 x.1 := by
  refine (reach.record_iff Inv ?_ (Q := fun s e _ _ => Undisturbed s e) ?_ ?_).2
  · exact ⟨List.nodup_nil, nofun, fun _ => rfl, nofun, nofun, fun some => absurd rfl some⟩
  · intro s e s' o inv step supervises
    have moves := step_moves inv.keyed step
    exact inv.moves moves (inv.undisturbed moves supervises)
  · intro s e s' o inv step
    have moves := step_moves inv.keyed step
    exact ⟨inv.undisturbed moves, inv.supervises moves⟩

/-- A call that succeeds and three that fail, behind which `errFunc` registers the node
again. -/
theorem supervises_three_failures :
    ∃ trace s, (machine String).record.Reach trace s ∧ s.called = [0] ∧
      s.nodeHeartbeat = [("game", 1)] ∧ s.beats 0 = [false, false, false, true] ∧
      ∀ x ∈ trace, Supervises x.2.1 x.1 x.2.2.1 x.2.2.2 := by
  have reach : (machine String).record.Reach _ _ :=
    .next (.next (.next (.next (.next (.next (.next (.next (.next (.next (.next (.next (.next
      (.next (.next (.next (.next (.next .init (e := .heartbeat "game") rfl)
      (e := .wake) rfl) (e := .visit "game") rfl) (e := .answered (some (.packed true))) rfl)
      (e := .finish) rfl)
      (e := .wake) rfl) (e := .visit "game") rfl) (e := .answered none) rfl) (e := .finish) rfl)
      (e := .wake) rfl) (e := .visit "game") rfl) (e := .answered (some (.packed false))) rfl)
      (e := .finish) rfl)
      (e := .wake) rfl) (e := .visit "game") rfl) (e := .answered none) rfl)
      (e := .heartbeat "game") rfl) (e := .errFuncReturns) rfl
  refine ⟨_, _, reach, rfl, rfl, rfl, (supervises_iff_undisturbed reach).mpr ?_⟩
  simp only [List.nil_append, List.cons_append, List.forall_mem_cons]
  refine ⟨nofun, trivial, trivial, trivial, trivial, trivial, trivial, ?_, trivial, trivial,
    trivial, ?_, trivial, trivial, trivial, ?_, nofun, trivial, List.forall_mem_nil _⟩
  all_goals
    intro t nodeName data calling _
    cases calling
    exact List.mem_cons_self

/-- The node registers again while the third call is under way: the new registration goes
with the failure of the old one. -/
theorem new_registration_removed :
    ∃ trace s, (machine String).record.Reach trace s ∧ s.registered = ["game", "game"] ∧
      s.nodeHeartbeat = [] ∧ ¬ ∀ x ∈ trace, Supervises x.2.1 x.1 x.2.2.1 x.2.2.2 := by
  have reach : (machine String).record.Reach _ _ :=
    .next (.next (.next (.next (.next (.next (.next (.next (.next (.next (.next (.next (.next
      .init (e := .heartbeat "game") rfl)
      (e := .wake) rfl) (e := .visit "game") rfl) (e := .answered none) rfl) (e := .finish) rfl)
      (e := .wake) rfl) (e := .visit "game") rfl) (e := .answered none) rfl) (e := .finish) rfl)
      (e := .wake) rfl) (e := .visit "game") rfl) (e := .heartbeat "game") rfl)
      (e := .answered none) rfl
  refine ⟨_, _, reach, rfl, rfl, fun all => ?_⟩
  have last := all _ (List.mem_append_right _ List.mem_cons_self)
  obtain registered | ⟨t, -, -, calling, -⟩ := last.removes ("game", 1) List.mem_cons_self nofun
  · cases registered
  · cases calling

end Qiuqiu.Cluster.Heartbeat
