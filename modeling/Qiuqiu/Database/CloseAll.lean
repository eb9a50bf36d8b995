import Mathlib.Data.List.Nodup
import Mathlib.Data.List.Perm.Basic
import Mathlib.Data.List.Range
import Mathlib.Logic.Function.Basic
import Qiuqiu.Base.Machine

/-!
`CMD.closealldb` of startup/database.lua: one coroutine for each cell, and the
caller asleep until they have ended. Every coroutine looks whether it is the last
one, and only the last one finds all cells closed and wakes the caller.
-/
namespace Qiuqiu.Database.CloseAll

/-- How `pcall(dbsvr.call.closedb)` ends. -/
inductive Outcome where
  | returnsTrue
  | returnsFalse
  | raises
  deriving DecidableEq

/-- `not caller or not closeerr`. -/
def Outcome.fails : Outcome → Bool
  | .returnsTrue => false
  | .returnsFalse | .raises => true

/-- The variables of the file, the `isErr` of the call, and the queues of skynet: the
coroutines that are forked, in a call of a cell, asleep and to be woken. -/
structure State where
  isclose : Bool
  isErr : Bool
  closedDblist : List Nat
  closeCo : Option Nat
  forkQueue : List Nat
  calling : List Nat
  sleepSession : Nat → Bool
  wakeupQueue : List Nat

inductive Event where
  | closealldb (c : Nat)
  | forkRuns
  | completes (i : Nat) (outcome : Outcome)
  | dispatchWakeup
  deriving DecidableEq

inductive Output where
  | refused (err : String)
  | sleeps
  | contacts (i : Nat)
  | goesOn
  | returned
  | raised (err : String)
  deriving DecidableEq

/-- The cells of a node. -/
def cells (dbCnt : Nat) : List Nat := List.range' 1 dbCnt

namespace State
variable (s : State)

def closealldb (dbCnt c : Nat) : Option (State × Output) :=
  if s.sleepSession c then none
  else if s.isclose then some (s, .refused "agagin close all db!")
  else
    some ({ s with
      isclose := true
      isErr := false
      forkQueue := s.forkQueue ++ cells dbCnt
      closeCo := some c
      sleepSession := Function.update s.sleepSession c true }, .sleeps)

/-- `skynet.wakeup(token)`. -/
def wakeup (token : Nat) : State :=
  if s.sleepSession token then { s with wakeupQueue := s.wakeupQueue ++ [token] } else s

def forkRuns : Option (State × Output) :=
  match s.forkQueue with
  | [] => none
  | i :: rest => some ({ s with forkQueue := rest, calling := i :: s.calling }, .contacts i)

/-- The forked function behind the call of its cell. -/
def completes (dbCnt i : Nat) (outcome : Outcome) : Option (State × Output) :=
  if i ∈ s.calling then
    let s := { s with
      calling := s.calling.erase i
      isErr := s.isErr || outcome.fails
      closedDblist := s.closedDblist ++ [i] }
    if ∀ j ∈ cells dbCnt, j ∈ s.closedDblist then
      match s.closeCo with
      | some co => some (s.wakeup co, .goesOn)
      | none => some (s, .goesOn)
    else some (s, .goesOn)
  else none

/-- A coroutine that is asleep goes on behind `skynet.wait()`. -/
def dispatchWakeup : Option (State × Output) :=
  match s.wakeupQueue with
  | [] => none
  | token :: rest =>
      let s := { s with wakeupQueue := rest }
      if s.sleepSession token then
        let s := { s with
          sleepSession := Function.update s.sleepSession token false
          closeCo := none }
        if s.isErr then some (s, .raised "close database error") else some (s, .returned)
      else some (s, .goesOn)

def step (dbCnt : Nat) : Event → Option (State × Output)
  | .closealldb c => s.closealldb dbCnt c
  | .forkRuns => s.forkRuns
  | .completes i outcome => s.completes dbCnt i outcome
  | .dispatchWakeup => s.dispatchWakeup

end State

def initial : State := ⟨false, false, [], none, [], [], fun _ => false, []⟩

def machine (dbCnt : Nat) : Machine State Event Output where
  init := initial
  step s := s.step dbCnt

def contact : Event × Output → Option Nat
  | (_, .contacts i) => some i
  | _ => none

def completion : Event × Output → Option (Nat × Outcome)
  | (.completes i outcome, _) => some (i, outcome)
  | _ => none

/-- A caller that goes on, and whether it returns. -/
def resumption : Event × Output → Option Bool
  | (_, .returned) => some true
  | (_, .raised _) => some false
  | _ => none

/-- What a run shows of the cells and of the caller. -/
structure History where
  contacts : List Nat
  completions : List (Nat × Outcome)
  resumptions : List Bool

def history (trace : List (Event × Output)) : History :=
  ⟨trace.filterMap contact, trace.filterMap completion, trace.filterMap resumption⟩

namespace History
variable (h : History)

def completed : List Nat := h.completions.map Prod.fst

def failed : Bool := h.completions.any (·.2.fails)

def add (x : Event × Output) : History :=
  ⟨h.contacts ++ (contact x).toList, h.completions ++ (completion x).toList,
    h.resumptions ++ (resumption x).toList⟩

end History

theorem history_concat (trace : List (Event × Output)) (x : Event × Output) :
    history (trace ++ [x]) = (history trace).add x := by
  simp only [history, History.add, Machine.filterMap_concat]

/-- The caller sleeps until every cell has completed, and then it ends. -/
inductive Caller (h : History) (s : State) : Prop
  | asleep (c : Nat) (co : s.closeCo = some c) (sleeps : s.sleepSession c)
      (before : h.resumptions = [])
      (queue : s.wakeupQueue = if s.calling ++ s.forkQueue = [] then [c] else [])
  | ended (idle : s.calling ++ s.forkQueue = []) (queue : s.wakeupQueue = [])
      (after : h.resumptions = [!h.failed])

/-- What holds from the first call on: a cell has completed, is called or is to be called. -/
structure Called (dbCnt : Nat) (h : History) (s : State) : Prop where
  isclose : s.isclose
  started : h.contacts ++ s.forkQueue = cells dbCnt
  held : h.contacts.Perm (h.completed ++ s.calling)
  closed : s.closedDblist = h.completed
  isErr : s.isErr = h.failed
  caller : Caller h s

theorem cells_nodup (dbCnt : Nat) : (cells dbCnt).Nodup := List.nodup_range'

theorem forall_mem_iff_of_perm {α : Type} {l done rest : List α} (nodup : l.Nodup)
    (parts : (done ++ rest).Perm l) : (∀ x ∈ l, x ∈ done) ↔ rest = [] := by
  constructor
  · intro all
    rw [List.eq_nil_iff_forall_not_mem]
    intro x mem
    have disjoint := List.disjoint_of_nodup_append (parts.nodup_iff.mpr nodup)
    exact disjoint (all x (parts.mem_iff.mp (List.mem_append_right done mem))) mem
  · rintro rfl x mem
    rw [List.append_nil] at parts
    exact parts.mem_iff.mpr mem

namespace Called
variable {dbCnt : Nat} {h : History} {s s' : State} {o : Output}

theorem parts (called : Called dbCnt h s) :
    (h.completed ++ (s.calling ++ s.forkQueue)).Perm (cells dbCnt) := by
  rw [← List.append_assoc, ← called.started]
  exact called.held.symm.append_right s.forkQueue

theorem all_completed_iff (called : Called dbCnt h s) :
    (∀ j ∈ cells dbCnt, j ∈ h.completed) ↔ s.calling ++ s.forkQueue = [] :=
  forall_mem_iff_of_perm (cells_nodup dbCnt) called.parts

/-- A later call changes nothing. -/
theorem closealldb (called : Called dbCnt h s) {c : Nat}
    (step : s.closealldb dbCnt c = some (s', o)) :
    s' = s ∧ o = .refused "agagin close all db!" := by
  simp only [State.closealldb, called.isclose, if_true] at step
  split at step
  · cases step
  · cases step
    exact ⟨rfl, rfl⟩

/-- As long as a cell has not completed, the caller sleeps. -/
theorem busy (called : Called dbCnt h s) (work : s.calling ++ s.forkQueue ≠ []) :
    ∃ c, s.closeCo = some c ∧ s.sleepSession c ∧ h.resumptions = [] ∧ s.wakeupQueue = [] := by
  cases called.caller with
  | asleep c co sleeps before queue =>
      rw [if_neg work] at queue
      exact ⟨c, co, sleeps, before, queue⟩
  | ended idle _ _ => exact absurd idle work

theorem forkRuns (called : Called dbCnt h s) (step : s.forkRuns = some (s', o)) :
    Called dbCnt (h.add (.forkRuns, o)) s' := by
  simp only [State.forkRuns] at step
  split at step
  · cases step
  · rename_i i rest queued
    cases step
    obtain ⟨c, co, sleeps, before, queue⟩ := called.busy (by simp [queued])
    have started := called.started
    rw [queued] at started
    have same : (h.add (.forkRuns, .contacts i)).completions = h.completions := List.append_nil _
    refine ⟨called.isclose, ?_, ?_, ?_, ?_, ?_⟩
    · rw [← started]
      exact (List.append_assoc _ [i] rest)
    · rw [History.completed, same]
      refine (called.held.append_right [i]).trans ?_
      rw [List.append_assoc]
      exact (List.perm_append_singleton i s.calling).append_left h.completed
    · rw [History.completed, same]
      exact called.closed
    · rw [History.failed, same]
      exact called.isErr
    · refine .asleep c co sleeps ((List.append_nil _).trans before) ?_
      rw [if_neg (by simp)]
      exact queue

theorem completes (called : Called dbCnt h s) {i : Nat} {outcome : Outcome}
    (step : s.completes dbCnt i outcome = some (s', o)) :
    Called dbCnt (h.add (.completes i outcome, o)) s' := by
  by_cases mem : i ∈ s.calling
  · obtain ⟨c, co, sleeps, before, queue⟩ :=
      called.busy (by simp [List.ne_nil_of_mem mem])
    have contacts : (h.add (.completes i outcome, .goesOn)).contacts = h.contacts :=
      List.append_nil _
    have completed : (h.add (.completes i outcome, .goesOn)).completed = h.completed ++ [i] :=
      List.map_append
    have failed : (h.add (.completes i outcome, .goesOn)).failed = (h.failed || outcome.fails) := by
      simp [History.failed, History.add, completion]
    have held : h.contacts.Perm (h.completed ++ [i] ++ s.calling.erase i) := by
      refine called.held.trans ?_
      rw [List.append_assoc]
      exact (List.perm_cons_erase mem).append_left h.completed
    have parts : (h.completed ++ [i] ++ (s.calling.erase i ++ s.forkQueue)).Perm (cells dbCnt) := by
      rw [← List.append_assoc, ← called.started]
      exact held.symm.append_right s.forkQueue
    -- The test of the coroutine is that no other is left.
    have last := forall_mem_iff_of_perm (cells_nodup dbCnt) parts
    rw [← called.closed] at last
    have woken : ∀ queue', queue' = (if s.calling.erase i ++ s.forkQueue = [] then [c] else []) →
        Called dbCnt (h.add (.completes i outcome, .goesOn))
          ⟨s.isclose, s.isErr || outcome.fails, s.closedDblist ++ [i], some c, s.forkQueue,
            s.calling.erase i, s.sleepSession, queue'⟩ := by
      intro queue' is_queue
      refine ⟨called.isclose, ?_, ?_, ?_, ?_, ?_⟩
      · rw [contacts]
        exact called.started
      · rw [contacts, completed]
        exact held
      · rw [completed, called.closed]
      · rw [failed, called.isErr]
      · exact .asleep c rfl sleeps ((List.append_nil _).trans before) is_queue
    simp only [State.completes, if_pos mem, co, State.wakeup, sleeps, if_true, last] at step
    split at step
    · rename_i none_left
      cases step
      apply woken
      rw [if_pos none_left, queue]
      rfl
    · rename_i some_left
      cases step
      apply woken
      rw [if_neg some_left]
      exact queue
  · simp only [State.completes, if_neg mem] at step
    cases step

theorem dispatchWakeup (called : Called dbCnt h s)
    (step : s.dispatchWakeup = some (s', o)) :
    Called dbCnt (h.add (.dispatchWakeup, o)) s' := by
  simp only [State.dispatchWakeup] at step
  split at step
  · cases step
  · rename_i token rest queued
    cases called.caller with
    | ended _ queue _ =>
        rw [queue] at queued
        cases queued
    | asleep c co sleeps before queue =>
        have idle : s.calling ++ s.forkQueue = [] := by
          by_contra work
          rw [if_neg work, queued] at queue
          cases queue
        rw [if_pos idle, queued] at queue
        cases queue
        have resumed : ∀ o, resumption (.dispatchWakeup, o) = some (!h.failed) →
            contact (.dispatchWakeup, o) = none →
            Called dbCnt (h.add (.dispatchWakeup, o))
              { s with
                wakeupQueue := []
                sleepSession := Function.update s.sleepSession token false
                closeCo := none } := by
          intro o shown silent
          have same : (h.add (.dispatchWakeup, o)).completions = h.completions := List.append_nil _
          have contacts : (h.add (.dispatchWakeup, o)).contacts = h.contacts := by
            simp only [History.add, silent, Option.toList_none, List.append_nil]
          refine ⟨called.isclose, ?_, ?_, ?_, ?_, ?_⟩
          · rw [contacts]
            exact called.started
          · rw [contacts, History.completed, same]
            exact called.held
          · rw [History.completed, same]
            exact called.closed
          · rw [History.failed, same]
            exact called.isErr
          · refine .ended idle rfl ?_
            rw [History.failed, same]
            simp only [History.add, before, shown, Option.toList_some, List.nil_append]
            rfl
        simp only [sleeps, if_true] at step
        split at step
        · rename_i failed
          cases step
          apply resumed
          · rw [← called.isErr, failed]
            rfl
          · rfl
        · rename_i passed
          cases step
          apply resumed
          · rw [← called.isErr, Bool.eq_false_iff.mpr passed]
            rfl
          · rfl

theorem step (called : Called dbCnt h s) {e : Event} (step : s.step dbCnt e = some (s', o)) :
    Called dbCnt (h.add (e, o)) s' := by
  cases e with
  | closealldb c =>
      obtain ⟨rfl, rfl⟩ := called.closealldb step
      have same : h.add (.closealldb c, .refused "agagin close all db!") = h := by
        simp [History.add, contact, completion, resumption]
      rw [same]
      exact called
  | forkRuns => exact called.forkRuns step
  | completes i outcome => exact called.completes step
  | dispatchWakeup => exact called.dispatchWakeup step

end Called

/-- The first call forks the coroutines of all cells and sleeps. -/
theorem called_of_initial {dbCnt : Nat} (pos : 1 ≤ dbCnt) {e : Event} {s : State} {o : Output}
    (step : initial.step dbCnt e = some (s, o)) : Called dbCnt (history [(e, o)]) s := by
  cases e with
  | forkRuns | dispatchWakeup => cases step
  | completes i outcome => cases step
  | closealldb c =>
      cases step
      have some_cell : cells dbCnt ≠ [] := by
        intro none
        have length := congrArg List.length none
        rw [cells, List.length_range', List.length_nil] at length
        omega
      refine ⟨rfl, rfl, .nil, rfl, rfl, .asleep c rfl (Function.update_self ..) rfl ?_⟩
      exact (if_neg some_cell).symm

theorem reach_cases {dbCnt : Nat} (pos : 1 ≤ dbCnt) {trace : List (Event × Output)} {s : State}
    (reach : (machine dbCnt).Reach trace s) :
    trace = [] ∧ s = initial ∨ Called dbCnt (history trace) s := by
  induction reach with
  | init => exact .inl ⟨rfl, rfl⟩
  | next _ step ih =>
      cases ih with
      | inl start =>
          obtain ⟨rfl, rfl⟩ := start
          exact .inr (called_of_initial pos step)
      | inr called =>
          rw [history_concat]
          exact .inr (called.step step)

/-- The waiting call goes on exactly once, behind all the cells, and no later one
reaches a cell. -/
structure ClosesOnce (dbCnt : Nat) (trace : List (Event × Output)) (s : State) : Prop where
  /-- Whoever goes on is the only one, and every cell has completed before. -/
  resumed : ∀ pre post x returns, trace = pre ++ x :: post → resumption x = some returns →
    (history pre).completed.Perm (cells dbCnt) ∧
      (returns = false ↔ ∃ y ∈ (history pre).completions, y.2.fails) ∧
      (history trace).resumptions = [returns]
  /-- When all cells have completed, the call has gone on or does so next. -/
  resumes : (∀ i ∈ cells dbCnt, i ∈ (history trace).completed) →
    (history trace).resumptions ≠ [] ∨
      ∃ s' o, s.step dbCnt .dispatchWakeup = some (s', o) ∧
        (resumption (.dispatchWakeup, o)).isSome
  contacted : (history trace).contacts.Nodup
  later : ∀ x ∈ trace, ∀ c s' o, s.step dbCnt (.closealldb c) = some (s', o) →
    s' = s ∧ o = .refused "agagin close all db!"

namespace Called
variable {dbCnt : Nat} {h : History} {s s' : State} {o : Output}

theorem event_of_resumption (called : Called dbCnt h s) {e : Event} {returns : Bool}
    (step : s.step dbCnt e = some (s', o)) (resumes : resumption (e, o) = some returns) :
    e = .dispatchWakeup := by
  cases e with
  | dispatchWakeup => rfl
  | closealldb c =>
      obtain ⟨-, rfl⟩ := called.closealldb step
      cases resumes
  | forkRuns =>
      simp only [State.step, State.forkRuns] at step
      split at step
      · cases step
      · cases step
        cases resumes
  | completes i outcome =>
      simp only [State.step, State.completes] at step
      split at step
      · split at step
        · split at step
          · cases step
            cases resumes
          · cases step
            cases resumes
        · cases step
          cases resumes
      · cases step

/-- The step in which the caller goes on. -/
theorem resumed (called : Called dbCnt h s) {e : Event} {returns : Bool}
    (step : s.step dbCnt e = some (s', o)) (resumes : resumption (e, o) = some returns) :
    h.completed.Perm (cells dbCnt) ∧ returns = !h.failed := by
  obtain rfl := called.event_of_resumption step resumes
  have after := called.step step
  have same : (h.add (.dispatchWakeup, o)).completions = h.completions := List.append_nil _
  have added : (h.add (.dispatchWakeup, o)).resumptions = h.resumptions ++ [returns] := by
    simp only [History.add, resumes, Option.toList_some]
  cases after.caller with
  | asleep c co sleeps before queue =>
      rw [added] at before
      exact absurd before (List.append_ne_nil_of_right_ne_nil _ (List.cons_ne_nil _ _))
  | ended idle queue only =>
      have parts := after.parts
      rw [idle, List.append_nil, History.completed, same] at parts
      rw [added, History.failed, same] at only
      change h.resumptions ++ [returns] = [] ++ [!h.failed] at only
      have alone : [returns] = [!h.failed] := List.append_inj_right' only rfl
      exact ⟨parts, List.singleton_inj.mp alone⟩

/-- Nobody else goes on. -/
theorem resumptions_single (called : Called dbCnt h s) {returns : Bool}
    (mem : returns ∈ h.resumptions) : h.resumptions = [returns] := by
  cases called.caller with
  | asleep c co sleeps before queue =>
      rw [before] at mem
      cases mem
  | ended idle queue only =>
      rw [only, List.mem_singleton] at mem
      rw [only, mem]

/-- When all cells have completed, a sleeping caller is woken by the next dispatch. -/
theorem resumes (called : Called dbCnt h s) (idle : s.calling ++ s.forkQueue = []) :
    h.resumptions ≠ [] ∨ ∃ s' o, s.step dbCnt .dispatchWakeup = some (s', o) ∧
      (resumption (.dispatchWakeup, o)).isSome := by
  cases called.caller with
  | ended _ _ after =>
      refine .inl ?_
      rw [after]
      exact List.cons_ne_nil _ _
  | asleep c co sleeps before queue =>
      rw [if_pos idle] at queue
      simp only [State.step, State.dispatchWakeup, queue, sleeps, if_true]
      cases s.isErr with
      | true => exact .inr ⟨_, _, rfl, rfl⟩
      | false => exact .inr ⟨_, _, rfl, rfl⟩

end Called

/-- The first step of a run resumes nobody. -/
theorem resumption_initial {dbCnt : Nat} {e : Event} {s : State} {o : Output}
    (step : initial.step dbCnt e = some (s, o)) : resumption (e, o) = none := by
  cases e with
  | forkRuns | dispatchWakeup => cases step
  | completes i outcome => cases step
  | closealldb c =>
      cases step
      rfl

theorem one_mem_cells {dbCnt : Nat} (pos : 1 ≤ dbCnt) : 1 ∈ cells dbCnt := by
  rw [cells, List.mem_range'_1]
  omega

/-- In every run, with every order of the cells and every outcome of them. -/
theorem closesOnce {dbCnt : Nat} (pos : 1 ≤ dbCnt) {trace : List (Event × Output)} {s : State}
    (reach : (machine dbCnt).Reach trace s) : ClosesOnce dbCnt trace s := by
  constructor
  · intro pre post x returns whole resumes
    subst whole
    obtain ⟨t, t', before, step, -⟩ := reach.split
    cases reach_cases pos before with
    | inl start =>
        obtain ⟨rfl, rfl⟩ := start
        rw [resumption_initial step] at resumes
        cases resumes
    | inr called =>
        obtain ⟨completed, answer⟩ := called.resumed step resumes
        refine ⟨completed, ?_, ?_⟩
        · simp only [answer, Bool.not_eq_false', History.failed, List.any_eq_true]
        · have mem : returns ∈ (history (pre ++ x :: post)).resumptions := by
            rw [history, List.mem_filterMap]
            exact ⟨x, by simp, resumes⟩
          cases reach_cases pos reach with
          | inl start => simp at start
          | inr after => exact after.resumptions_single mem
  · intro all
    cases reach_cases pos reach with
    | inl start =>
        rw [start.1] at all
        cases all 1 (one_mem_cells pos)
    | inr called => exact called.resumes (called.all_completed_iff.mp all)
  · cases reach_cases pos reach with
    | inl start =>
        rw [start.1]
        exact List.nodup_nil
    | inr called =>
        have nodup := cells_nodup dbCnt
        rw [← called.started] at nodup
        exact nodup.of_append_left
  · intro x mem c s' o step
    cases reach_cases pos reach with
    | inl start =>
        rw [start.1] at mem
        cases mem
    | inr called => exact called.closealldb step

/-- Two cells, the second of which raises and completes first: the call raises, and
another call is refused. -/
theorem closesOnce_of_failing_cell :
    ∃ trace s, (machine 2).Reach trace s ∧
      (.dispatchWakeup, .raised "close database error") ∈ trace ∧ ClosesOnce 2 trace s := by
  have reach : (machine 2).Reach _ _ :=
    .next (.next (.next (.next (.next (.next (.next .init (e := .closealldb 7) rfl)
      (e := .forkRuns) rfl) (e := .forkRuns) rfl) (e := .completes 2 .raises) rfl)
      (e := .completes 1 .returnsTrue) rfl) (e := .dispatchWakeup) rfl) (e := .closealldb 8) rfl
  refine ⟨_, _, reach, ?_, closesOnce (by decide) reach⟩
  decide

end Qiuqiu.Database.CloseAll
