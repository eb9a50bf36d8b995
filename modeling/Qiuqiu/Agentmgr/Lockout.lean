import Qiuqiu.Agentmgr.Players

/-!
What a failed call leaves behind in the player table. The dispatcher of
service/agentmgr/agentmgr.lua catches the error, nothing puts the status of
the record back: the player is let in again exactly if no call of his requests
ever raised.
-/
namespace Qiuqiu.Agentmgr
variable {Pid : Type} [DecidableEq Pid]

/-- The answers a coroutine got. -/
def answers (c : Nat) (trace : List (Event Pid × Output Pid)) : List (Output Pid) :=
  trace.filterMap fun x => if x.1.coroutine = c then some x.2 else none

omit [DecidableEq Pid] in
theorem answers_concat_self {c : Nat} (trace : List (Event Pid × Output Pid)) {e : Event Pid}
    (own : e.coroutine = c) (o : Output Pid) :
    answers c (trace ++ [(e, o)]) = answers c trace ++ [o] := by
  simp [answers, own]

omit [DecidableEq Pid] in
theorem answers_concat_of_ne {c : Nat} (trace : List (Event Pid × Output Pid)) {e : Event Pid}
    (foreign : e.coroutine ≠ c) (o : Output Pid) :
    answers c (trace ++ [(e, o)]) = answers c trace := by
  simp [answers, foreign]

/-- A request that makes at most three calls and then returns true. -/
def Succeeds (outs : List (Output Pid)) : Prop :=
  ∃ n, n ≤ 3 ∧ (outs = List.replicate n .calls ∨
    ∃ agent rest, outs = List.replicate n .calls ++ .returns true agent :: rest)

/-- However the service goes on, a `reqlogin` of the player whose calls do not
raise returns true. -/
def State.LetsIn [Inhabited Pid] (s : State Pid) (playerid : Pid) : Prop :=
  ∀ c node gate o trace s',
    ((machine Table.empty).restart s).Reach ((.reqlogin c playerid node gate, o) :: trace) s' →
    (∀ x ∈ trace, x.1 ≠ .raised c) →
    Succeeds (answers c ((.reqlogin c playerid node gate, o) :: trace))

/-- The record is absent or in the game, and the player is let in. -/
def State.Recovered [Inhabited Pid] (s : State Pid) (playerid : Pid) : Prop :=
  (s.players.lookup playerid = none ∨
    ∃ ref, s.players.lookup playerid = some ref ∧ (s.heap ref).status = .game) ∧
  s.LetsIn playerid

namespace State
variable {s s' : State Pid}

/-- A login on its way, after `n` calls. -/
inductive Running (s : State Pid) (c : Nat) : Nat → Prop
  | replacing {playerid node gate mplayer pagent} :
      s.coroutines c = .replacing playerid node gate mplayer pagent → Running s c 1
  | leaving {playerid node gate mplayer} :
      s.coroutines c = .leaving playerid node gate mplayer → Running s c 2
  | creating {playerid player n} : s.coroutines c = .creating playerid player → n ≤ 3 →
      Running s c n

theorem Running.le {c n : Nat} (running : s.Running c n) : n ≤ 3 := by
  cases running with
  | replacing _ => decide
  | leaving _ => decide
  | creating _ le => exact le

theorem Running.not_idle {c n : Nat} (running : s.Running c n) : s.coroutines c ≠ .idle := by
  cases running with
  | replacing co => simp [co]
  | leaving co => simp [co]
  | creating co _ => simp [co]

theorem Running.of_same {c n : Nat} (running : s.Running c n)
    (same : s'.coroutines c = s.coroutines c) : s'.Running c n := by
  cases running with
  | replacing co => exact .replacing (same.trans co)
  | leaving co => exact .leaving (same.trans co)
  | creating co le => exact .creating (same.trans co) le

theorem Running.replied {c n : Nat} {agent : Option Nat} {o : Output Pid}
    (running : s.Running c n) (step : s.step (.replied c agent) = some (s', o)) :
    o = .calls ∧ s'.Running c (n + 1) ∨ o = .returns true agent := by
  cases running with
  | replacing co =>
      rw [State.step, co] at step
      cases step
      exact .inl ⟨rfl, .leaving (Function.update_self _ _ _)⟩
  | leaving co =>
      rw [State.step, co] at step
      cases step
      exact .inl ⟨rfl, .creating (Function.update_self _ _ _) (Nat.le_refl 3)⟩
  | creating co _ =>
      rw [State.step, co] at step
      cases step
      exact .inr rfl

theorem reqlogin_running {playerid : Pid} (c node gate : Nat)
    (free : s.players.lookup playerid = none ∨
      ∃ ref, s.players.lookup playerid = some ref ∧ (s.heap ref).status = .game) :
    (s.reqlogin c playerid node gate).2 = .calls ∧
      (s.reqlogin c playerid node gate).1.Running c 1 := by
  cases free with
  | inl none =>
      simp only [State.reqlogin, none]
      exact ⟨trivial, .creating (Function.update_self _ _ _) (by decide)⟩
  | inr found =>
      obtain ⟨ref, found, status⟩ := found
      simp only [State.reqlogin, found, status]
      exact ⟨trivial, .replacing (Function.update_self _ _ _)⟩

/-- A login stands after its `n` calls, or it has returned true. -/
def Progress (s : State Pid) (c : Nat) (outs : List (Output Pid)) : Prop :=
  (∃ n, outs = List.replicate n .calls ∧ s.Running c n) ∨
    ∃ n agent rest, n ≤ 3 ∧ outs = List.replicate n .calls ++ .returns true agent :: rest

theorem Progress.succeeds {c : Nat} {outs : List (Output Pid)}
    (progress : s.Progress c outs) : Succeeds outs := by
  cases progress with
  | inl running =>
      obtain ⟨n, calls, running⟩ := running
      exact ⟨n, running.le, .inl calls⟩
  | inr done =>
      obtain ⟨n, agent, rest, le, returned⟩ := done
      exact ⟨n, le, .inr ⟨agent, rest, returned⟩⟩

theorem Progress.step {c : Nat} {trace : List (Event Pid × Output Pid)} {e : Event Pid}
    {o : Output Pid} (progress : s.Progress c (answers c trace))
    (step : s.step e = some (s', o)) (fine : e ≠ .raised c) :
    s'.Progress c (answers c (trace ++ [(e, o)])) := by
  by_cases own : e.coroutine = c
  · rw [answers_concat_self trace own]
    cases progress with
    | inl running =>
        obtain ⟨n, calls, running⟩ := running
        cases e with
        | reqlogin c' playerid node gate =>
            cases own
            exact absurd (step_reqlogin step).1 running.not_idle
        | reqkick c' playerid =>
            cases own
            exact absurd (step_reqkick step).1 running.not_idle
        | replied c' agent =>
            cases own
            rw [calls]
            cases running.replied step with
            | inl further =>
                rw [further.1, ← List.replicate_succ']
                exact .inl ⟨n + 1, rfl, further.2⟩
            | inr returned =>
                rw [returned]
                exact .inr ⟨n, agent, [], running.le, rfl⟩
        | raised c' =>
            cases own
            exact absurd rfl fine
    | inr done =>
        obtain ⟨n, agent, rest, le, returned⟩ := done
        rw [returned]
        exact .inr ⟨n, agent, rest ++ [o], le, by simp⟩
  · rw [answers_concat_of_ne trace own]
    cases progress with
    | inl running =>
        obtain ⟨n, calls, running⟩ := running
        exact .inl ⟨n, calls, running.of_same (step_coroutines_of_ne step own)⟩
    | inr done => exact .inr done

theorem letsIn_of_free [Inhabited Pid] {playerid : Pid}
    (free : s.players.lookup playerid = none ∨
      ∃ ref, s.players.lookup playerid = some ref ∧ (s.heap ref).status = .game) :
    s.LetsIn playerid := by
  intro c node gate o trace s' reach fine
  obtain ⟨t, login, rest⟩ := reach.uncons
  obtain ⟨_, answer⟩ := step_reqlogin login
  have running := reqlogin_running c node gate free
  rw [← answer] at running
  have first : answers c [(.reqlogin c playerid node gate, o)] = [.calls] := by
    simp only [answers, Event.coroutine, List.filterMap_cons, List.filterMap_nil, if_true]
    rw [← running.1]
  have progress := rest.invariant
    (fun trace s' => (∀ x ∈ trace, x.1 ≠ .raised c) →
      s'.Progress c (answers c ((.reqlogin c playerid node gate, o) :: trace)))
    (fun _ => .inl ⟨1, first, running.2⟩)
    (fun trace u e u' o' ih step fine =>
      (ih fun x mem => fine x (by simp [mem])).step step (fine (e, o') (by simp)))
  exact (progress fine).succeeds

end State

/-- A failed call leaves a record behind that is not in the game. -/
theorem State.Phase.of_raised {s : State Pid} {playerid : Pid} (phase : s.Phase playerid true) :
    s.Quiet playerid ∧
      ∃ ref, s.players.lookup playerid = some ref ∧ (s.heap ref).status ≠ .game := by
  cases phase with
  | stuck ref found status quiet _ => exact ⟨quiet, ref, found, status⟩

theorem State.Phase.not_recovered [Inhabited Pid] {s : State Pid} {playerid : Pid}
    (phase : s.Phase playerid true) : ¬ s.Recovered playerid := by
  intro recovered
  obtain ⟨_, ref, found, status⟩ := phase.of_raised
  cases recovered.1 with
  | inl none => simp [none] at found
  | inr game =>
      obtain ⟨ref', found', status'⟩ := game
      cases found.symm.trans found'
      exact status status'

/-- A player is let in again exactly if no call of his requests has raised. -/
theorem recovered_iff_not_raised [Inhabited Pid] {trace : List (Event Pid × Output Pid)}
    {s : State Pid} {playerid : Pid} (reach : (machine Table.empty).Reach trace s)
    (quiet : s.Quiet playerid) : s.Recovered playerid ↔ raised trace playerid = false := by
  have phase := (sound_of_reach reach).phase playerid
  cases h : raised trace playerid with
  | true =>
      rw [h] at phase
      simp [phase.not_recovered]
  | false =>
      rw [h] at phase
      refine ⟨fun _ => rfl, fun _ => ?_⟩
      cases phase with
      | absent none _ _ => exact ⟨.inl none, State.letsIn_of_free (.inl none)⟩
      | game ref found status _ _ _ =>
          exact ⟨.inr ⟨ref, found, status⟩, State.letsIn_of_free (.inr ⟨ref, found, status⟩)⟩
      | busy _ c _ player _ _ => exact absurd player (quiet c)

theorem recovered_beside_failed_login :
    ∃ trace s, (machine (Table.empty : Table Nat)).Reach trace s ∧ s.Quiet 7 ∧ s.Recovered 7 := by
  have run : ∃ s, (machine (Table.empty : Table Nat)).Reach
      [(.reqlogin 0 7 1 1, .calls), (.reqlogin 1 8 1 1, .calls), (.raised 1, .raised 8),
        (.replied 0 (some 100), .returns true (some 100))] s ∧
      s.players.lookup 7 = some 0 ∧ (s.heap 0).status = .game :=
    ⟨_, .next (.next (.next (.next .init rfl) rfl) rfl) rfl, rfl, rfl⟩
  obtain ⟨s, reach, found, status⟩ := run
  obtain ⟨_, quiet, _⟩ := ((sound_of_reach reach).phase 7).of_game found status
  exact ⟨_, s, reach, quiet, (recovered_iff_not_raised reach quiet).2 (by decide)⟩

/-- newservice raises: the record stays in LOGIN. -/
theorem not_recovered_after_newservice_raised :
    ¬ ∀ trace (s : State Nat) playerid, (machine Table.empty).Reach trace s → s.Quiet playerid →
      s.Recovered playerid := by
  intro all
  have run : ∃ s, (machine (Table.empty : Table Nat)).Reach
      [(.reqlogin 0 7 1 1, .calls), (.raised 0, .raised 7)] s :=
    ⟨_, .next (.next .init rfl) rfl⟩
  obtain ⟨s, reach⟩ := run
  have phase : s.Phase 7 true := (sound_of_reach reach).phase 7
  exact phase.not_recovered (all _ s 7 reach phase.of_raised.1)

end Qiuqiu.Agentmgr
