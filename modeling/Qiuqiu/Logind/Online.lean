import Qiuqiu.Logind.Master

/-!
The accounts that are logged in and `acct_online`. `login_handler` writes its
record in `acct_login`: `acct_online` stays empty, and nothing that looks there
reaches a gate.
-/
namespace Qiuqiu.Logind
variable {Urs Uid Name : Type} [DecidableEq Urs] [DecidableEq Name]

/-- The sessions after a step: the gate and the uid of the last login that
neither a logout nor the disconnection of the gate has ended. -/
def session (sessions : Urs → Option (Name × Uid)) :
    Output Urs Uid Name → Urs → Option (Name × Uid)
  | .loggedIn usr servername uid _ _ _ => Function.update sessions usr (some (servername, uid))
  | .loggedOut urs => Function.update sessions urs none
  | .disconnected servername => fun urs => (sessions urs).filter (·.1 ≠ servername)
  | _ => sessions

def sessions (trace : List (Event Urs Uid Name × Output Urs Uid Name)) :
    Urs → Option (Name × Uid) :=
  trace.foldl (fun sessions x => session sessions x.2) fun _ => none

/-- `acct_online` has the session, and what looks there reaches its gate. -/
structure State.Knows (s : State Urs Uid Name) (urs : Urs) (servername : Name) (uid : Uid) :
    Prop where
  record : ∃ account, s.acctOnline.lookup urs = some account ∧ account.servername = servername ∧
    account.uid = uid
  kick : ∀ c, s.coroutines c = .idle →
    ∃ s', s.step (.kick c urs) = some (s', .calls servername .kick)
  clear : ∀ c, s.coroutines c = .idle →
    ∃ s', s.step (.clearAcctonline c urs) = some (s', .calls servername .deadlockKick)
  login : ∀ c uid order, s.coroutines c = .idle → order.Perm s.serverList.keys →
    ∃ s', s.step (.loginHandler c urs uid order) = some (s', .calls servername .kick)

theorem nobodyOnline_of_reach {trace : List (Event Urs Uid Name × Output Urs Uid Name)}
    {s : State Urs Uid Name} (reach : machine.Reach trace s) : s.NobodyOnline :=
  reach.invariant (fun _ s => s.NobodyOnline) rfl fun _ _ _ _ _ nobody step => (nobody.step step).2

/-- `acct_online` knows the sessions of an account only while it has none. -/
theorem knows_sessions_iff {trace : List (Event Urs Uid Name × Output Urs Uid Name)}
    {s : State Urs Uid Name} (reach : machine.Reach trace s) (urs : Urs) :
    (∀ servername uid, sessions trace urs = some (servername, uid) → s.Knows urs servername uid) ↔
      sessions trace urs = none := by
  have nobody := nobodyOnline_of_reach reach
  constructor
  · intro known
    cases session : sessions trace urs with
    | none => rfl
    | some found =>
        obtain ⟨account, record, _⟩ := (known found.1 found.2 session).record
        rw [nobody.lookup urs] at record
        cases record
  · intro none servername uid session
    rw [none] at session
    cases session

theorem knows_sessions_after_logout :
    ∃ trace s, (machine : Machine (State Nat Nat Nat) _ _).Reach trace s ∧
      ∀ servername uid, sessions trace 7 = some (servername, uid) → s.Knows 7 servername uid := by
  have run : ∃ s, (machine : Machine (State Nat Nat Nat) _ _).Reach
      [(.registerGate 0 ⟨1, "game", "ip", 80, 81, none, none, false⟩, .returns),
        (.loginHandler 0 7 1 [0], .calls 0 .login),
        (.replied 0 1 [], .loggedIn 7 0 1 "ip" 80 81), (.logout 7, .loggedOut 7)] s :=
    ⟨_, .next (.next (.next (.next .init rfl) rfl) rfl) rfl⟩
  obtain ⟨s, reach⟩ := run
  exact ⟨_, s, reach, (knows_sessions_iff reach 7).2 rfl⟩

theorem first_login_not_online :
    ¬ ∀ trace (s : State Nat Nat Nat) urs servername uid, machine.Reach trace s →
      sessions trace urs = some (servername, uid) → s.Knows urs servername uid := by
  intro all
  have run : ∃ s, (machine : Machine (State Nat Nat Nat) _ _).Reach
      [(.registerGate 0 ⟨1, "game", "ip", 80, 81, none, none, false⟩, .returns),
        (.loginHandler 0 7 1 [0], .calls 0 .login),
        (.replied 0 1 [], .loggedIn 7 0 1 "ip" 80 81)] s :=
    ⟨_, .next (.next (.next .init rfl) rfl) rfl⟩
  obtain ⟨s, reach⟩ := run
  obtain ⟨account, record, _⟩ := (all _ s 7 0 1 reach rfl).record
  rw [(nobodyOnline_of_reach reach).lookup 7] at record
  cases record

end Qiuqiu.Logind
