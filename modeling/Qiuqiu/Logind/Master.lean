import Mathlib.Data.List.AList
import Mathlib.Logic.Function.Basic
import Qiuqiu.Base.Machine

/-!
The master of service/logind/masterfunc.lua without `Accept`: the gates, the
table of the accounts that are online, `login_handler` and the commands. Calls
to a gate suspend the coroutine. No function takes a gate out of `server_list`
or puts another in its place, so that a coroutine holds a gate by its name.
-/
namespace Qiuqiu.Logind
variable {Urs Uid Name : Type} [DecidableEq Urs] [DecidableEq Name]

structure Serverinfo where
  address : Nat
  nodeName : String
  gateIp : String
  port : Nat
  sport : Nat
  onlineCnt : Option Nat
  onlineCnd : Option Nat
  isvalid : Bool

/-- An entry of `acct_online`, and what `login_handler` writes in `acct_login`. -/
structure Account (Uid Name : Type) where
  address : Nat
  nodeName : String
  uid : Uid
  servername : Name

inductive LoginMark (Uid Name : Type) where
  | locked
  | account (account : Account Uid Name)

inductive Coroutine (Urs Uid Name : Type) where
  | idle
  | kickingLast (usr : Urs) (uid : Uid)
  | loggingIn (usr : Urs) (uid : Uid) (servername : Name)
  | kicking
  | clearing (urs : Urs)
  | disconnecting (servername : Name)
  | closing (rest : List Name)

structure State (Urs Uid Name : Type) [DecidableEq Urs] [DecidableEq Name] where
  serverList : AList fun _ : Name => Serverinfo
  acctOnline : AList fun _ : Urs => Account Uid Name
  acctLogin : Urs → Option (LoginMark Uid Name)
  isShuntdown : Bool
  coroutines : Nat → Coroutine Urs Uid Name

/-- `order` is the order of `pairs(server_list)`, where the step comes to it. -/
inductive Event (Urs Uid Name : Type) where
  | registerGate (servername : Name) (serverinfo : Serverinfo)
  | loginHandler (c : Nat) (usr : Urs) (uid : Uid) (order : List Name)
  | logout (urs : Urs)
  | kick (c : Nat) (urs : Urs)
  | deadlockKick (c : Nat) (urs : Urs)
  | clearAcctonline (c : Nat) (urs : Urs)
  | shutdownGate (c : Nat) (servername : Name)
  | shutdown (c : Nat) (order : List Name)
  | disconnect (c : Nat) (servername : Name)
  | replied (c : Nat) (onlineCnt : Nat) (order : List Name)
  | raised (c : Nat)

inductive Method where
  | login
  | kick
  | deadlockKick
  | shutdown
  deriving DecidableEq

inductive Output (Urs Uid Name : Type) where
  | calls (servername : Name) (method : Method)
  | returns
  | loggedOut (urs : Urs)
  | disconnected (servername : Name)
  | loggedIn (usr : Urs) (servername : Name) (uid : Uid) (gateIp : String) (port sport : Nat)
  | raises

/-- The loop of `get_rserver`; a comparison with a missing count raises. -/
def getRserverLoop (serverList : AList fun _ : Name => Serverinfo) :
    Option Name → Option Nat → List Name → Except Unit (Option Name)
  | lessonlineServer, _, [] => .ok lessonlineServer
  | lessonlineServer, lessonlineCnt, servername :: rest =>
      match serverList.lookup servername with
      | none => getRserverLoop serverList lessonlineServer lessonlineCnt rest
      | some serverinfo =>
          if serverinfo.isvalid then
            match lessonlineCnt, serverinfo.onlineCnt with
            | none, onlineCnt => getRserverLoop serverList (some servername) onlineCnt rest
            | some _, none => .error ()
            | some cnt, some onlineCnt =>
                if onlineCnt < cnt then
                  getRserverLoop serverList (some servername) (some onlineCnt) rest
                else getRserverLoop serverList lessonlineServer (some cnt) rest
          else getRserverLoop serverList lessonlineServer lessonlineCnt rest

namespace State
variable (s : State Urs Uid Name)

def getRserver (order : List Name) : Except Unit (Option Name) :=
  getRserverLoop s.serverList none none order

def setCoroutine (c : Nat) (co : Coroutine Urs Uid Name) : State Urs Uid Name :=
  { s with coroutines := Function.update s.coroutines c co }

def setGate (servername : Name) (serverinfo : Serverinfo) : State Urs Uid Name :=
  { s with serverList := s.serverList.insert servername serverinfo }

def registerGate (servername : Name) (serverinfo : Serverinfo) :
    State Urs Uid Name × Output Urs Uid Name :=
  if (s.serverList.lookup servername).isSome then (s, .raises)
  else
    (s.setGate servername { serverinfo with onlineCnd := some 0, isvalid := true }, .returns)

/-- `if online_cnt >= 1 then online_cnt = online_cnt - 1 end`. -/
def leaveGate (servername : Name) : Except Unit (State Urs Uid Name) :=
  match s.serverList.lookup servername with
  | none => .ok s
  | some serverinfo =>
      match serverinfo.onlineCnt with
      | none => .error ()
      | some onlineCnt =>
          if onlineCnt ≥ 1 then
            .ok (s.setGate servername { serverinfo with onlineCnt := some (onlineCnt - 1) })
          else .ok s

def logout (urs : Urs) : State Urs Uid Name × Output Urs Uid Name :=
  match s.acctOnline.lookup urs with
  | some u =>
      match s.leaveGate u.servername with
      | .ok s => ({ s with acctOnline := s.acctOnline.erase urs }, .loggedOut urs)
      | .error () => (s, .raises)
  | none => (s, .loggedOut urs)

/-- The loop over `acct_online` in `_dealwith_disconnectgate`. -/
def dropAccounts (servername : Name) (s : State Urs Uid Name) :
    List Urs → State Urs Uid Name × Output Urs Uid Name
  | [] => (s, .disconnected servername)
  | urs :: rest =>
      match s.acctOnline.lookup urs with
      | some data =>
          if data.servername = servername then
            match s.leaveGate servername with
            | .ok s => dropAccounts servername { s with acctOnline := s.acctOnline.erase urs } rest
            | .error () => (s, .raises)
          else dropAccounts servername s rest
      | none => dropAccounts servername s rest

/-- The last part of `login_handler`, up to the call of the gate. -/
def choose (c : Nat) (usr : Urs) (uid : Uid) (order : List Name) :
    State Urs Uid Name × Output Urs Uid Name :=
  match s.getRserver order with
  | .ok (some servername) =>
      (s.setCoroutine c (.loggingIn usr uid servername), .calls servername .login)
  | .ok none => (s.setCoroutine c .idle, .raises)
  | .error () => (s.setCoroutine c .idle, .raises)

def loginHandler (c : Nat) (usr : Urs) (uid : Uid) (order : List Name) :
    State Urs Uid Name × Output Urs Uid Name :=
  match s.acctOnline.lookup usr with
  | some last => (s.setCoroutine c (.kickingLast usr uid), .calls last.servername .kick)
  | none => s.choose c usr uid order

/-- `login_handler` behind the kick of the last session. -/
def kickedLast (c : Nat) (usr : Urs) (uid : Uid) (order : List Name) :
    State Urs Uid Name × Output Urs Uid Name :=
  if (s.acctOnline.lookup usr).isSome then (s.setCoroutine c .idle, .raises)
  else s.choose c usr uid order

/-- `login_handler` behind the call of the gate. -/
def enter (c : Nat) (usr : Urs) (uid : Uid) (servername : Name) (onlineCnt : Nat) :
    State Urs Uid Name × Output Urs Uid Name :=
  match s.serverList.lookup servername with
  | some serverinfo =>
      ({ s with
        acctLogin := Function.update s.acctLogin usr
          (some (.account ⟨serverinfo.address, serverinfo.nodeName, uid, servername⟩))
        serverList := s.serverList.insert servername
          { serverinfo with onlineCnt := some onlineCnt } }.setCoroutine c .idle,
        .loggedIn usr servername uid serverinfo.gateIp serverinfo.port serverinfo.sport)
  | none => (s.setCoroutine c .idle, .raises)

/-- `kick` and `deadlock_kick`: a call of the gate of the account. -/
def callOnline (c : Nat) (urs : Urs) (method : Method) (co : Coroutine Urs Uid Name) :
    State Urs Uid Name × Output Urs Uid Name :=
  match s.acctOnline.lookup urs with
  | some last => (s.setCoroutine c co, .calls last.servername method)
  | none => (s, .returns)

def kick (c : Nat) (urs : Urs) : State Urs Uid Name × Output Urs Uid Name :=
  s.callOnline c urs .kick .kicking

def deadlockKick (c : Nat) (urs : Urs) : State Urs Uid Name × Output Urs Uid Name :=
  s.callOnline c urs .deadlockKick .kicking

def clearAcctonline (c : Nat) (urs : Urs) : State Urs Uid Name × Output Urs Uid Name :=
  s.callOnline c urs .deadlockKick (.clearing urs)

/-- `shutdown` and `shutdown_gate`: the next valid gate is shut down. -/
def closeNext (c : Nat) : List Name → State Urs Uid Name × Output Urs Uid Name
  | [] => (s.setCoroutine c .idle, .returns)
  | servername :: rest =>
      match s.serverList.lookup servername with
      | some serverinfo =>
          if serverinfo.isvalid then
            ((s.setGate servername { serverinfo with isvalid := false }).setCoroutine c
              (.closing rest), .calls servername .shutdown)
          else closeNext c rest
      | none => closeNext c rest

def shutdownGate (c : Nat) (servername : Name) : State Urs Uid Name × Output Urs Uid Name :=
  if (s.serverList.lookup servername).isSome then s.closeNext c [servername] else (s, .raises)

/-- `_dealwith_disconnectgate` up to the call of the gate. -/
def disconnect (c : Nat) (servername : Name) : State Urs Uid Name × Output Urs Uid Name :=
  match s.serverList.lookup servername with
  | some serverinfo =>
      if serverinfo.isvalid then
        ((s.setGate servername { serverinfo with isvalid := false }).setCoroutine c
          (.disconnecting servername), .calls servername .shutdown)
      else (s, .returns)
  | none => (s, .returns)

def step : Event Urs Uid Name → Option (State Urs Uid Name × Output Urs Uid Name)
  | .registerGate servername serverinfo => some (s.registerGate servername serverinfo)
  | .logout urs => some (s.logout urs)
  | .loginHandler c usr uid order =>
      match s.coroutines c with
      | .idle =>
          if order.Perm s.serverList.keys then some (s.loginHandler c usr uid order) else none
      | _ => none
  | .kick c urs =>
      match s.coroutines c with
      | .idle => some (s.kick c urs)
      | _ => none
  | .deadlockKick c urs =>
      match s.coroutines c with
      | .idle => some (s.deadlockKick c urs)
      | _ => none
  | .clearAcctonline c urs =>
      match s.coroutines c with
      | .idle => some (s.clearAcctonline c urs)
      | _ => none
  | .shutdownGate c servername =>
      match s.coroutines c with
      | .idle => some (s.shutdownGate c servername)
      | _ => none
  | .shutdown c order =>
      match s.coroutines c with
      | .idle =>
          if order.Perm s.serverList.keys then
            some ({ s with isShuntdown := true }.closeNext c order)
          else none
      | _ => none
  | .disconnect c servername =>
      match s.coroutines c with
      | .idle => some (s.disconnect c servername)
      | _ => none
  | .replied c onlineCnt order =>
      match s.coroutines c with
      | .idle => none
      | .kickingLast usr uid =>
          if order.Perm s.serverList.keys then some (s.kickedLast c usr uid order) else none
      | .loggingIn usr uid servername => some (s.enter c usr uid servername onlineCnt)
      | .kicking => some (s.setCoroutine c .idle, .returns)
      | .clearing urs => some ((s.setCoroutine c .idle).logout urs)
      | .disconnecting servername =>
          some ((s.setCoroutine c .idle).dropAccounts servername s.acctOnline.keys)
      | .closing rest => some (s.closeNext c rest)
  | .raised c =>
      match s.coroutines c with
      | .idle => none
      | .kickingLast _ _ => some (s.setCoroutine c .idle, .raises)
      | .loggingIn _ _ _ => some (s.setCoroutine c .idle, .raises)
      | .kicking => some (s.setCoroutine c .idle, .raises)
      | .clearing urs => some ((s.setCoroutine c .idle).logout urs)
      | .disconnecting servername =>
          some ((s.setCoroutine c .idle).dropAccounts servername s.acctOnline.keys)
      | .closing _ => some (s.setCoroutine c .idle, .raises)

end State

def machine : Machine (State Urs Uid Name) (Event Urs Uid Name) (Output Urs Uid Name) where
  init := ⟨∅, ∅, fun _ => none, false, fun _ => .idle⟩
  step := State.step

/-- The coroutine of an event that is one of a coroutine. -/
def Event.coroutine : Event Urs Uid Name → Option Nat
  | .registerGate _ _ => none
  | .loginHandler c _ _ _ => some c
  | .logout _ => none
  | .kick c _ => some c
  | .deadlockKick c _ => some c
  | .clearAcctonline c _ => some c
  | .shutdownGate c _ => some c
  | .shutdown c _ => some c
  | .disconnect c _ => some c
  | .replied c _ _ => some c
  | .raised c => some c

def Event.isLogin : Event Urs Uid Name → Bool
  | .loginHandler _ _ _ _ => true
  | _ => false

def Event.servername : Event Urs Uid Name → Option Name
  | .registerGate servername _ => some servername
  | _ => none

def Output.isLoggedIn : Output Urs Uid Name → Bool
  | .loggedIn _ _ _ _ _ _ => true
  | _ => false

/-- The account a coroutine of `login_handler` works for. -/
def Coroutine.login : Coroutine Urs Uid Name → Option Urs
  | .kickingLast usr _ => some usr
  | .loggingIn usr _ _ => some usr
  | _ => none

/-- What a step does to the gates and to `acct_login`. -/
inductive Change (s : State Urs Uid Name) :
    Event Urs Uid Name → Output Urs Uid Name → State Urs Uid Name → Prop
  | none {e o s'} : s'.serverList = s.serverList → s'.acctLogin = s.acctLogin →
      e.servername = Option.none ∨ o = .raises → o.isLoggedIn = false → Change s e o s'
  | registered {servername serverinfo o s'} : s.serverList.lookup servername = Option.none →
      s'.serverList = s.serverList.insert servername
        { serverinfo with onlineCnd := some 0, isvalid := true } →
      s'.acctLogin = s.acctLogin → o = .returns →
      Change s (.registerGate servername serverinfo) o s'
  | invalidated {e o s' servername serverinfo} : s.serverList.lookup servername = some serverinfo →
      s'.serverList = s.serverList.insert servername { serverinfo with isvalid := false } →
      s'.acctLogin = s.acctLogin → e.servername = Option.none → o.isLoggedIn = false →
      Change s e o s'
  | entered {c usr uid servername serverinfo onlineCnt order s'} :
      s.coroutines c = .loggingIn usr uid servername →
      s.serverList.lookup servername = some serverinfo →
      s'.serverList = s.serverList.insert servername
        { serverinfo with onlineCnt := some onlineCnt } →
      s'.acctLogin = Function.update s.acctLogin usr
        (some (.account ⟨serverinfo.address, serverinfo.nodeName, uid, servername⟩)) →
      Change s (.replied c onlineCnt order)
        (.loggedIn usr servername uid serverinfo.gateIp serverinfo.port serverinfo.sport) s'

theorem Change.of_shuntdown {s s' : State Urs Uid Name} {e : Event Urs Uid Name}
    {o : Output Urs Uid Name} (change : Change { s with isShuntdown := true } e o s') :
    Change s e o s' := by
  cases change with
  | none gates login plain out => exact .none gates login plain out
  | registered fresh gates login out => exact .registered fresh gates login out
  | invalidated found gates login plain out => exact .invalidated found gates login plain out
  | entered co found gates login => exact .entered co found gates login

/-- Nobody is in `acct_online`. -/
def State.NobodyOnline (s : State Urs Uid Name) : Prop := s.acctOnline = ∅

namespace State.NobodyOnline
variable {s : State Urs Uid Name}

theorem lookup (nobody : s.NobodyOnline) (urs : Urs) : s.acctOnline.lookup urs = none := by
  rw [show s.acctOnline = ∅ from nobody]
  exact AList.lookup_empty urs

theorem logout (nobody : s.NobodyOnline) (urs : Urs) : s.logout urs = (s, .loggedOut urs) := by
  simp only [State.logout, nobody.lookup urs]

theorem dropAccounts (nobody : s.NobodyOnline) (servername : Name) (keys : List Urs) :
    s.dropAccounts servername keys = (s, .disconnected servername) := by
  induction keys with
  | nil => rfl
  | cons urs rest ih => simp only [State.dropAccounts, nobody.lookup urs, ih]

theorem callOnline (nobody : s.NobodyOnline) (c : Nat) (urs : Urs) (method : Method)
    (co : Coroutine Urs Uid Name) : s.callOnline c urs method co = (s, .returns) := by
  simp only [State.callOnline, nobody.lookup urs]

theorem loginHandler (nobody : s.NobodyOnline) (c : Nat) (usr : Urs) (uid : Uid)
    (order : List Name) : s.loginHandler c usr uid order = s.choose c usr uid order := by
  simp only [State.loginHandler, nobody.lookup usr]

theorem kickedLast (nobody : s.NobodyOnline) (c : Nat) (usr : Urs) (uid : Uid)
    (order : List Name) : s.kickedLast c usr uid order = s.choose c usr uid order := by
  simp [State.kickedLast, nobody.lookup usr]

end State.NobodyOnline

namespace State
variable {s s' : State Urs Uid Name}

theorem choose_change (s : State Urs Uid Name) (c : Nat) (usr : Urs) (uid : Uid) (order : List Name)
    {e : Event Urs Uid Name} (plain : e.servername = Option.none) :
    Change s e (s.choose c usr uid order).2 (s.choose c usr uid order).1 ∧
      (s.choose c usr uid order).1.acctOnline = s.acctOnline := by
  simp only [State.choose]
  split
  all_goals exact ⟨.none rfl rfl (.inl plain) rfl, rfl⟩

theorem enter_change {c onlineCnt : Nat} {usr : Urs} {uid : Uid} {servername : Name}
    (co : s.coroutines c = .loggingIn usr uid servername) (order : List Name) :
    Change s (.replied c onlineCnt order) (s.enter c usr uid servername onlineCnt).2
        (s.enter c usr uid servername onlineCnt).1 ∧
      (s.enter c usr uid servername onlineCnt).1.acctOnline = s.acctOnline := by
  simp only [State.enter]
  split
  · rename_i serverinfo found
    exact ⟨.entered co found rfl rfl, rfl⟩
  · exact ⟨.none rfl rfl (.inl rfl) rfl, rfl⟩

theorem closeNext_change (s : State Urs Uid Name) (c : Nat) (rest : List Name)
    {e : Event Urs Uid Name} (plain : e.servername = Option.none) :
    Change s e (s.closeNext c rest).2 (s.closeNext c rest).1 ∧
      (s.closeNext c rest).1.acctOnline = s.acctOnline := by
  induction rest with
  | nil => exact ⟨.none rfl rfl (.inl plain) rfl, rfl⟩
  | cons servername rest ih =>
      simp only [State.closeNext]
      split
      · rename_i serverinfo found
        split
        · exact ⟨.invalidated found rfl rfl plain rfl, rfl⟩
        · exact ih
      · exact ih

theorem registerGate_change (s : State Urs Uid Name) (servername : Name) (serverinfo : Serverinfo) :
    Change s (.registerGate servername serverinfo) (s.registerGate servername serverinfo).2
        (s.registerGate servername serverinfo).1 ∧
      (s.registerGate servername serverinfo).1.acctOnline = s.acctOnline := by
  simp only [State.registerGate]
  split
  · exact ⟨.none rfl rfl (.inr rfl) rfl, rfl⟩
  · rename_i fresh
    exact ⟨.registered (by simpa using fresh) rfl rfl rfl, rfl⟩

theorem shutdownGate_change (s : State Urs Uid Name) (c : Nat) (servername : Name)
    {e : Event Urs Uid Name} (plain : e.servername = Option.none) :
    Change s e (s.shutdownGate c servername).2 (s.shutdownGate c servername).1 ∧
      (s.shutdownGate c servername).1.acctOnline = s.acctOnline := by
  simp only [State.shutdownGate]
  split
  · exact s.closeNext_change c [servername] plain
  · exact ⟨.none rfl rfl (.inl plain) rfl, rfl⟩

theorem disconnect_change (s : State Urs Uid Name) (c : Nat) (servername : Name)
    {e : Event Urs Uid Name} (plain : e.servername = Option.none) :
    Change s e (s.disconnect c servername).2 (s.disconnect c servername).1 ∧
      (s.disconnect c servername).1.acctOnline = s.acctOnline := by
  simp only [State.disconnect]
  split
  · rename_i serverinfo found
    split
    · exact ⟨.invalidated found rfl rfl plain rfl, rfl⟩
    · exact ⟨.none rfl rfl (.inl plain) rfl, rfl⟩
  · exact ⟨.none rfl rfl (.inl plain) rfl, rfl⟩

/-- The answers of a service in which nobody is online, by the functions that give them. -/
inductive Answered (s : State Urs Uid Name) :
    Event Urs Uid Name → State Urs Uid Name × Output Urs Uid Name → Prop
  | registerGate {servername serverinfo} :
      Answered s (.registerGate servername serverinfo) (s.registerGate servername serverinfo)
  | same {e o} : e.servername = none → o.isLoggedIn = false → Answered s e (s, o)
  | idle {e o} (c) : e.servername = none → o.isLoggedIn = false →
      Answered s e (s.setCoroutine c .idle, o)
  | choose {e c usr uid order} : e.servername = none → s.coroutines c = .kickingLast usr uid →
      Answered s e (s.choose c usr uid order)
  | login {c usr uid order} :
      Answered s (.loginHandler c usr uid order) (s.choose c usr uid order)
  | enter {c usr uid servername onlineCnt order} :
      s.coroutines c = .loggingIn usr uid servername →
      Answered s (.replied c onlineCnt order) (s.enter c usr uid servername onlineCnt)
  | closeNext {e} (c rest) : e.servername = none → Answered s e (s.closeNext c rest)
  | shutdown {c order} :
      Answered s (.shutdown c order) ({ s with isShuntdown := true }.closeNext c order)
  | shutdownGate {c servername} :
      Answered s (.shutdownGate c servername) (s.shutdownGate c servername)
  | disconnect {c servername} : Answered s (.disconnect c servername) (s.disconnect c servername)

theorem NobodyOnline.answered {e : Event Urs Uid Name}
    {answer : State Urs Uid Name × Output Urs Uid Name} (nobody : s.NobodyOnline)
    (step : s.step e = some answer) : Answered s e answer := by
  have rest : ∀ c, (s.setCoroutine c .idle).NobodyOnline := fun _ => nobody
  cases e with
  | registerGate servername serverinfo =>
      cases step
      exact .registerGate
  | logout urs =>
      rw [State.step, nobody.logout] at step
      cases step
      exact .same rfl rfl
  | loginHandler c usr uid order =>
      simp only [State.step, nobody.loginHandler] at step
      split at step
      · cases (Option.ite_none_right_eq_some.mp step).2
        exact .login
      · cases step
  | kick c urs =>
      simp only [State.step, State.kick, nobody.callOnline] at step
      split at step
      all_goals cases step
      exact .same rfl rfl
  | deadlockKick c urs =>
      simp only [State.step, State.deadlockKick, nobody.callOnline] at step
      split at step
      all_goals cases step
      exact .same rfl rfl
  | clearAcctonline c urs =>
      simp only [State.step, State.clearAcctonline, nobody.callOnline] at step
      split at step
      all_goals cases step
      exact .same rfl rfl
  | shutdownGate c servername =>
      simp only [State.step] at step
      split at step
      all_goals cases step
      exact .shutdownGate
  | shutdown c order =>
      simp only [State.step] at step
      split at step
      · cases (Option.ite_none_right_eq_some.mp step).2
        exact .shutdown
      · cases step
  | disconnect c servername =>
      simp only [State.step] at step
      split at step
      all_goals cases step
      exact .disconnect
  | replied c onlineCnt order =>
      simp only [State.step, nobody.kickedLast, (rest c).logout, (rest c).dropAccounts] at step
      split at step
      case h_1 => cases step
      case h_2 co =>
          cases (Option.ite_none_right_eq_some.mp step).2
          exact .choose rfl co
      case h_3 co =>
          cases step
          exact .enter co
      case h_7 =>
          cases step
          exact .closeNext c _ rfl
      all_goals
        cases step
        exact .idle c rfl rfl
  | raised c =>
      simp only [State.step, (rest c).logout, (rest c).dropAccounts] at step
      split at step
      case h_1 => cases step
      all_goals
        cases step
        exact .idle c rfl rfl

/-- The steps of a service in which nobody is online. -/
theorem NobodyOnline.step {e : Event Urs Uid Name} {o : Output Urs Uid Name}
    (nobody : s.NobodyOnline) (step : s.step e = some (s', o)) :
    Change s e o s' ∧ s'.NobodyOnline := by
  have of : ∀ answer : State Urs Uid Name × Output Urs Uid Name, answer = (s', o) →
      Change s e answer.2 answer.1 ∧ answer.1.acctOnline = s.acctOnline →
      Change s e o s' ∧ s'.NobodyOnline := by
    intro answer result fits
    cases result
    exact ⟨fits.1, fits.2.trans nobody⟩
  generalize result : (s', o) = answer at step
  cases nobody.answered step with
  | registerGate => exact of _ result.symm (s.registerGate_change _ _)
  | same plain out => exact of _ result.symm ⟨.none rfl rfl (.inl plain) out, rfl⟩
  | idle c plain out => exact of _ result.symm ⟨.none rfl rfl (.inl plain) out, rfl⟩
  | choose plain _ => exact of _ result.symm (s.choose_change _ _ _ _ plain)
  | login => exact of _ result.symm (s.choose_change _ _ _ _ rfl)
  | enter co => exact of _ result.symm (enter_change co _)
  | closeNext c rest plain => exact of _ result.symm (s.closeNext_change c rest plain)
  | @shutdown c order =>
      have change := closeNext_change { s with isShuntdown := true } c order
        (rfl : (Event.shutdown c order : Event Urs Uid Name).servername = none)
      exact of _ result.symm ⟨change.1.of_shuntdown, change.2⟩
  | shutdownGate => exact of _ result.symm (s.shutdownGate_change _ _ rfl)
  | disconnect => exact of _ result.symm (s.disconnect_change _ _ rfl)

omit [DecidableEq Urs] [DecidableEq Name] in
theorem update_login {f : Nat → Coroutine Urs Uid Name} {co : Coroutine Urs Uid Name} {c c' : Nat}
    {usr : Urs} (login : ((Function.update f c co) c').login = some usr) :
    c' = c ∧ co.login = some usr ∨ (f c').login = some usr := by
  by_cases same : c' = c
  · subst same
    rw [Function.update_self] at login
    exact .inl ⟨rfl, login⟩
  · rw [Function.update_of_ne same] at login
    exact .inr login

theorem choose_login {c c' : Nat} {usr usr' : Urs} {uid : Uid} {order : List Name}
    (login : ((s.choose c usr uid order).1.coroutines c').login = some usr') :
    c' = c ∧ usr' = usr ∨ (s.coroutines c').login = some usr' := by
  simp only [State.choose] at login
  split at login
  · cases update_login login with
    | inl here => exact .inl ⟨here.1, (Option.some.inj here.2).symm⟩
    | inr old => exact .inr old
  · exact .inr ((update_login login).resolve_left (by simp [Coroutine.login]))
  · exact .inr ((update_login login).resolve_left (by simp [Coroutine.login]))

theorem idle_login {c c' : Nat} {usr : Urs}
    (login : ((s.setCoroutine c .idle).coroutines c').login = some usr) :
    (s.coroutines c').login = some usr :=
  (update_login login).resolve_left (by simp [Coroutine.login])

theorem enter_login {c c' onlineCnt : Nat} {usr usr' : Urs} {uid : Uid} {servername : Name}
    (login : ((s.enter c usr uid servername onlineCnt).1.coroutines c').login = some usr') :
    (s.coroutines c').login = some usr' := by
  simp only [State.enter] at login
  split at login
  all_goals exact idle_login login

theorem closeNext_login {c c' : Nat} {rest : List Name} {usr : Urs}
    (login : ((s.closeNext c rest).1.coroutines c').login = some usr) :
    (s.coroutines c').login = some usr := by
  induction rest with
  | nil => exact idle_login login
  | cons servername rest ih =>
      simp only [State.closeNext] at login
      split at login
      · split at login
        · exact (update_login login).resolve_left (by simp [Coroutine.login])
        · exact ih login
      · exact ih login

theorem registerGate_login {c' : Nat} {servername : Name} {serverinfo : Serverinfo} :
    ((s.registerGate servername serverinfo).1.coroutines c').login = (s.coroutines c').login := by
  simp only [State.registerGate]
  split
  all_goals rfl

theorem shutdownGate_login {c c' : Nat} {servername : Name} {usr : Urs}
    (login : ((s.shutdownGate c servername).1.coroutines c').login = some usr) :
    (s.coroutines c').login = some usr := by
  simp only [State.shutdownGate] at login
  split at login
  · exact closeNext_login login
  · exact login

theorem disconnect_login {c c' : Nat} {servername : Name} {usr : Urs}
    (login : ((s.disconnect c servername).1.coroutines c').login = some usr) :
    (s.coroutines c').login = some usr := by
  simp only [State.disconnect] at login
  split at login
  · split at login
    · exact (update_login login).resolve_left (by simp [Coroutine.login])
    · exact login
  · exact login

/-- Only `login_handler` itself starts to work for an account. -/
theorem NobodyOnline.step_login {e : Event Urs Uid Name} {o : Output Urs Uid Name} {c' : Nat}
    {usr : Urs} (nobody : s.NobodyOnline) (plain : e.isLogin = false)
    (step : s.step e = some (s', o)) (login : (s'.coroutines c').login = some usr) :
    (s.coroutines c').login = some usr := by
  have here : (((s', o) : State Urs Uid Name × Output Urs Uid Name).1.coroutines c').login =
      some usr := login
  generalize (s', o) = answer at step here
  cases nobody.answered step with
  | registerGate => exact registerGate_login.symm.trans here
  | same => exact here
  | idle => exact idle_login here
  | choose _ co =>
      cases choose_login here with
      | inl working =>
          obtain ⟨rfl, rfl⟩ := working
          rw [co]
          rfl
      | inr old => exact old
  | login => cases plain
  | enter => exact enter_login here
  | closeNext => exact closeNext_login here
  | shutdown => exact closeNext_login (s := { s with isShuntdown := true }) here
  | shutdownGate => exact shutdownGate_login here
  | disconnect => exact disconnect_login here

theorem NobodyOnline.loginHandler_login {o : Output Urs Uid Name} {c c' : Nat} {usr usr' : Urs}
    {uid : Uid} {order : List Name} (nobody : s.NobodyOnline)
    (step : s.step (.loginHandler c usr uid order) = some (s', o))
    (login : (s'.coroutines c').login = some usr') :
    c' = c ∧ usr' = usr ∨ (s.coroutines c').login = some usr' := by
  simp only [State.step, nobody.loginHandler] at step
  split at step
  · split at step
    · rw [(Prod.mk.inj (Option.some.inj step).symm).1] at login
      exact choose_login login
    · cases step
  · cases step

end State

theorem Change.acctLogin {s s' : State Urs Uid Name} {e : Event Urs Uid Name}
    {o : Output Urs Uid Name} (change : Change s e o s') (urs : Urs) :
    s'.acctLogin urs = s.acctLogin urs ∨
      (s'.acctLogin urs).isSome ∧ ∃ c, (s.coroutines c).login = some urs := by
  cases change with
  | none _ login _ _ => exact .inl (congrFun login urs)
  | registered _ _ login _ => exact .inl (congrFun login urs)
  | invalidated _ _ login _ _ => exact .inl (congrFun login urs)
  | @entered c usr uid servername serverinfo _ _ _ co _ _ login =>
      rw [login]
      by_cases same : urs = usr
      · subst same
        rw [Function.update_self]
        exact .inr ⟨rfl, c, by rw [co]; rfl⟩
      · exact .inl (Function.update_of_ne same _ _)

end Qiuqiu.Logind
