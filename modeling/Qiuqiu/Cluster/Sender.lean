import Mathlib.Logic.Function.Basic
import Qiuqiu.Base.Machine

/-!
The channel of a clustersender service: skynet/lualib/skynet/socketchannel.lua
as skynet/service/clustersender.lua uses it, by session, without auth and
backup. `close_channel_socket` sends interrupt to the service itself and is
suspended in `socket.close` until the socket thread answers; `connect` is
suspended in `socket.open`, behind another coroutine that connects, and until
the dispatch thread of the old socket has ended.
-/
namespace Qiuqiu.Cluster.Sender

/-- A coroutine in `block_connect`. `fails` tells whether `socket_write` fails
on a connection that is lost. -/
inductive Task where
  | changenode
  | request (fails : Bool)
  deriving DecidableEq

/-- What follows `close_channel_socket`. -/
inductive Cont where
  | changehost
  | sockErr
  | close
  | interrupt
  deriving DecidableEq

structure State where
  sock : Option Nat
  closed : Bool
  service : Bool
  /-- The coroutine that connects and those that wait for it. -/
  connecting : List Task
  /-- The socket it has opened, while the dispatch thread of the old one runs. -/
  fd : Option Nat
  /-- The coroutine that waits in `socket.close`. The dispatch thread of the
  socket ends with it. -/
  closing : Option Cont
  /-- The interrupt messages in the mailbox. -/
  interrupts : Nat
  nextFd : Nat
  /-- The sockets `socket.disconnected` holds of. -/
  disconnected : Nat → Bool
  /-- Not in the source: the connections that are lost. -/
  lost : Nat → Bool
  /-- Not in the source: the connection of the latest successful changenode. -/
  established : Option Nat

inductive Event where
  | changenode
  | close
  | request (fails : Bool)
  | opened (ok : Bool)
  | yielded
  | breaks (fd : Nat)
  | disconnects (fd : Nat)
  | socketClosed
  | interrupt
  deriving DecidableEq

/-- Whether dpclusterd is told. -/
inductive Output where
  | quiet
  | reported
  deriving DecidableEq

namespace State
variable (s : State)

/-- The end of `close_channel_socket`. -/
def signal : State :=
  if s.service then { s with interrupts := s.interrupts + 1, service := false } else s

/-- `close_channel_socket` of a disconnected socket. -/
def dropSocket : State :=
  { s with sock := none }.signal

def checkConnection : Option Bool × State :=
  match s.sock with
  | some fd => if s.disconnected fd then (none, s.dropSocket) else (some true, s)
  | none => if s.closed then (some false, s) else (none, s)

/-- What a coroutine does with the connection of `block_connect`. -/
def proceed : Task → State
  | .changenode => { s with service := true, established := s.sock }
  | .request fails =>
      if fails && s.sock.any s.lost then { s with sock := none, closing := some .sockErr } else s

def blockConnect (task : Task) : State :=
  match s.checkConnection with
  | (some true, s) => s.proceed task
  | (some false, s) => s
  | (none, s) =>
      if s.connecting = [] then
        if s.closed then s else { s with connecting := [task] }
      else { s with connecting := s.connecting ++ [task] }

/-- `channel:connect` in `command.changenode`. -/
def connect : State :=
  { s with closed := false }.blockConnect .changenode

/-- The coroutines that return from `try_connect` and from the wait for it. -/
def wake : List Task → State → State
  | [], s => s
  | task :: tasks, s =>
      match s.checkConnection with
      | (some true, s) => wake tasks (s.proceed task)
      | (_, s) => wake tasks s

def store (fd : Nat) : State :=
  wake s.connecting { s with sock := some fd, fd := none, connecting := [] }

def resume : Cont → State × Output
  | .changehost => (s.connect, .quiet)
  | .interrupt => (s, .reported)
  | _ => (s, .quiet)

/-- `close_channel_socket` of a connected socket. -/
def closeSocket (cont : Cont) : State × Output :=
  match s.sock with
  | some _ => ({ s with sock := none, closing := some cont }, .quiet)
  | none => s.signal.resume cont

/-- `channel:close`. -/
def close (cont : Cont) : State × Output :=
  if s.closed then s.resume cont
  else { s with service := false, closed := true }.closeSocket cont

def step : Event → Option (State × Output)
  | .changenode =>
      if s.closed then some (s.connect, .quiet) else some (s.closeSocket .changehost)
  | .close => some (s.close .close)
  | .request fails => some (s.blockConnect (.request fails), .quiet)
  | .opened ok =>
      if s.connecting = [] ∨ s.fd ≠ none then none
      else if !ok then some (wake s.connecting { s with connecting := [] }, .quiet)
      else if s.closing = none then
        some ({ s with nextFd := s.nextFd + 1 }.store s.nextFd, .quiet)
      else some ({ s with nextFd := s.nextFd + 1, fd := some s.nextFd }, .quiet)
  | .yielded =>
      match s.fd, s.closing with
      | some fd, none => some (s.store fd, .quiet)
      | _, _ => none
  | .breaks fd =>
      if s.sock = some fd ∨ s.fd = some fd then
        some ({ s with lost := Function.update s.lost fd true }, .quiet)
      else none
  | .disconnects fd =>
      if s.lost fd then
        let s := { s with disconnected := Function.update s.disconnected fd true }
        some (if s.sock = some fd then s.dropSocket else s, .quiet)
      else none
  | .socketClosed =>
      match s.closing with
      | some cont => some ({ s with closing := none }.signal.resume cont)
      | none => none
  | .interrupt =>
      if 0 < s.interrupts then some ({ s with interrupts := s.interrupts - 1 }.close .interrupt)
      else none

end State

def machine : Machine State Event Output where
  init := ⟨none, false, false, [], none, none, 0, 0, fun _ => false, fun _ => false, none⟩
  step := State.step

namespace State
variable {s : State}

/-- The connection of the latest successful changenode is lost. -/
def Lost (s : State) : Prop :=
  ∃ fd, s.established = some fd ∧ s.lost fd = true

instance (s : State) : Decidable s.Lost :=
  decidable_of_iff (s.established.any s.lost = true) (by
    simp only [Lost]
    cases s.established <;> simp)

/-- A changenode finds the channel closed, without a service to tell or with a
connection that is lost already, and none gets a connection while an interrupt
is in the mailbox. -/
def undisturbed (s : State) : Event → Bool
  | .changenode =>
      decide ((s.closed = false → s.service = true → s.Lost) ∧
        (s.closed = true → ∀ fd ∈ s.sock, s.lost fd = false → s.interrupts = 0))
  | .opened ok =>
      decide (ok = true → s.closing = none → .changenode ∈ s.connecting → s.interrupts = 0)
  | .yielded =>
      decide (∀ fd ∈ s.fd, .changenode ∈ s.connecting → s.lost fd = false → s.interrupts = 0)
  | _ => true

/-- The service is told about the connection of the latest successful
changenode, and an interrupt that is in the mailbox or being handled means that
this connection is lost. -/
structure Tidy (s : State) : Prop where
  serving : s.service = true →
    ∃ fd, s.established = some fd ∧ (s.sock = some fd ∨ s.lost fd = true)
  pending : 0 < s.interrupts ∨ s.closing = some .interrupt → s.Lost
  closing : s.closing ≠ none → s.sock = none
  connecting : s.connecting ≠ [] → s.sock = none
  opened : s.fd ≠ none → s.connecting ≠ []
  disconnected : ∀ fd, s.disconnected fd = true → s.lost fd = true

theorem Tidy.signal (tidy : s.Tidy) (lost : s.service = true → s.Lost) : s.signal.Tidy := by
  simp only [State.signal]
  split
  · rename_i serving
    exact
      { serving := fun off => by cases off
        pending := fun _ => lost serving
        closing := tidy.closing
        connecting := tidy.connecting
        opened := tidy.opened
        disconnected := tidy.disconnected }
  · exact tidy

@[simp]
theorem signal_sock (s : State) : s.signal.sock = s.sock := by
  simp only [signal]
  split <;> rfl

theorem Tidy.lost_of_no_sock (tidy : s.Tidy) (sock : s.sock = none) (serving : s.service = true) :
    s.Lost := by
  obtain ⟨fd, established, here⟩ := tidy.serving serving
  cases here with
  | inl same =>
      rw [sock] at same
      cases same
  | inr lost => exact ⟨fd, established, lost⟩

/-- The socket goes away with the coroutine `cont` closing it. -/
theorem Tidy.without_sock (tidy : s.Tidy) (cont : Option Cont)
    (lost : s.service = true → s.Lost) (handled : cont = some .interrupt → s.Lost) :
    { s with sock := none, closing := cont }.Tidy where
  serving := fun on => by
    obtain ⟨fd, established, lost⟩ := lost on
    exact ⟨fd, established, .inr lost⟩
  pending := fun waiting => waiting.elim (fun some => tidy.pending (.inl some)) handled
  closing := fun _ => rfl
  connecting := fun _ => rfl
  opened := tidy.opened
  disconnected := tidy.disconnected

theorem Tidy.not_closing (tidy : s.Tidy) {fd : Nat} (sock : s.sock = some fd) :
    s.closing = none := by
  by_contra closing
  rw [tidy.closing closing] at sock
  cases sock

theorem Tidy.lost_of_sock (tidy : s.Tidy) {fd : Nat} (sock : s.sock = some fd)
    (lost : s.lost fd = true) (serving : s.service = true) : s.Lost := by
  obtain ⟨fd', established, here⟩ := tidy.serving serving
  cases here with
  | inl same =>
      rw [sock] at same
      cases same
      exact ⟨fd, established, lost⟩
  | inr lost => exact ⟨fd', established, lost⟩

theorem Tidy.dropSocket (tidy : s.Tidy) {fd : Nat} (sock : s.sock = some fd)
    (lost : s.lost fd = true) : s.dropSocket.Tidy := by
  have closing := tidy.not_closing sock
  have gone : { s with sock := none, closing := s.closing }.Tidy :=
    tidy.without_sock s.closing (tidy.lost_of_sock sock lost) fun handled => by
      rw [closing] at handled
      cases handled
  exact gone.signal (tidy.lost_of_sock sock lost)

/-- The answers of `check_connection`. -/
inductive Checked (s : State) : Option Bool → State → Prop
  | connected (fd) : s.sock = some fd → Checked s (some true) s
  | refused : s.sock = none → Checked s (some false) s
  | dropped (fd) : s.sock = some fd → s.disconnected fd = true → Checked s none s.dropSocket
  | absent : s.sock = none → Checked s none s

theorem checkConnection_checked (s : State) :
    s.Checked s.checkConnection.1 s.checkConnection.2 := by
  simp only [checkConnection]
  split
  · rename_i fd sock
    split
    · rename_i disconnected
      exact .dropped fd sock disconnected
    · exact .connected fd sock
  · rename_i sock
    split
    · exact .refused sock
    · exact .absent sock

@[simp]
theorem dropSocket_sock (s : State) : s.dropSocket.sock = none :=
  signal_sock _

/-- A changenode may take the connection. -/
def Clear (s : State) : Prop :=
  ∀ fd, s.sock = some fd → s.interrupts = 0 ∨ s.lost fd = true

theorem Clear.of_no_sock (sock : s.sock = none) : s.Clear := by
  intro fd here
  rw [sock] at here
  cases here

theorem Clear.proceed (clear : s.Clear) (task : Task) : (s.proceed task).Clear := by
  cases task with
  | changenode => exact clear
  | request fails =>
      simp only [State.proceed]
      split
      · exact .of_no_sock rfl
      · exact clear

theorem Tidy.proceed (tidy : s.Tidy) {fd : Nat} (sock : s.sock = some fd) {task : Task}
    (clear : task = .changenode → s.Clear) : (s.proceed task).Tidy := by
  cases task with
  | changenode =>
      have closing := tidy.not_closing sock
      exact
        { serving := fun _ => ⟨fd, sock, .inl sock⟩
          pending := fun waiting => by
            change 0 < s.interrupts ∨ s.closing = some .interrupt at waiting
            cases waiting with
            | inl waiting =>
                exact ⟨fd, sock, (clear rfl fd sock).resolve_left (Nat.ne_of_gt waiting)⟩
            | inr handled =>
                rw [closing] at handled
                cases handled
          closing := tidy.closing
          connecting := tidy.connecting
          opened := tidy.opened
          disconnected := tidy.disconnected }
  | request fails =>
      simp only [State.proceed, sock, Option.any_some]
      split
      · rename_i lost
        have lost : s.lost fd = true := (Bool.and_eq_true_iff.1 lost).2
        exact tidy.without_sock (some .sockErr) (tidy.lost_of_sock sock lost) (by simp)
      · exact tidy

theorem Tidy.queue (tidy : s.Tidy) (sock : s.sock = none) (tasks : List Task)
    (kept : tasks ≠ []) : { s with connecting := tasks }.Tidy where
  serving := tidy.serving
  pending := tidy.pending
  closing := tidy.closing
  connecting := fun _ => sock
  opened := fun _ => kept
  disconnected := tidy.disconnected

theorem Tidy.enqueue (tidy : s.Tidy) (sock : s.sock = none) (task : Task) :
    (if s.connecting = [] then
        if s.closed then s else { s with connecting := [task] }
      else { s with connecting := s.connecting ++ [task] }).Tidy := by
  split
  · split
    · exact tidy
    · exact tidy.queue sock [task] (by simp)
  · exact tidy.queue sock (s.connecting ++ [task]) (by simp)

theorem Tidy.blockConnect (tidy : s.Tidy) {task : Task} (clear : task = .changenode → s.Clear) :
    (s.blockConnect task).Tidy := by
  have checked := checkConnection_checked s
  simp only [State.blockConnect]
  generalize s.checkConnection = answer at checked
  obtain ⟨r, t⟩ := answer
  cases checked with
  | connected fd sock => exact tidy.proceed sock clear
  | refused sock => exact tidy
  | dropped fd sock disconnected =>
      have dropped := tidy.dropSocket sock (tidy.disconnected fd disconnected)
      exact dropped.enqueue (dropSocket_sock s) task
  | absent sock => exact tidy.enqueue sock task

theorem Tidy.reopen (tidy : s.Tidy) : { s with closed := false }.Tidy :=
  ⟨tidy.serving, tidy.pending, tidy.closing, tidy.connecting, tidy.opened, tidy.disconnected⟩

theorem Tidy.connect (tidy : s.Tidy) (clear : s.Clear) : s.connect.Tidy :=
  tidy.reopen.blockConnect fun _ => clear

theorem Tidy.wake (tasks : List Task) (tidy : s.Tidy) (clear : .changenode ∈ tasks → s.Clear) :
    (State.wake tasks s).Tidy := by
  induction tasks generalizing s with
  | nil => exact tidy
  | cons task tasks ih =>
      have later : .changenode ∈ tasks → s.Clear := fun mem => clear (List.mem_cons_of_mem task mem)
      have checked := checkConnection_checked s
      simp only [State.wake]
      generalize s.checkConnection = answer at checked
      obtain ⟨r, t⟩ := answer
      cases checked with
      | connected fd sock =>
          have proceeds := tidy.proceed sock fun same => clear (same ▸ List.mem_cons_self)
          exact ih proceeds fun mem => (later mem).proceed task
      | refused sock => exact ih tidy later
      | dropped fd sock disconnected =>
          have dropped := tidy.dropSocket sock (tidy.disconnected fd disconnected)
          exact ih dropped fun _ => .of_no_sock (dropSocket_sock s)
      | absent sock => exact ih tidy later

theorem Tidy.store (tidy : s.Tidy) {fd : Nat} (waiting : s.connecting ≠ [])
    (closing : s.closing = none)
    (clear : .changenode ∈ s.connecting → s.interrupts = 0 ∨ s.lost fd = true) :
    (s.store fd).Tidy := by
  have sock := tidy.connecting waiting
  have stored : { s with sock := some fd, fd := none, connecting := [] }.Tidy :=
    { serving := fun serving => by
        obtain ⟨fd', established, lost⟩ := tidy.lost_of_no_sock sock serving
        exact ⟨fd', established, .inr lost⟩
      pending := tidy.pending
      closing := fun still => absurd closing still
      connecting := fun still => absurd rfl still
      opened := fun still => absurd rfl still
      disconnected := tidy.disconnected }
  refine stored.wake s.connecting ?_
  intro mem fd' here
  cases here
  exact clear mem

theorem Tidy.resume (tidy : s.Tidy) (sock : s.sock = none) (cont : Cont) :
    (s.resume cont).1.Tidy := by
  cases cont with
  | changehost => exact tidy.connect (.of_no_sock sock)
  | _ => exact tidy

theorem Tidy.closeSocket (tidy : s.Tidy) (cont : Cont) (lost : s.service = true → s.Lost)
    (handled : cont = .interrupt → s.Lost) : (s.closeSocket cont).1.Tidy := by
  simp only [State.closeSocket]
  split
  · exact tidy.without_sock (some cont) lost fun same => handled (Option.some.inj same)
  · rename_i sock
    exact (tidy.signal lost).resume (by rwa [signal_sock]) cont

theorem Tidy.close (tidy : s.Tidy) (cont : Cont) (notChange : cont ≠ .changehost)
    (handled : cont = .interrupt → s.Lost) : (s.close cont).1.Tidy := by
  simp only [State.close]
  split
  · cases cont with
    | changehost => exact absurd rfl notChange
    | _ => exact tidy
  · have off : { s with service := false, closed := true }.Tidy :=
      ⟨(by simp), tidy.pending, tidy.closing, tidy.connecting, tidy.opened, tidy.disconnected⟩
    exact off.closeSocket cont (by simp) handled

theorem Tidy.changenode {s' : State} {o : Output} (tidy : s.Tidy)
    (ok : s.undisturbed .changenode = true) (h : s.step .changenode = some (s', o)) :
    s'.Tidy := by
  simp only [undisturbed, decide_eq_true_eq] at ok
  obtain ⟨serving, clear⟩ := ok
  simp only [State.step] at h
  split at h
  · rename_i closed
    cases h
    refine tidy.connect ?_
    intro fd sock
    by_cases lost : s.lost fd = true
    · exact .inr lost
    · exact .inl (clear closed fd sock (Bool.eq_false_iff.2 lost))
  · rename_i isOpen
    have closes := Option.some.inj h
    have tidy' := tidy.closeSocket .changehost (serving (Bool.eq_false_iff.2 isOpen))
      (by simp)
    rwa [closes] at tidy'

theorem Tidy.opens {s' : State} {o : Output} {ok : Bool} (tidy : s.Tidy)
    (clear : s.undisturbed (.opened ok) = true) (h : s.step (.opened ok) = some (s', o)) :
    s'.Tidy := by
  simp only [undisturbed, decide_eq_true_eq] at clear
  simp only [State.step] at h
  split at h
  · cases h
  · rename_i opening
    rw [not_or] at opening
    have sock := tidy.connecting opening.1
    have none : s.fd = none := not_not.1 opening.2
    split at h
    · cases h
      have freed : { s with connecting := [] }.Tidy :=
        ⟨tidy.serving, tidy.pending, tidy.closing, (by simp), (by simp [none]), tidy.disconnected⟩
      exact freed.wake s.connecting fun _ => .of_no_sock sock
    · rename_i succeeds
      split at h
      · rename_i closing
        cases h
        have counted : { s with nextFd := s.nextFd + 1 }.Tidy :=
          ⟨tidy.serving, tidy.pending, tidy.closing, tidy.connecting, tidy.opened,
            tidy.disconnected⟩
        exact counted.store opening.1 closing fun mem => .inl (clear (by simpa using succeeds)
          closing mem)
      · cases h
        exact ⟨tidy.serving, tidy.pending, tidy.closing, tidy.connecting, fun _ => opening.1,
          tidy.disconnected⟩

theorem Tidy.yields {s' : State} {o : Output} (tidy : s.Tidy)
    (clear : s.undisturbed .yielded = true) (h : s.step .yielded = some (s', o)) : s'.Tidy := by
  simp only [undisturbed, decide_eq_true_eq] at clear
  simp only [State.step] at h
  split at h
  · rename_i fd here closing
    cases h
    refine tidy.store (tidy.opened (by simp [here])) closing ?_
    intro mem
    by_cases lost : s.lost fd = true
    · exact .inr lost
    · exact .inl (clear fd here mem (Bool.eq_false_iff.2 lost))
  · cases h

theorem Tidy.breaks (tidy : s.Tidy) (fd : Nat) :
    { s with lost := Function.update s.lost fd true }.Tidy := by
  have more : ∀ fd', s.lost fd' = true → Function.update s.lost fd true fd' = true := by
    intro fd' lost
    by_cases same : fd' = fd
    · subst same
      exact Function.update_self _ _ _
    · rwa [Function.update_of_ne same]
  exact
    { serving := fun serving => by
        obtain ⟨fd', established, here⟩ := tidy.serving serving
        exact ⟨fd', established, here.imp_right (more fd')⟩
      pending := fun waiting => by
        obtain ⟨fd', established, lost⟩ := tidy.pending waiting
        exact ⟨fd', established, more fd' lost⟩
      closing := tidy.closing
      connecting := tidy.connecting
      opened := tidy.opened
      disconnected := fun fd' disconnected => more fd' (tidy.disconnected fd' disconnected) }

theorem Tidy.disconnects {s' : State} {o : Output} {fd : Nat} (tidy : s.Tidy)
    (h : s.step (.disconnects fd) = some (s', o)) : s'.Tidy := by
  simp only [State.step] at h
  split at h
  · rename_i lost
    have noted : { s with disconnected := Function.update s.disconnected fd true }.Tidy :=
      { serving := tidy.serving
        pending := tidy.pending
        closing := tidy.closing
        connecting := tidy.connecting
        opened := tidy.opened
        disconnected := fun fd' disconnected => by
          by_cases same : fd' = fd
          · subst same
            exact lost
          · change Function.update s.disconnected fd true fd' = true at disconnected
            rw [Function.update_of_ne same] at disconnected
            exact tidy.disconnected fd' disconnected }
    cases h
    split
    · rename_i sock
      exact noted.dropSocket sock lost
    · exact noted
  · cases h

theorem Tidy.step {s' : State} {e : Event} {o : Output} (tidy : s.Tidy)
    (ok : s.undisturbed e = true) (h : s.step e = some (s', o)) : s'.Tidy := by
  cases e with
  | changenode => exact tidy.changenode ok h
  | close =>
      have closes := Option.some.inj h
      have tidy' := tidy.close .close (by simp) (by simp)
      rwa [closes] at tidy'
  | request fails =>
      cases h
      exact tidy.blockConnect (by simp)
  | opened succeeds => exact tidy.opens ok h
  | yielded => exact tidy.yields ok h
  | breaks fd =>
      simp only [State.step] at h
      split at h
      · cases h
        exact tidy.breaks fd
      · cases h
  | disconnects fd => exact tidy.disconnects h
  | socketClosed =>
      simp only [State.step] at h
      split at h
      · rename_i cont closing
        have sock : s.sock = none := tidy.closing (by simp [closing])
        have done : { s with closing := none }.Tidy :=
          ⟨tidy.serving, fun waiting => tidy.pending (waiting.imp_right (by simp)), (by simp),
            tidy.connecting, tidy.opened, tidy.disconnected⟩
        have resumes := Option.some.inj h
        have tidy' := (done.signal (tidy.lost_of_no_sock sock)).resume (by simpa using sock) cont
        rwa [resumes] at tidy'
      · cases h
  | interrupt =>
      simp only [State.step] at h
      split at h
      · rename_i waiting
        have lost := tidy.pending (.inl waiting)
        have taken : { s with interrupts := s.interrupts - 1 }.Tidy :=
          ⟨tidy.serving, fun _ => lost, tidy.closing, tidy.connecting, tidy.opened,
            tidy.disconnected⟩
        have closes := Option.some.inj h
        have tidy' := taken.close .interrupt (by simp) fun _ => lost
        rwa [closes] at tidy'
      · cases h

theorem resume_quiet {cont : Cont} (other : cont ≠ .interrupt) : (s.resume cont).2 = .quiet := by
  cases cont with
  | interrupt => exact absurd rfl other
  | _ => rfl

theorem closeSocket_quiet {cont : Cont} (other : cont ≠ .interrupt) :
    (s.closeSocket cont).2 = .quiet := by
  simp only [closeSocket]
  split
  · rfl
  · exact resume_quiet other

theorem close_quiet {cont : Cont} (other : cont ≠ .interrupt) : (s.close cont).2 = .quiet := by
  simp only [close]
  split
  · exact resume_quiet other
  · exact closeSocket_quiet other

/-- Only the handler of an interrupt tells dpclusterd. -/
theorem step_quiet {s' : State} {e : Event} {o : Output} (h : s.step e = some (s', o))
    (notInterrupt : e ≠ .interrupt) (notClosed : e ≠ .socketClosed) : o = .quiet := by
  cases e with
  | interrupt => exact absurd rfl notInterrupt
  | socketClosed => exact absurd rfl notClosed
  | changenode =>
      simp only [step] at h
      split at h
      · cases h
        rfl
      · have quiet : (s.closeSocket .changehost).2 = .quiet := closeSocket_quiet (by simp)
        rwa [Option.some.inj h] at quiet
  | close =>
      have quiet : (s.close .close).2 = .quiet := close_quiet (by simp)
      rwa [Option.some.inj h] at quiet
  | request fails =>
      cases h
      rfl
  | opened ok =>
      simp only [step] at h
      split at h
      · cases h
      · split at h
        · cases h
          rfl
        · split at h
          · cases h
            rfl
          · cases h
            rfl
  | yielded =>
      simp only [step] at h
      split at h
      · cases h
        rfl
      · cases h
  | breaks fd =>
      obtain ⟨_, h⟩ := Option.ite_none_right_eq_some.1 h
      cases h
      rfl
  | disconnects fd =>
      obtain ⟨_, h⟩ := Option.ite_none_right_eq_some.1 h
      cases h
      rfl

theorem waiting_of_handles {s' : State} {e : Event} {o : Output} (h : s.step e = some (s', o))
    (handles : e = .interrupt ∨ o = .reported) :
    0 < s.interrupts ∨ s.closing = some .interrupt := by
  by_cases taken : e = .interrupt
  · subst taken
    exact .inl (Option.ite_none_right_eq_some.1 h).1
  · have told := handles.resolve_left taken
    subst told
    by_cases finished : e = .socketClosed
    · subst finished
      simp only [step] at h
      split at h
      · rename_i cont closing
        by_cases same : cont = .interrupt
        · exact .inr (same ▸ closing)
        · have quiet := resume_quiet (s := { s with closing := none }.signal) same
          rw [Option.some.inj h] at quiet
          cases quiet
      · cases h
    · cases step_quiet h taken finished

/-- The connection of the latest successful changenode is not lost, and an
interrupt is in the mailbox or will be there when the socket is closed. -/
def Disturbed (s : State) : Prop :=
  ∃ fd, s.established = some fd ∧ s.lost fd = false ∧
    (0 < s.interrupts ∨ s.service = true ∧ s.sock = none)

/-- All who waited for a connection that is not lost get it. -/
theorem wake_connected (tasks : List Task) {fd : Nat} (sock : s.sock = some fd)
    (lost : s.lost fd = false) (disconnected : s.disconnected fd = false) :
    (wake tasks s).interrupts = s.interrupts ∧ (wake tasks s).lost = s.lost ∧
      (.changenode ∈ tasks ∨ s.established = some fd → (wake tasks s).established = some fd) := by
  induction tasks generalizing s with
  | nil => exact ⟨rfl, rfl, fun h => h.resolve_left (by simp)⟩
  | cons task tasks ih =>
      have next : wake (task :: tasks) s = wake tasks (s.proceed task) := by
        simp [wake, checkConnection, sock, disconnected]
      rw [next]
      cases task with
      | changenode =>
          have rest := ih (s := s.proceed .changenode) sock lost disconnected
          exact ⟨rest.1, rest.2.1, fun _ => rest.2.2 (.inr sock)⟩
      | request fails =>
          have same : s.proceed (.request fails) = s := by simp [proceed, sock, lost]
          rw [same]
          have rest := ih sock lost disconnected
          refine ⟨rest.1, rest.2.1, ?_⟩
          simpa using rest.2.2

theorem Tidy.not_disconnected (tidy : s.Tidy) {fd : Nat} (lost : s.lost fd = false) :
    s.disconnected fd = false := by
  rw [Bool.eq_false_iff]
  intro still
  rw [tidy.disconnected fd still] at lost
  cases lost

theorem connect_disturbed {fd : Nat} (tidy : s.Tidy) (sock : s.sock = some fd)
    (lost : s.lost fd = false) (waiting : s.interrupts ≠ 0) : s.connect.Disturbed := by
  have next : s.connect = { s with closed := false }.proceed .changenode := by
    simp [connect, blockConnect, checkConnection, sock, tidy.not_disconnected lost]
  rw [next]
  exact ⟨fd, sock, lost, .inl (Nat.pos_of_ne_zero waiting)⟩

theorem store_disturbed {fd : Nat} (mem : .changenode ∈ s.connecting) (lost : s.lost fd = false)
    (disconnected : s.disconnected fd = false) (waiting : s.interrupts ≠ 0) :
    (s.store fd).Disturbed := by
  obtain ⟨interrupts, kept, established⟩ :=
    wake_connected s.connecting (s := { s with sock := some fd, fd := none, connecting := [] }) rfl
      lost disconnected
  refine ⟨fd, established (.inl mem), ?_, .inl ?_⟩
  · change (wake s.connecting _).lost fd = false
    rw [kept]
    exact lost
  · change 0 < (wake s.connecting _).interrupts
    rw [interrupts]
    exact Nat.pos_of_ne_zero waiting

/-- A step that does not meet the condition. -/
theorem disturbed_of_not {s' : State} {e : Event} {o : Output} (tidy : s.Tidy)
    (fresh : s.lost s.nextFd = false) (disturbs : s.undisturbed e = false)
    (h : s.step e = some (s', o)) : s'.Disturbed := by
  cases e with
  | changenode =>
      simp only [undisturbed, decide_eq_false_iff_not] at disturbs
      simp only [step] at h
      split at h
      · rename_i closed
        cases h
        simp only [closed, Bool.true_eq_false, false_implies, true_and, forall_const,
          not_forall] at disturbs
        obtain ⟨fd, sock, lost, waiting⟩ := disturbs
        exact connect_disturbed tidy sock lost waiting
      · rename_i isOpen
        simp only [isOpen, Bool.false_eq_true, false_implies, and_true, forall_const,
          not_forall] at disturbs
        obtain ⟨serving, kept⟩ := disturbs
        obtain ⟨fd, established, here⟩ := tidy.serving serving
        have lost : s.lost fd = false :=
          Bool.eq_false_iff.2 fun lost => kept ⟨fd, established, lost⟩
        have sock := here.resolve_right (by simp [lost])
        simp only [closeSocket, sock] at h
        cases h
        exact ⟨fd, established, lost, .inr ⟨serving, rfl⟩⟩
  | opened ok =>
      simp only [undisturbed, decide_eq_false_iff_not, not_forall] at disturbs
      obtain ⟨succeeds, closing, mem, waiting⟩ := disturbs
      simp only [step, succeeds, closing] at h
      split at h
      · cases h
      · cases h
        exact store_disturbed mem fresh (tidy.not_disconnected fresh) waiting
  | yielded =>
      simp only [undisturbed, decide_eq_false_iff_not, not_forall] at disturbs
      obtain ⟨fd, here, mem, lost, waiting⟩ := disturbs
      simp only [step] at h
      split at h
      · rename_i fd' here' closing
        cases h
        cases here.symm.trans here'
        exact store_disturbed mem lost (tidy.not_disconnected lost) waiting
      · cases h
  | _ => cases disturbs

end State

theorem tidy_of_reach {trace : List (Event × Output)} {s : State}
    (reach : (machine.guard State.undisturbed).Reach trace s) : s.Tidy := by
  apply Machine.Reach.invariant (fun _ s => s.Tidy) ?_ ?_ reach
  · exact
      { serving := fun serving => by cases serving
        pending := fun waiting => by simp [Machine.guard, machine] at waiting
        closing := fun _ => rfl
        connecting := fun _ => rfl
        opened := fun opened => absurd rfl opened
        disconnected := fun fd disconnected => by cases disconnected }
  · intro trace s e s' o tidy step
    obtain ⟨ok, step⟩ := Machine.guard_step step
    exact tidy.step ok step

/-- In every run that meets the condition an interrupt is handled, and dpclusterd
told about it, only when the connection of the latest successful changenode is
lost. -/
theorem lost_of_interrupt {trace : List (Event × Output)} {s s' : State} {e : Event} {o : Output}
    (reach : (machine.guard State.undisturbed).Reach trace s)
    (step : machine.step s e = some (s', o)) (handles : e = .interrupt ∨ o = .reported) :
    s.Lost :=
  (tidy_of_reach reach).pending (State.waiting_of_handles step handles)

/-- A connection that breaks is reported. -/
theorem lost_of_interrupt_run :
    ∃ trace s s', (machine.guard State.undisturbed).Reach trace s ∧
      machine.step s .interrupt = some (s', .reported) ∧ s.Lost := by
  have run : ∃ s s', (machine.guard State.undisturbed).exec machine.init
      [.changenode, .opened true, .breaks 0, .disconnects 0] = some s ∧
      machine.step s .interrupt = some (s', .reported) := ⟨_, _, rfl, rfl⟩
  obtain ⟨s, s', run, step⟩ := run
  obtain ⟨trace, reach⟩ := Machine.Reach.init.exec run
  exact ⟨trace, s, s', reach, step, lost_of_interrupt reach step (.inl rfl)⟩

/-- A changenode closes a connection that works. A request connects while the
socket is being closed, the changenode takes its connection, and the interrupt
sent for the old socket closes the new one. -/
theorem changenode_closes_own_connection :
    ∃ trace s s' s'', machine.Reach trace s ∧
      s.sock = some 1 ∧ s.established = some 1 ∧ ¬ s.Lost ∧
      machine.step s .interrupt = some (s', .quiet) ∧ s'.sock = none ∧
      machine.step s' .socketClosed = some (s'', .reported) := by
  have run : ∃ s s' s'', machine.exec machine.init
      [.changenode, .opened true, .changenode, .request false, .opened true, .socketClosed,
        .yielded] = some s ∧
      s.sock = some 1 ∧ s.established = some 1 ∧ ¬ s.Lost ∧
      machine.step s .interrupt = some (s', .quiet) ∧ s'.sock = none ∧
      machine.step s' .socketClosed = some (s'', .reported) :=
    ⟨_, _, _, rfl, rfl, rfl, by decide, rfl, rfl, rfl⟩
  obtain ⟨s, s', s'', run, closes⟩ := run
  obtain ⟨trace, reach⟩ := Machine.Reach.init.exec run
  exact ⟨trace, s, s', s'', reach, closes⟩

end Qiuqiu.Cluster.Sender
