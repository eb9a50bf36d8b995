import Mathlib.Data.List.AList
import Mathlib.Logic.Function.Basic
import Qiuqiu.Base.Machine

/-!
The player table of service/agentmgr/agentmgr.lua under `reqlogin` and
`reqkick`. Every `skynet.call` suspends the request; the status of the record
is all that keeps other requests of the player away. What a player goes
through is one of few phases, and each step of a request moves one player from
one phase to the next.
-/
namespace Qiuqiu.Agentmgr
variable {Pid : Type} [DecidableEq Pid]

inductive Status where
  | login
  | game
  | logout
  deriving DecidableEq

structure Mgrplayer (Pid : Type) where
  playerid : Pid
  node : Nat
  agent : Option Nat
  status : Status
  gate : Nat

/-- A request that waits in a `skynet.call`: for the old agent or the old gate
in `reqlogin`, for the new agent, or for the agent in `reqkick`. The records
are references. -/
inductive Coroutine (Pid : Type) where
  | idle
  | replacing (playerid : Pid) (node gate mplayer : Nat) (pagent : Option Nat)
  | leaving (playerid : Pid) (node gate mplayer : Nat)
  | creating (playerid : Pid) (player : Nat)
  | kicking (playerid : Pid) (mplayer : Nat) (pagent : Option Nat)

/-- A player table: references to records, each the record of its player, and
no other records. -/
structure Table (Pid : Type) [DecidableEq Pid] where
  players : AList fun _ : Pid => Nat
  heap : Nat → Mgrplayer Pid
  nextRef : Nat
  owned : ∀ playerid ref, players.lookup playerid = some ref →
    (heap ref).playerid = playerid ∧ ref < nextRef
  current : ∀ ref, ref < nextRef → players.lookup (heap ref).playerid = some ref

structure State (Pid : Type) [DecidableEq Pid] where
  players : AList fun _ : Pid => Nat
  heap : Nat → Mgrplayer Pid
  nextRef : Nat
  coroutines : Nat → Coroutine Pid
  /-- Not in the source: the agents created and not sent exit. -/
  live : Pid → List Nat
  /-- Not in the source: the agent created last. -/
  created : Pid → Option Nat

inductive Event (Pid : Type) where
  | reqlogin (c : Nat) (playerid : Pid) (node gate : Nat)
  | reqkick (c : Nat) (playerid : Pid)
  /-- The call returns; `agent` is what newservice returns, nothing when nodemgr answers a
  newservice that raised. -/
  | replied (c : Nat) (agent : Option Nat)
  | raised (c : Nat)

def Event.coroutine : Event Pid → Nat
  | .reqlogin c _ _ _ => c
  | .reqkick c _ => c
  | .replied c _ => c
  | .raised c => c

inductive Output (Pid : Type) where
  | calls
  | returns (ok : Bool) (agent : Option Nat)
  | raised (playerid : Pid)

namespace State
variable (s : State Pid)

def setCoroutine (c : Nat) (co : Coroutine Pid) : State Pid :=
  { s with coroutines := Function.update s.coroutines c co }

def setRecord (ref : Nat) (player : Mgrplayer Pid) : State Pid :=
  { s with heap := Function.update s.heap ref player }

def setStatus (ref : Nat) (status : Status) : State Pid :=
  s.setRecord ref { s.heap ref with status := status }

/-- `skynet.send(pnode, pagent, "exit")`. -/
def exit (playerid : Pid) (pagent : Option Nat) : State Pid :=
  { s with
    live := Function.update s.live playerid ((s.live playerid).diff pagent.toList) }

/-- `reqlogin` from `mgrplayer()` to the call of newservice. -/
def online (c : Nat) (playerid : Pid) (node gate : Nat) : State Pid :=
  { s with
    players := s.players.insert playerid s.nextRef
    heap := Function.update s.heap s.nextRef ⟨playerid, node, none, .login, gate⟩
    nextRef := s.nextRef + 1 }.setCoroutine c (.creating playerid s.nextRef)

def reqlogin (c : Nat) (playerid : Pid) (node gate : Nat) : State Pid × Output Pid :=
  match s.players.lookup playerid with
  | some ref =>
      match (s.heap ref).status with
      | .logout => (s, .returns false none)
      | .login => (s, .returns false none)
      | .game =>
          ((s.setStatus ref .logout).setCoroutine c
            (.replacing playerid node gate ref (s.heap ref).agent), .calls)
  | none => (s.online c playerid node gate, .calls)

def reqkick (c : Nat) (playerid : Pid) : State Pid × Output Pid :=
  match s.players.lookup playerid with
  | some ref =>
      if (s.heap ref).status = .game then
        ((s.setStatus ref .logout).setCoroutine c
          (.kicking playerid ref (s.heap ref).agent), .calls)
      else (s, .returns false none)
  | none => (s, .returns false none)

/-- `reqlogin` behind newservice, whatever came back. -/
def enter (c : Nat) (playerid : Pid) (ref : Nat) (agent : Option Nat) : State Pid :=
  { s with
    heap := Function.update s.heap ref { s.heap ref with agent := agent, status := .game }
    live := Function.update s.live playerid (s.live playerid ++ agent.toList)
    created := Function.update s.created playerid (agent.or (s.created playerid))
  }.setCoroutine c .idle

/-- `reqkick` behind the call. -/
def remove (c : Nat) (playerid : Pid) (pagent : Option Nat) : State Pid :=
  { s.exit playerid pagent with players := s.players.erase playerid }.setCoroutine c .idle

def step : Event Pid → Option (State Pid × Output Pid)
  | .reqlogin c playerid node gate =>
      match s.coroutines c with
      | .idle => some (s.reqlogin c playerid node gate)
      | _ => none
  | .reqkick c playerid =>
      match s.coroutines c with
      | .idle => some (s.reqkick c playerid)
      | _ => none
  | .replied c agent =>
      match s.coroutines c with
      | .replacing playerid node gate mplayer pagent =>
          some ((s.exit playerid pagent).setCoroutine c
            (.leaving playerid node gate mplayer), .calls)
      | .leaving playerid node gate _ => some (s.online c playerid node gate, .calls)
      | .creating playerid player =>
          some (s.enter c playerid player agent, .returns true agent)
      | .kicking playerid _ pagent => some (s.remove c playerid pagent, .returns true none)
      | .idle => none
  | .raised c =>
      match s.coroutines c with
      | .replacing playerid _ _ _ _ => some (s.setCoroutine c .idle, .raised playerid)
      | .leaving playerid _ _ _ => some (s.setCoroutine c .idle, .raised playerid)
      | .creating playerid _ => some (s.setCoroutine c .idle, .raised playerid)
      | .kicking playerid _ _ => some (s.setCoroutine c .idle, .raised playerid)
      | .idle => none

end State

def Table.empty [Inhabited Pid] : Table Pid where
  players := ∅
  heap := fun _ => ⟨default, 0, none, .logout, 0⟩
  nextRef := 0
  owned := fun playerid ref h => by simp at h
  current := fun ref h => absurd h (Nat.not_lt_zero ref)

/-- The service with a table and no request. -/
def Table.state (table : Table Pid) : State Pid where
  players := table.players
  heap := table.heap
  nextRef := table.nextRef
  coroutines := fun _ => .idle
  live := fun playerid =>
    match table.players.lookup playerid with
    | some ref => (table.heap ref).agent.toList
    | none => []
  created := fun playerid => (table.players.lookup playerid).bind fun ref => (table.heap ref).agent

def machine (table : Table Pid) : Machine (State Pid) (Event Pid) (Output Pid) where
  init := table.state
  step := State.step

/-- The player a coroutine works for. -/
def Coroutine.player : Coroutine Pid → Option Pid
  | .idle => none
  | .replacing playerid _ _ _ _ => some playerid
  | .leaving playerid _ _ _ => some playerid
  | .creating playerid _ => some playerid
  | .kicking playerid _ _ => some playerid

/-- A request in progress works on the record `ref`; `live` are the agents of
its player. -/
def Coroutine.Working (ref : Nat) (player : Mgrplayer Pid) (live : List Nat) :
    Coroutine Pid → Prop
  | .idle => False
  | .replacing _ _ _ mplayer pagent => mplayer = ref ∧ player.status = .logout ∧
      player.agent = pagent ∧ live = pagent.toList
  | .leaving _ _ _ mplayer => mplayer = ref ∧ player.status = .logout ∧ live = []
  | .creating _ player' => player' = ref ∧ player.status = .login ∧ live = []
  | .kicking _ mplayer pagent => mplayer = ref ∧ player.status = .logout ∧
      player.agent = pagent ∧ live = pagent.toList

omit [DecidableEq Pid] in
theorem Coroutine.Working.not_game {ref : Nat} {player : Mgrplayer Pid} {live : List Nat}
    {co : Coroutine Pid} (h : co.Working ref player live) : player.status ≠ .game := by
  cases co with
  | idle => exact h.elim
  | replacing _ _ _ _ _ => simp [h.2.1]
  | leaving _ _ _ _ => simp [h.2.1]
  | creating _ _ => simp [h.2.1]
  | kicking _ _ _ => simp [h.2.1]

omit [DecidableEq Pid] in
theorem Coroutine.Working.live_length {ref : Nat} {player : Mgrplayer Pid} {live : List Nat}
    {co : Coroutine Pid} (h : co.Working ref player live) : live.length ≤ 1 := by
  cases co with
  | idle => exact h.elim
  | replacing _ _ _ _ pagent =>
      rw [h.2.2.2]
      exact Option.length_toList_le
  | leaving _ _ _ _ => simp [h.2.2]
  | creating _ _ => simp [h.2.2]
  | kicking _ _ pagent =>
      rw [h.2.2.2]
      exact Option.length_toList_le

namespace State
variable {s s' : State Pid}

/-- No request of the player is in progress. -/
def Quiet (s : State Pid) (playerid : Pid) : Prop :=
  ∀ c, (s.coroutines c).player ≠ some playerid

/-- The request of `c` is the only one of the player. -/
def Alone (s : State Pid) (playerid : Pid) (c : Nat) : Prop :=
  ∀ c', (s.coroutines c').player = some playerid → c' = c

/-- The phases of a player; `raised` tells whether a call of a request failed. -/
inductive Phase (s : State Pid) (playerid : Pid) : Bool → Prop
  | absent : s.players.lookup playerid = none → s.Quiet playerid → s.live playerid = [] →
      Phase s playerid false
  | game (ref) : s.players.lookup playerid = some ref → (s.heap ref).status = .game →
      s.Quiet playerid → s.live playerid = (s.heap ref).agent.toList →
      (∀ agent, (s.heap ref).agent = some agent → s.created playerid = some agent) →
      Phase s playerid false
  | busy (ref c) : s.players.lookup playerid = some ref →
      (s.coroutines c).player = some playerid → s.Alone playerid c →
      (s.coroutines c).Working ref (s.heap ref) (s.live playerid) → Phase s playerid false
  | stuck (ref) : s.players.lookup playerid = some ref → (s.heap ref).status ≠ .game →
      s.Quiet playerid → (s.live playerid).length ≤ 1 → Phase s playerid true

/-- The invariant of the table. -/
structure Sound (s : State Pid) (raised : Pid → Bool) : Prop where
  owned : ∀ playerid ref, s.players.lookup playerid = some ref →
    (s.heap ref).playerid = playerid ∧ ref < s.nextRef
  current : ∀ ref, ref < s.nextRef → (s.heap ref).status = .game →
    s.players.lookup (s.heap ref).playerid = some ref
  phase : ∀ playerid, s.Phase playerid (raised playerid)

/-- A step concerns one player. -/
structure Others (s s' : State Pid) (playerid : Pid) : Prop where
  players : ∀ other, other ≠ playerid → s'.players.lookup other = s.players.lookup other
  heap : ∀ ref, ref < s.nextRef → (s.heap ref).playerid ≠ playerid → s'.heap ref = s.heap ref
  coroutines : ∀ c other, other ≠ playerid →
    ((s'.coroutines c).player = some other ∨ (s.coroutines c).player = some other) →
    s'.coroutines c = s.coroutines c
  live : ∀ other, other ≠ playerid → s'.live other = s.live other
  created : ∀ other, other ≠ playerid → s'.created other = s.created other

theorem Others.quiet {playerid other : Pid} (others : s.Others s' playerid)
    (ne : other ≠ playerid) (quiet : s.Quiet other) : s'.Quiet other := by
  intro c busy
  rw [others.coroutines c other ne (.inl busy)] at busy
  exact quiet c busy

theorem Others.alone {playerid other : Pid} {c : Nat} (others : s.Others s' playerid)
    (ne : other ≠ playerid) (alone : s.Alone other c) : s'.Alone other c := by
  intro c' busy
  rw [others.coroutines c' other ne (.inl busy)] at busy
  exact alone c' busy

theorem Others.phase {playerid other : Pid} {raised raised' : Pid → Bool}
    (others : s.Others s' playerid)
    (sound : s.Sound raised) (ne : other ≠ playerid) (same : raised' other = raised other) :
    s'.Phase other (raised' other) := by
  have heap : ∀ ref, s.players.lookup other = some ref → s'.heap ref = s.heap ref := by
    intro ref found
    obtain ⟨owner, old⟩ := sound.owned other ref found
    exact others.heap ref old (by rwa [owner])
  have players := others.players other ne
  have live := others.live other ne
  have created := others.created other ne
  have phase := sound.phase other
  rw [same]
  generalize raised other = r at phase
  cases phase with
  | absent none quiet empty =>
      exact .absent (by rw [players, none]) (others.quiet ne quiet) (by rw [live, empty])
  | game ref found status quiet agents last =>
      rw [← heap ref found] at status agents last
      exact .game ref (by rw [players, found]) status (others.quiet ne quiet) (by rw [live, agents])
        (fun agent carried => by rw [created, last agent carried])
  | busy ref c found player alone working =>
      have co := others.coroutines c other ne (.inr player)
      exact .busy ref c (by rw [players, found]) (by rw [co, player]) (others.alone ne alone)
        (by rwa [co, heap ref found, live])
  | stuck ref found status quiet agents =>
      rw [← heap ref found] at status
      exact .stuck ref (by rw [players, found]) status (others.quiet ne quiet) (by rwa [live])

/-- A step of the coroutine `c`, which works for the player or for nobody. -/
theorem others_of {playerid : Pid} {c : Nat} {co : Coroutine Pid}
    (coroutines : s'.coroutines = Function.update s.coroutines c co)
    (before : ∀ other, (s.coroutines c).player = some other → other = playerid)
    (after : ∀ other, co.player = some other → other = playerid)
    (players : ∀ other, other ≠ playerid → s'.players.lookup other = s.players.lookup other)
    (heap : ∀ ref, ref < s.nextRef → (s.heap ref).playerid ≠ playerid → s'.heap ref = s.heap ref)
    (live : ∀ other, other ≠ playerid → s'.live other = s.live other)
    (created : ∀ other, other ≠ playerid → s'.created other = s.created other) :
    s.Others s' playerid where
  players := players
  heap := heap
  coroutines := by
    intro c' other ne busy
    rw [coroutines] at busy ⊢
    by_cases same : c' = c
    · subst same
      rw [Function.update_self] at busy
      cases busy with
      | inl now => exact absurd (after other now) ne
      | inr old => exact absurd (before other old) ne
    · rw [Function.update_of_ne same]
  live := live
  created := created

theorem alone_of {playerid : Pid} {c : Nat} {co : Coroutine Pid}
    (coroutines : s'.coroutines = Function.update s.coroutines c co)
    (alone : s.Alone playerid c) : s'.Alone playerid c := by
  intro c' busy
  by_contra ne
  rw [coroutines, Function.update_of_ne ne] at busy
  exact ne (alone c' busy)

theorem quiet_of {playerid : Pid} {c : Nat} {co : Coroutine Pid}
    (coroutines : s'.coroutines = Function.update s.coroutines c co)
    (ended : co.player ≠ some playerid) (alone : s.Alone playerid c) : s'.Quiet playerid := by
  intro c' busy
  have same := alone_of coroutines alone c' busy
  rw [same, coroutines, Function.update_self] at busy
  exact ended busy

theorem Quiet.alone {playerid : Pid} (quiet : s.Quiet playerid) (c : Nat) :
    s.Alone playerid c :=
  fun c' busy => absurd busy (quiet c')

theorem Sound.of_others {playerid : Pid} {raised raised' : Pid → Bool} (sound : s.Sound raised)
    (others : s.Others s' playerid)
    (same : ∀ other, other ≠ playerid → raised' other = raised other)
    (owned : ∀ playerid ref, s'.players.lookup playerid = some ref →
      (s'.heap ref).playerid = playerid ∧ ref < s'.nextRef)
    (current : ∀ ref, ref < s'.nextRef → (s'.heap ref).status = .game →
      s'.players.lookup (s'.heap ref).playerid = some ref)
    (phase : s'.Phase playerid (raised' playerid)) : s'.Sound raised' where
  owned := owned
  current := current
  phase := by
    intro other
    by_cases eq : other = playerid
    · rwa [eq]
    · exact others.phase sound eq (same other eq)

theorem Phase.of_game {playerid : Pid} {raised : Bool} {ref : Nat} (phase : s.Phase playerid raised)
    (found : s.players.lookup playerid = some ref) (status : (s.heap ref).status = .game) :
    raised = false ∧ s.Quiet playerid ∧ s.live playerid = (s.heap ref).agent.toList ∧
      ∀ agent, (s.heap ref).agent = some agent → s.created playerid = some agent := by
  cases phase with
  | absent none _ _ => simp [found] at none
  | game ref' found' _ quiet agents last =>
      cases found.symm.trans found'
      exact ⟨rfl, quiet, agents, last⟩
  | busy ref' _ found' _ _ working =>
      cases found.symm.trans found'
      exact absurd status working.not_game
  | stuck ref' found' other _ _ =>
      cases found.symm.trans found'
      exact absurd status other

theorem Phase.of_absent {playerid : Pid} {raised : Bool} (phase : s.Phase playerid raised)
    (none : s.players.lookup playerid = none) :
    raised = false ∧ s.Quiet playerid ∧ s.live playerid = [] := by
  cases phase with
  | absent _ quiet empty => exact ⟨rfl, quiet, empty⟩
  | game _ found => simp [none] at found
  | busy _ _ found => simp [none] at found
  | stuck _ found => simp [none] at found

/-- The phase of a player with a request in progress. -/
theorem Phase.of_busy {playerid : Pid} {raised : Bool} {c : Nat} (phase : s.Phase playerid raised)
    (player : (s.coroutines c).player = some playerid) :
    raised = false ∧ s.Alone playerid c ∧ ∃ ref, s.players.lookup playerid = some ref ∧
      (s.coroutines c).Working ref (s.heap ref) (s.live playerid) := by
  cases phase with
  | absent _ quiet _ => exact absurd player (quiet c)
  | game _ _ _ quiet _ _ => exact absurd player (quiet c)
  | busy ref c' found _ alone working =>
      cases alone c player
      exact ⟨rfl, alone, ref, found, working⟩
  | stuck _ _ _ quiet _ => exact absurd player (quiet c)

theorem setStatus_heap_of_ne {ref ref' : Nat} (ne : ref' ≠ ref) (status : Status) :
    (s.setStatus ref status).heap ref' = s.heap ref' :=
  Function.update_of_ne ne _ _

theorem setStatus_heap_self (s : State Pid) (ref : Nat) (status : Status) :
    (s.setStatus ref status).heap ref = { s.heap ref with status := status } :=
  Function.update_self _ _ _

theorem setStatus_playerid (s : State Pid) (ref : Nat) (status : Status) (ref' : Nat) :
    ((s.setStatus ref status).heap ref').playerid = (s.heap ref').playerid := by
  by_cases same : ref' = ref
  · rw [same, setStatus_heap_self]
  · rw [setStatus_heap_of_ne same]

/-- `reqlogin` and `reqkick` take a player out of the game. -/
theorem Sound.takes {raised : Pid → Bool} {playerid : Pid} {ref c : Nat} {co : Coroutine Pid}
    (sound : s.Sound raised) (idle : s.coroutines c = .idle)
    (found : s.players.lookup playerid = some ref) (status : (s.heap ref).status = .game)
    (player : co.player = some playerid)
    (working : co.Working ref { s.heap ref with status := .logout } (s.heap ref).agent.toList) :
    ((s.setStatus ref .logout).setCoroutine c co).Sound raised := by
  obtain ⟨owner, old⟩ := sound.owned playerid ref found
  obtain ⟨fine, quiet, agents, _⟩ := (sound.phase playerid).of_game found status
  have others : s.Others ((s.setStatus ref .logout).setCoroutine c co) playerid := by
    refine others_of rfl (by simp [idle, Coroutine.player]) ?_ (fun _ _ => rfl) ?_ (fun _ _ => rfl)
      (fun _ _ => rfl)
    · intro other here
      rw [player] at here
      exact (Option.some.inj here).symm
    · intro ref' _ foreign
      refine setStatus_heap_of_ne ?_ _
      rintro rfl
      exact foreign owner
  refine sound.of_others others (fun _ _ => rfl) ?_ ?_ ?_
  · intro playerid' ref' found'
    obtain ⟨owner', old'⟩ := sound.owned playerid' ref' found'
    exact ⟨(setStatus_playerid s ref .logout ref').trans owner', old'⟩
  · intro ref' old' game
    change ((s.setStatus ref .logout).heap ref').status = .game at game
    change s.players.lookup ((s.setStatus ref .logout).heap ref').playerid = some ref'
    rw [setStatus_playerid]
    apply sound.current ref' old'
    by_cases same : ref' = ref
    · rwa [same]
    · rwa [setStatus_heap_of_ne same] at game
  · have now : ((s.setStatus ref .logout).setCoroutine c co).coroutines c = co :=
      Function.update_self _ _ _
    rw [fine]
    refine .busy ref c found (by rw [now, player]) (alone_of rfl (quiet.alone c)) ?_
    rw [now]
    change co.Working ref ((s.setStatus ref .logout).heap ref) (s.live playerid)
    rwa [setStatus_heap_self, agents]

theorem Sound.reqlogin {raised : Pid → Bool} {playerid : Pid} {c node gate : Nat}
    (sound : s.Sound raised) (idle : s.coroutines c = .idle)
    (online : s.players.lookup playerid = none → (s.online c playerid node gate).Sound raised) :
    (s.reqlogin c playerid node gate).1.Sound raised := by
  simp only [State.reqlogin]
  split
  · rename_i ref found
    split
    · exact sound
    · exact sound
    · rename_i status
      exact sound.takes idle found status rfl ⟨rfl, rfl, rfl, rfl⟩
  · rename_i none
    exact online none

theorem Sound.reqkick {raised : Pid → Bool} {playerid : Pid} {c : Nat}
    (sound : s.Sound raised) (idle : s.coroutines c = .idle) :
    (s.reqkick c playerid).1.Sound raised := by
  simp only [State.reqkick]
  split
  · rename_i ref found
    split
    · rename_i status
      exact sound.takes idle found status rfl ⟨rfl, rfl, rfl, rfl⟩
    · exact sound
  · exact sound

/-- A new record takes the place of an old one that is not in the game. -/
theorem Sound.online {raised : Pid → Bool} {playerid : Pid} {c node gate : Nat}
    (sound : s.Sound raised) (alone : s.Alone playerid c)
    (own : ∀ other, (s.coroutines c).player = some other → other = playerid)
    (notGame : ∀ ref, s.players.lookup playerid = some ref → (s.heap ref).status ≠ .game)
    (fine : raised playerid = false) (empty : s.live playerid = []) :
    (s.online c playerid node gate).Sound raised := by
  have others : s.Others (s.online c playerid node gate) playerid := by
    refine others_of rfl own ?_ ?_ ?_ (fun _ _ => rfl) (fun _ _ => rfl)
    · intro other here
      exact (Option.some.inj here).symm
    · intro other ne
      exact AList.lookup_insert_ne ne
    · intro ref old _
      exact Function.update_of_ne (Nat.ne_of_lt old) _ _
  have heap : ∀ ref, ref < s.nextRef → (s.online c playerid node gate).heap ref = s.heap ref :=
    fun ref old => Function.update_of_ne (Nat.ne_of_lt old) _ _
  have fresh : (s.online c playerid node gate).heap s.nextRef =
      ⟨playerid, node, none, .login, gate⟩ :=
    Function.update_self _ _ _
  have here : (s.online c playerid node gate).players.lookup playerid = some s.nextRef :=
    AList.lookup_insert _
  refine sound.of_others others (fun _ _ => rfl) ?_ ?_ ?_
  · intro playerid' ref found
    by_cases same : playerid' = playerid
    · subst same
      rw [here] at found
      cases found
      exact ⟨by rw [fresh], Nat.lt_succ_self _⟩
    · rw [others.players playerid' same] at found
      obtain ⟨owner, old⟩ := sound.owned playerid' ref found
      rw [heap ref old]
      exact ⟨owner, Nat.lt_succ_of_lt old⟩
  · intro ref below game
    by_cases same : ref = s.nextRef
    · subst same
      rw [fresh] at game
      cases game
    · have old : ref < s.nextRef := Nat.lt_of_le_of_ne (Nat.le_of_lt_succ below) same
      rw [heap ref old] at game ⊢
      have found := sound.current ref old game
      rw [others.players _ ?_]
      · exact found
      · intro owner
        rw [owner] at found
        exact notGame ref found game
  · rw [fine]
    have now : (s.online c playerid node gate).coroutines c = .creating playerid s.nextRef :=
      Function.update_self _ _ _
    refine .busy s.nextRef c here (by rw [now]; rfl) (alone_of rfl alone) ?_
    rw [now, fresh]
    exact ⟨rfl, rfl, empty⟩

/-- A step of a request in progress that leaves the table alone. -/
theorem Sound.of_table {raised raised' : Pid → Bool} {playerid : Pid} {c : Nat}
    {co : Coroutine Pid} (sound : s.Sound raised)
    (player : (s.coroutines c).player = some playerid)
    (after : ∀ other, co.player = some other → other = playerid)
    (players : s'.players = s.players) (heap : s'.heap = s.heap) (nextRef : s'.nextRef = s.nextRef)
    (coroutines : s'.coroutines = Function.update s.coroutines c co)
    (live : ∀ other, other ≠ playerid → s'.live other = s.live other)
    (created : s'.created = s.created)
    (same : ∀ other, other ≠ playerid → raised' other = raised other)
    (phase : s'.Phase playerid (raised' playerid)) : s'.Sound raised' := by
  have others : s.Others s' playerid := by
    refine others_of coroutines ?_ after (fun _ _ => by rw [players]) (fun _ _ _ => by rw [heap])
      live (fun _ _ => by rw [created])
    intro other here
    rw [player] at here
    exact (Option.some.inj here).symm
  refine sound.of_others others same ?_ ?_ phase
  · rw [players, heap, nextRef]
    exact sound.owned
  · rw [players, heap, nextRef]
    exact sound.current

theorem Sound.leaves {raised : Pid → Bool} {playerid : Pid} {c node gate mplayer : Nat}
    {pagent : Option Nat} (sound : s.Sound raised)
    (co : s.coroutines c = .replacing playerid node gate mplayer pagent) :
    ((s.exit playerid pagent).setCoroutine c
      (.leaving playerid node gate mplayer)).Sound raised := by
  have player : (s.coroutines c).player = some playerid := by rw [co]; rfl
  obtain ⟨fine, alone, ref, found, working⟩ := (sound.phase playerid).of_busy player
  rw [co] at working
  obtain ⟨same, status, _, agents⟩ := working
  refine sound.of_table player ?_ rfl rfl rfl rfl ?_ rfl (fun _ _ => rfl) ?_
  · intro other here
    exact (Option.some.inj here).symm
  · intro other ne
    exact Function.update_of_ne ne _ _
  · have now : ((s.exit playerid pagent).setCoroutine c
        (.leaving playerid node gate mplayer)).coroutines c = .leaving playerid node gate mplayer :=
      Function.update_self _ _ _
    have gone : ((s.exit playerid pagent).setCoroutine c
        (.leaving playerid node gate mplayer)).live playerid = [] := by
      refine (Function.update_self _ _ _).trans ?_
      rw [agents]
      cases pagent <;> simp
    rw [fine]
    refine .busy ref c found (by rw [now]; rfl) (alone_of rfl alone) ?_
    rw [now, gone]
    exact ⟨same, status, rfl⟩

theorem Sound.raises {raised raised' : Pid → Bool} {playerid : Pid} {c : Nat}
    (sound : s.Sound raised) (player : (s.coroutines c).player = some playerid)
    (same : ∀ other, other ≠ playerid → raised' other = raised other)
    (failed : raised' playerid = true) : (s.setCoroutine c .idle).Sound raised' := by
  obtain ⟨_, alone, ref, found, working⟩ := (sound.phase playerid).of_busy player
  have nobody : ∀ other, (Coroutine.idle : Coroutine Pid).player = some other →
      other = playerid := by simp [Coroutine.player]
  refine sound.of_table player nobody rfl rfl rfl rfl (fun _ _ => rfl) rfl same ?_
  rw [failed]
  exact .stuck ref found working.not_game (quiet_of rfl (by simp [Coroutine.player]) alone)
    working.live_length

theorem Sound.enter {raised : Pid → Bool} {playerid : Pid} {c ref : Nat}
    {agent : Option Nat} (sound : s.Sound raised)
    (co : s.coroutines c = .creating playerid ref) :
    (s.enter c playerid ref agent).Sound raised := by
  have player : (s.coroutines c).player = some playerid := by rw [co]; rfl
  obtain ⟨fine, alone, ref', found, working⟩ := (sound.phase playerid).of_busy player
  rw [co] at working
  obtain ⟨rfl, status, agents⟩ := working
  obtain ⟨owner, old⟩ := sound.owned playerid ref found
  have here : (s.enter c playerid ref agent).heap ref =
      { s.heap ref with agent := agent, status := .game } := Function.update_self _ _ _
  have there : ∀ ref', ref' ≠ ref → (s.enter c playerid ref agent).heap ref' = s.heap ref' :=
    fun ref' ne => Function.update_of_ne ne _ _
  have keeps : ∀ ref', ((s.enter c playerid ref agent).heap ref').playerid =
      (s.heap ref').playerid := by
    intro ref'
    by_cases same : ref' = ref
    · rw [same, here]
    · rw [there ref' same]
  have others : s.Others (s.enter c playerid ref agent) playerid := by
    refine others_of rfl ?_ (by simp [Coroutine.player]) (fun _ _ => rfl) ?_
      (fun other ne => Function.update_of_ne ne _ _) (fun other ne => Function.update_of_ne ne _ _)
    · intro other busy
      rw [player] at busy
      exact (Option.some.inj busy).symm
    · intro ref' _ foreign
      refine there ref' ?_
      rintro rfl
      exact foreign owner
  refine sound.of_others others (fun _ _ => rfl) ?_ ?_ ?_
  · intro playerid' ref' found'
    rw [keeps]
    exact sound.owned playerid' ref' found'
  · intro ref' old' game
    rw [keeps]
    change s.players.lookup (s.heap ref').playerid = some ref'
    by_cases same : ref' = ref
    · rw [same, owner, found]
    · rw [there ref' same] at game
      exact sound.current ref' old' game
  · rw [fine]
    refine .game ref found (by rw [here]) (quiet_of rfl (by simp [Coroutine.player]) alone) ?_ ?_
    · refine (Function.update_self _ _ _).trans ?_
      rw [agents, here]
      rfl
    · intro last carried
      rw [here] at carried
      refine (Function.update_self _ _ _).trans ?_
      change agent = some last at carried
      rw [carried]
      rfl

theorem Sound.remove {raised : Pid → Bool} {playerid : Pid} {c mplayer : Nat}
    {pagent : Option Nat} (sound : s.Sound raised)
    (co : s.coroutines c = .kicking playerid mplayer pagent) :
    (s.remove c playerid pagent).Sound raised := by
  have player : (s.coroutines c).player = some playerid := by rw [co]; rfl
  obtain ⟨fine, alone, ref, found, working⟩ := (sound.phase playerid).of_busy player
  rw [co] at working
  obtain ⟨_, status, _, agents⟩ := working
  have here : (s.remove c playerid pagent).players.lookup playerid = none :=
    AList.lookup_erase _ _
  have there : ∀ other, other ≠ playerid →
      (s.remove c playerid pagent).players.lookup other = s.players.lookup other :=
    fun other ne => AList.lookup_erase_ne ne
  have others : s.Others (s.remove c playerid pagent) playerid := by
    refine others_of rfl ?_ (by simp [Coroutine.player]) there (fun _ _ _ => rfl)
      (fun other ne => Function.update_of_ne ne _ _) (fun _ _ => rfl)
    intro other busy
    rw [player] at busy
    exact (Option.some.inj busy).symm
  refine sound.of_others others (fun _ _ => rfl) ?_ ?_ ?_
  · intro playerid' ref' found'
    by_cases same : playerid' = playerid
    · rw [same, here] at found'
      cases found'
    · rw [there playerid' same] at found'
      exact sound.owned playerid' ref' found'
  · intro ref' old' game
    have found' := sound.current ref' old' game
    refine (there _ ?_).trans found'
    intro owner
    change (s.heap ref').playerid = playerid at owner
    rw [owner, found] at found'
    cases found'
    change (s.heap ref).status = .game at game
    rw [status] at game
    cases game
  · rw [fine]
    refine .absent here (quiet_of rfl (by simp [Coroutine.player]) alone) ?_
    refine (Function.update_self _ _ _).trans ?_
    rw [agents]
    cases pagent <;> simp

theorem Sound.replied {raised : Pid → Bool} {c : Nat} {agent : Option Nat} {o : Output Pid}
    (sound : s.Sound raised) (step : s.step (.replied c agent) = some (s', o)) :
    s'.Sound raised := by
  simp only [State.step] at step
  split at step
  · rename_i playerid node gate mplayer pagent co
    cases step
    exact sound.leaves co
  · rename_i playerid node gate mplayer co
    cases step
    have player : (s.coroutines c).player = some playerid := by rw [co]; rfl
    obtain ⟨fine, alone, ref, found, working⟩ := (sound.phase playerid).of_busy player
    have notGame := working.not_game
    rw [co] at working
    refine sound.online alone ?_ ?_ fine working.2.2
    · intro other busy
      rw [player] at busy
      exact (Option.some.inj busy).symm
    · intro ref' found'
      cases found.symm.trans found'
      exact notGame
  · rename_i playerid player co
    cases step
    exact sound.enter co
  · rename_i playerid mplayer pagent co
    cases step
    exact sound.remove co
  · cases step

theorem step_reqlogin {c : Nat} {playerid : Pid} {node gate : Nat} {o : Output Pid}
    (step : s.step (.reqlogin c playerid node gate) = some (s', o)) :
    s.coroutines c = .idle ∧ (s', o) = s.reqlogin c playerid node gate := by
  simp only [State.step] at step
  split at step
  · exact ⟨by assumption, (Option.some.inj step).symm⟩
  · cases step

theorem step_reqkick {c : Nat} {playerid : Pid} {o : Output Pid}
    (step : s.step (.reqkick c playerid) = some (s', o)) :
    s.coroutines c = .idle ∧ (s', o) = s.reqkick c playerid := by
  simp only [State.step] at step
  split at step
  · exact ⟨by assumption, (Option.some.inj step).symm⟩
  · cases step

/-- A failed call ends the request and tells its player. -/
theorem step_raised {c : Nat} {o : Output Pid} (step : s.step (.raised c) = some (s', o)) :
    ∃ playerid, (s.coroutines c).player = some playerid ∧ o = .raised playerid ∧
      s' = s.setCoroutine c .idle := by
  simp only [State.step] at step
  split at step
  all_goals cases step
  all_goals
    rename_i co
    exact ⟨_, by rw [co]; rfl, rfl, rfl⟩

end State

def Output.failed (playerid : Pid) : Output Pid → Bool
  | .raised playerid' => playerid' = playerid
  | _ => false

namespace State
variable {s s' : State Pid}

theorem reqlogin_failed (s : State Pid) (c : Nat) (playerid : Pid) (node gate : Nat) (other : Pid) :
    (s.reqlogin c playerid node gate).2.failed other = false := by
  simp only [State.reqlogin]
  split
  · split <;> rfl
  · rfl

theorem reqkick_failed (s : State Pid) (c : Nat) (playerid other : Pid) :
    (s.reqkick c playerid).2.failed other = false := by
  simp only [State.reqkick]
  split
  · split <;> rfl
  · rfl

theorem replied_failed {c : Nat} {agent : Option Nat} {o : Output Pid}
    (step : s.step (.replied c agent) = some (s', o)) (other : Pid) : o.failed other = false := by
  simp only [State.step] at step
  split at step <;> cases step <;> rfl

theorem reqlogin_coroutines_of_ne (s : State Pid) {c c' : Nat} (ne : c' ≠ c) (playerid : Pid)
    (node gate : Nat) :
    (s.reqlogin c playerid node gate).1.coroutines c' = s.coroutines c' := by
  simp only [State.reqlogin]
  split
  · split
    · rfl
    · rfl
    · exact Function.update_of_ne ne _ _
  · exact Function.update_of_ne ne _ _

theorem reqkick_coroutines_of_ne (s : State Pid) {c c' : Nat} (ne : c' ≠ c) (playerid : Pid) :
    (s.reqkick c playerid).1.coroutines c' = s.coroutines c' := by
  simp only [State.reqkick]
  split
  · split
    · exact Function.update_of_ne ne _ _
    · rfl
  · rfl

theorem step_coroutines_of_ne {e : Event Pid} {o : Output Pid} {c : Nat}
    (step : s.step e = some (s', o)) (foreign : e.coroutine ≠ c) :
    s'.coroutines c = s.coroutines c := by
  cases e with
  | reqlogin c' playerid node gate =>
      obtain ⟨_, answer⟩ := step_reqlogin step
      change c' ≠ c at foreign
      have same := reqlogin_coroutines_of_ne s foreign.symm playerid node gate
      rwa [← answer] at same
  | reqkick c' playerid =>
      obtain ⟨_, answer⟩ := step_reqkick step
      change c' ≠ c at foreign
      have same := reqkick_coroutines_of_ne s foreign.symm playerid
      rwa [← answer] at same
  | replied c' agent =>
      simp only [State.step] at step
      split at step
      all_goals cases step
      all_goals exact Function.update_of_ne (Ne.symm foreign) _ _
  | raised c' =>
      obtain ⟨_, _, _, rfl⟩ := step_raised step
      exact Function.update_of_ne (Ne.symm foreign) _ _

/-- What a step makes of the players with a failed call. -/
theorem Sound.step {raised : Pid → Bool} {e : Event Pid} {o : Output Pid}
    (sound : s.Sound raised) (step : s.step e = some (s', o)) :
    s'.Sound fun playerid => raised playerid || o.failed playerid := by
  have silent : (∀ other, o.failed other = false) → s'.Sound raised →
      s'.Sound fun playerid => raised playerid || o.failed playerid := by
    intro none after
    simpa only [none, Bool.or_false] using after
  cases e with
  | reqlogin c playerid node gate =>
      obtain ⟨idle, answer⟩ := step_reqlogin step
      have own : ∀ other, (s.coroutines c).player = some other → other = playerid := by
        simp [idle, Coroutine.player]
      have online : s.players.lookup playerid = none →
          (s.online c playerid node gate).Sound raised := by
        intro none
        obtain ⟨fine, quiet, empty⟩ := (sound.phase playerid).of_absent none
        exact sound.online (quiet.alone c) own (by simp [none]) fine empty
      have after := sound.reqlogin idle online
      have quiet := reqlogin_failed s c playerid node gate
      rw [← answer] at after quiet
      exact silent quiet after
  | reqkick c playerid =>
      obtain ⟨idle, answer⟩ := step_reqkick step
      have after : (s.reqkick c playerid).1.Sound raised := sound.reqkick idle
      have quiet := reqkick_failed s c playerid
      rw [← answer] at after quiet
      exact silent quiet after
  | replied c agent => exact silent (replied_failed step) (sound.replied step)
  | raised c =>
      obtain ⟨playerid, player, rfl, rfl⟩ := step_raised step
      refine sound.raises player ?_ (by simp [Output.failed])
      intro other ne
      simp [Output.failed, Ne.symm ne]

/-- Every table is sound; a player who is not in the game is stuck. -/
theorem sound_init (table : Table Pid) : table.state.Sound fun playerid =>
    (table.players.lookup playerid).any fun ref => (table.heap ref).status ≠ .game where
  owned := table.owned
  current := fun ref old _ => table.current ref old
  phase := by
    intro playerid
    have quiet : table.state.Quiet playerid := by
      intro c busy
      simp [Table.state, Coroutine.player] at busy
    cases found : table.players.lookup playerid with
    | none => exact .absent found quiet (by simp [Table.state, found])
    | some ref =>
        by_cases status : (table.heap ref).status = .game
        · have phase : table.state.Phase playerid false :=
            .game ref found status quiet (by simp [Table.state, found])
              (by simp [Table.state, found])
          simpa [status] using phase
        · have phase : table.state.Phase playerid true := by
            refine .stuck ref found status quiet ?_
            simp only [Table.state, found]
            cases (table.heap ref).agent <;> simp
          simpa [status] using phase

/-- A newservice that the step answers brings an agent. -/
def CreatesAgent (s : State Pid) : Event Pid → Prop
  | .replied c agent => ∀ playerid player, s.coroutines c = .creating playerid player →
      agent.isSome
  | _ => True

/-- A record in the game has an agent. -/
def Carried (s : State Pid) : Prop :=
  ∀ ref, (s.heap ref).status = .game → (s.heap ref).agent.isSome

/-- A step writes at most one record, with its agent if it is in the game. -/
theorem step_heap {e : Event Pid} {o : Output Pid} (step : s.step e = some (s', o))
    (creates : s.CreatesAgent e) :
    s'.heap = s.heap ∨ ∃ ref player, s'.heap = Function.update s.heap ref player ∧
      (player.status = .game → player.agent.isSome) := by
  cases e with
  | reqlogin c playerid node gate =>
      have answer := (step_reqlogin step).2
      simp only [State.reqlogin] at answer
      split at answer
      · split at answer
        · cases answer
          exact .inl rfl
        · cases answer
          exact .inl rfl
        · cases answer
          exact .inr ⟨_, _, rfl, by simp⟩
      · cases answer
        exact .inr ⟨_, _, rfl, by simp⟩
  | reqkick c playerid =>
      have answer := (step_reqkick step).2
      simp only [State.reqkick] at answer
      split at answer
      · split at answer
        · cases answer
          exact .inr ⟨_, _, rfl, by simp⟩
        · cases answer
          exact .inl rfl
      · cases answer
        exact .inl rfl
  | replied c agent =>
      simp only [State.step] at step
      split at step
      · cases step
        exact .inl rfl
      · cases step
        exact .inr ⟨_, _, rfl, by simp⟩
      · rename_i playerid player co
        cases step
        exact .inr ⟨_, _, rfl, fun _ => creates playerid player co⟩
      · cases step
        exact .inl rfl
      · cases step
  | raised c =>
      obtain ⟨_, _, _, rfl⟩ := step_raised step
      exact .inl rfl

theorem Carried.step {e : Event Pid} {o : Output Pid} (carried : s.Carried)
    (step : s.step e = some (s', o)) (creates : s.CreatesAgent e) : s'.Carried := by
  intro ref status
  cases step_heap step creates with
  | inl same =>
      rw [same] at status ⊢
      exact carried ref status
  | inr written =>
      obtain ⟨ref', player, heap, fits⟩ := written
      rw [heap] at status ⊢
      by_cases same : ref = ref'
      · rw [same, Function.update_self] at status ⊢
        exact fits status
      · rw [Function.update_of_ne same] at status ⊢
        exact carried ref status

end State

/-- A call of a request of the player raised. -/
def raised (trace : List (Event Pid × Output Pid)) (playerid : Pid) : Bool :=
  trace.any fun x => x.2.failed playerid

theorem raised_concat (trace : List (Event Pid × Output Pid)) (e : Event Pid) (o : Output Pid) :
    raised (trace ++ [(e, o)]) = fun playerid => raised trace playerid || o.failed playerid := by
  funext playerid
  simp [raised]

theorem sound_of_reach [Inhabited Pid] {trace : List (Event Pid × Output Pid)} {s : State Pid}
    (reach : (machine Table.empty).Reach trace s) : s.Sound (raised trace) := by
  induction reach with
  | init => exact State.sound_init (Table.empty : Table Pid)
  | next _ step ih =>
      rw [raised_concat]
      exact ih.step step

theorem State.Phase.live_length {s : State Pid} {playerid : Pid} {raised : Bool}
    (phase : s.Phase playerid raised) : (s.live playerid).length ≤ 1 := by
  cases phase with
  | absent _ _ empty => simp [empty]
  | game ref _ _ _ agents _ =>
      rw [agents]
      exact Option.length_toList_le
  | busy _ _ _ _ _ working => exact working.live_length
  | stuck _ _ _ _ agents => exact agents

end Qiuqiu.Agentmgr
