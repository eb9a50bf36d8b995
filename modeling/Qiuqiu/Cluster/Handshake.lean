import Qiuqiu.Cluster.Cross

/-!
The handshake of startup/dpclusterd.lua between a game node and a cross node.
The game node sends accept, the cross node answers with accept once it has a
sender, and the game node answers with cluster_ok. Messages arrive in any order
or not at all, and either side may see its link interrupted. The two sides
agree as long as the cross node is not the only one to notice an interrupt.
-/
namespace Qiuqiu.Cluster

namespace Game
variable {Addr : Type} [DecidableEq Addr]

/-- Where `LoopDeal` stands: in the loop over all addresses, waiting for a
sender, in the loop over the interrupted links, or waiting for `changenode`. -/
inductive Loop (Addr : Type) where
  | sleeping
  | scanning
  | gettingSender (address : Addr)
  | reconnecting
  | changing (address : Addr)
  deriving DecidableEq

structure State (Addr : Type) where
  allClusterAddress : Addr → Bool
  /-- The sender of a record of `CONNECTING`. -/
  connecting : Addr → Option Nat
  clusterCache : Addr → Option Link
  action : Bool
  loop : Loop Addr

inductive Event (Addr : Type) where
  | accept (address : Addr) (peer : Peer)
  | interrupt (address : Addr)
  | wake
  | scan (address : Addr)
  | gotSender (clustersender : Option Nat)
  | visit (address : Addr)
  | changed (succeeds : Bool)
  | loopEnd

/-- What is sent to a cross node. -/
structure Output (Addr : Type) where
  accepts : Addr → Bool := fun _ => false
  clusterOks : Addr → Bool := fun _ => false

namespace State
variable (s : State Addr)

/-- `CMD.accept`; `clusterOks` tells whether it answers with cluster_ok. -/
def accept (address : Addr) (peer : Peer) : State Addr × Output Addr :=
  match s.clusterCache address with
  | some link =>
      if link.status = some false then
        ({ s with
            clusterCache :=
              Function.update s.clusterCache address
                (some { link with peer := peer, status := some true }) },
          { clusterOks := fun a => a = address })
      else (s, {})
  | none =>
      match s.connecting address with
      | none => (s, {})
      | some sender =>
          ({ s with
              connecting := Function.update s.connecting address none
              clusterCache :=
                Function.update s.clusterCache address (some ⟨peer, sender, some true⟩) },
            { clusterOks := fun a => a = address })

/-- `CMD.interrupt`. -/
def interrupt (address : Addr) : State Addr :=
  match s.clusterCache address with
  | some link =>
      { s with clusterCache :=
          Function.update s.clusterCache address (some { link with status := some false }) }
  | none => s

def step : Event Addr → Option (State Addr × Output Addr)
  | .accept address peer => some (s.accept address peer)
  | .interrupt address => some (s.interrupt address, {})
  | .wake =>
      match s.loop with
      | .sleeping =>
          if s.action then some ({ s with action := false, loop := .scanning }, {})
          else
            some ({ s with action := true, loop := .reconnecting },
              { accepts := fun address => (s.connecting address).isSome })
      | _ => none
  | .scan address =>
      match s.loop with
      | .scanning =>
          if s.allClusterAddress address ∧ s.clusterCache address = none ∧
              s.connecting address = none then
            some ({ s with loop := .gettingSender address }, {})
          else none
      | _ => none
  | .gotSender clustersender =>
      match s.loop with
      | .gettingSender address =>
          match clustersender, s.connecting address with
          | some sender, none =>
              some ({ s with
                connecting := Function.update s.connecting address (some sender)
                loop := .scanning }, {})
          | _, _ => some ({ s with loop := .scanning }, {})
      | _ => none
  | .visit address =>
      match s.loop, s.clusterCache address with
      | .reconnecting, some link =>
          if link.status = some false then some ({ s with loop := .changing address }, {})
          else none
      | _, _ => none
  | .changed succeeds =>
      match s.loop with
      | .changing address =>
          some ({ s with loop := .reconnecting },
            { accepts := fun a => succeeds && decide (a = address) })
      | _ => none
  | .loopEnd =>
      match s.loop with
      | .scanning => some ({ s with loop := .sleeping }, {})
      | .reconnecting => some ({ s with loop := .sleeping }, {})
      | _ => none

end State

end Game

namespace Handshake

/-- A game node and a cross node, what is in flight between them and the
interrupts that are not handled yet. -/
structure System where
  game : Game.State Unit
  cross : Cross.State Unit
  acceptsToCross : Nat
  oksToCross : Nat
  acceptsToGame : Nat
  gameInterrupts : Nat
  crossInterrupts : Nat

inductive Event where
  | gameLoop (e : Game.Event Unit)
  | crossLocal (e : Cross.Event Unit)
  | acceptAtCross (c : Nat) (peer : Peer)
  | okAtCross
  | acceptAtGame (peer : Peer)
  | gameBreaks
  | crossBreaks
  | gameInterrupted
  | crossInterrupted
  | loseAcceptToCross
  | loseOk
  | loseAcceptToGame

/-- A step of `LoopDeal` on the game node. -/
def isGameLoop : Game.Event Unit → Bool
  | .accept _ _ => false
  | .interrupt _ => false
  | _ => true

/-- A step of `LoopDeal` or of a suspended accept on the cross node. -/
def isCrossLocal : Cross.Event Unit → Bool
  | .accept _ _ _ => false
  | .clusterOk _ => false
  | .interrupt _ => false
  | _ => true

def acceptsOf : Cross.Output Unit → Nat
  | .sent accepts => (accepts ()).toNat
  | _ => 0

namespace System
variable (s : System)

def playGame (e : Game.Event Unit) : Option System :=
  (s.game.step e).map fun (game, o) =>
    { s with
      game := game
      acceptsToCross := s.acceptsToCross + (o.accepts ()).toNat
      oksToCross := s.oksToCross + (o.clusterOks ()).toNat }

def playCross (e : Cross.Event Unit) : Option System :=
  (s.cross.step e).map fun (cross, o) =>
    { s with cross := cross, acceptsToGame := s.acceptsToGame + acceptsOf o }

def next : Event → Option System
  | .gameLoop e => if isGameLoop e then s.playGame e else none
  | .crossLocal e => if isCrossLocal e then s.playCross e else none
  | .acceptAtCross c peer =>
      if 0 < s.acceptsToCross then
        { s with acceptsToCross := s.acceptsToCross - 1 }.playCross (.accept c () peer)
      else none
  | .okAtCross =>
      if 0 < s.oksToCross then
        { s with oksToCross := s.oksToCross - 1 }.playCross (.clusterOk ())
      else none
  | .acceptAtGame peer =>
      if 0 < s.acceptsToGame then
        { s with acceptsToGame := s.acceptsToGame - 1 }.playGame (.accept () peer)
      else none
  | .gameBreaks => some { s with gameInterrupts := s.gameInterrupts + 1 }
  | .crossBreaks => some { s with crossInterrupts := s.crossInterrupts + 1 }
  | .gameInterrupted =>
      if 0 < s.gameInterrupts then
        { s with gameInterrupts := s.gameInterrupts - 1 }.playGame (.interrupt ())
      else none
  | .crossInterrupted =>
      if 0 < s.crossInterrupts then
        { s with crossInterrupts := s.crossInterrupts - 1 }.playCross (.interrupt ())
      else none
  | .loseAcceptToCross =>
      if 0 < s.acceptsToCross then some { s with acceptsToCross := s.acceptsToCross - 1 } else none
  | .loseOk => if 0 < s.oksToCross then some { s with oksToCross := s.oksToCross - 1 } else none
  | .loseAcceptToGame =>
      if 0 < s.acceptsToGame then some { s with acceptsToGame := s.acceptsToGame - 1 } else none

def gameStatus : Option (Option Bool) := (s.game.clusterCache ()).map Link.status

def crossStatus : Option (Option Bool) := (s.cross.clusterCache ()).map Link.status

/-- Nothing is in flight, every interrupt is handled and neither `LoopDeal` has
anything to send. -/
structure Quiescent : Prop where
  acceptsToCross : s.acceptsToCross = 0
  oksToCross : s.oksToCross = 0
  acceptsToGame : s.acceptsToGame = 0
  gameInterrupts : s.gameInterrupts = 0
  crossInterrupts : s.crossInterrupts = 0
  notConnecting : s.game.connecting () = none
  notInterrupted : s.gameStatus ≠ some (some false)
  notChanging : s.game.loop ≠ .changing ()
  notAccepting : s.crossStatus ≠ some none

/-- The cross node does not lose the link alone: it handles an interrupt while
the game node uses the link only if the game node has one to handle as well or
a cluster_ok is on its way, and the last of these cluster_ok is not lost. -/
def noticed : Event → Bool
  | .crossInterrupted =>
      decide (s.gameStatus = some (some true) → s.crossStatus ≠ none →
        0 < s.gameInterrupts ∨ 0 < s.oksToCross)
  | .loseOk =>
      decide (s.gameStatus = some (some true) → s.crossStatus = some (some false) →
        0 < s.gameInterrupts ∨ 1 < s.oksToCross)
  | _ => true

end System

def system (known : Bool) : Machine System Event Unit where
  init := ⟨⟨fun _ => true, fun _ => none, fun _ => none, true, .sleeping⟩,
    (Cross.machine fun _ => known).init, 0, 0, 0, 0, 0⟩
  step := fun s e => (s.next e).map fun s' => (s', ())

namespace System
variable {s s' : System}

theorem playGame_frame {e : Game.Event Unit} (h : s.playGame e = some s') :
    s'.cross = s.cross ∧ s'.acceptsToGame = s.acceptsToGame ∧
      s'.gameInterrupts = s.gameInterrupts := by
  obtain ⟨_, _, rfl⟩ := Option.map_eq_some_iff.1 h
  exact ⟨rfl, rfl, rfl⟩

/-- `LoopDeal` on the game node reads `CLUSTER_CACHE` and sends accepts only. -/
theorem playGame_loop {e : Game.Event Unit} (loop : isGameLoop e = true)
    (h : s.playGame e = some s') :
    s'.gameStatus = s.gameStatus ∧ s'.oksToCross = s.oksToCross := by
  obtain ⟨⟨game, o⟩, step, rfl⟩ := Option.map_eq_some_iff.1 h
  have kept : game.clusterCache = s.game.clusterCache ∧ o.clusterOks = fun _ => false := by
    cases e with
    | accept address peer => cases loop
    | interrupt address => cases loop
    | wake =>
        simp only [Game.State.step] at step
        split at step
        · split at step
          · cases step
            exact ⟨rfl, rfl⟩
          · cases step
            exact ⟨rfl, rfl⟩
        · cases step
    | scan address =>
        simp only [Game.State.step] at step
        split at step
        · split at step
          · cases step
            exact ⟨rfl, rfl⟩
          · cases step
        · cases step
    | gotSender clustersender =>
        simp only [Game.State.step] at step
        split at step
        · split at step
          · cases step
            exact ⟨rfl, rfl⟩
          · cases step
            exact ⟨rfl, rfl⟩
        · cases step
    | visit address =>
        simp only [Game.State.step] at step
        split at step
        · split at step
          · cases step
            exact ⟨rfl, rfl⟩
          · cases step
        · cases step
    | changed succeeds =>
        simp only [Game.State.step] at step
        split at step
        · cases step
          exact ⟨rfl, rfl⟩
        · cases step
    | loopEnd =>
        simp only [Game.State.step] at step
        split at step
        · cases step
          exact ⟨rfl, rfl⟩
        · cases step
          exact ⟨rfl, rfl⟩
        · cases step
  simp [gameStatus, kept]

/-- An accept is rejected or opens the link and is answered. -/
theorem playGame_accept {peer : Peer} (h : s.playGame (.accept () peer) = some s') :
    (s'.gameStatus = s.gameStatus ∧ s'.oksToCross = s.oksToCross) ∨
      (s'.gameStatus = some (some true) ∧ s'.oksToCross = s.oksToCross + 1) := by
  obtain ⟨⟨game, o⟩, step, rfl⟩ := Option.map_eq_some_iff.1 h
  simp only [Game.State.step, Game.State.accept] at step
  split at step
  · split at step
    · cases step
      exact .inr ⟨by simp [gameStatus], by simp⟩
    · cases step
      exact .inl ⟨rfl, rfl⟩
  · split at step
    · cases step
      exact .inl ⟨rfl, rfl⟩
    · cases step
      exact .inr ⟨by simp [gameStatus], by simp⟩

theorem playGame_interrupt (h : s.playGame (.interrupt ()) = some s') :
    s'.gameStatus = s.gameStatus.map (fun _ => some false) ∧ s'.oksToCross = s.oksToCross := by
  obtain ⟨⟨game, o⟩, step, rfl⟩ := Option.map_eq_some_iff.1 h
  simp only [Game.State.step, Game.State.interrupt] at step
  split at step
  · rename_i link found
    cases step
    exact ⟨by simp [gameStatus, found], rfl⟩
  · rename_i absent
    cases step
    exact ⟨by simp [gameStatus, absent], rfl⟩

theorem playCross_frame {e : Cross.Event Unit} (h : s.playCross e = some s') :
    s'.game = s.game ∧ s'.oksToCross = s.oksToCross ∧ s'.gameInterrupts = s.gameInterrupts := by
  obtain ⟨_, _, rfl⟩ := Option.map_eq_some_iff.1 h
  exact ⟨rfl, rfl, rfl⟩

/-- `CMD.accept` and `LoopDeal` on the cross node keep the status or start a
negotiation. -/
theorem playCross_status {e : Cross.Event Unit} (notOk : e ≠ .clusterOk ())
    (notInterrupt : e ≠ .interrupt ()) (h : s.playCross e = some s') :
    s'.crossStatus = s.crossStatus ∨ s'.crossStatus = some none := by
  obtain ⟨⟨cross, o⟩, step, rfl⟩ := Option.map_eq_some_iff.1 h
  cases Cross.State.step_moves step with
  | quiet _ cache _ _ _ _ => exact .inl (by simp only [crossStatus, cache])
  | dropped _ _ _ _ _ _ _ cache _ _ _ => exact .inl (by simp only [crossStatus, cache])
  | entered _ _ _ _ _ _ cache _ _ => exact .inl (by simp only [crossStatus, cache])
  | reconnected address peer link _ cache _ _ _ _ _ => exact .inr (by simp [crossStatus, cache])
  | opened address => exact absurd rfl notOk
  | interrupted address => exact absurd rfl notInterrupt
  | moved address data clustersender _ => exact .inr (by simp [crossStatus, Cross.State.move])

/-- The cross node sends an accept only over a link it has. -/
theorem playCross_accepts {e : Cross.Event Unit} (h : s.playCross e = some s')
    (absent : s.crossStatus = none) : s'.acceptsToGame = s.acceptsToGame := by
  obtain ⟨⟨cross, o⟩, step, rfl⟩ := Option.map_eq_some_iff.1 h
  have none : s.cross.clusterCache () = none := Option.map_eq_none_iff.1 absent
  cases o with
  | done => rfl
  | raised => rfl
  | sent accepts =>
      rw [Cross.State.step_sent step]
      simp [acceptsOf, Cross.State.toAccept, none]

theorem playCross_ok (h : s.playCross (.clusterOk ()) = some s') :
    s'.crossStatus = s.crossStatus.map fun _ => some true := by
  obtain ⟨⟨cross, o⟩, step, rfl⟩ := Option.map_eq_some_iff.1 h
  simp only [Cross.State.step] at step
  split at step
  · rename_i link found
    cases step
    simp [crossStatus, Cross.State.setStatus, found]
  · rename_i absent
    cases step
    simp [crossStatus, absent]

theorem playCross_interrupt (h : s.playCross (.interrupt ()) = some s') :
    s'.crossStatus = s.crossStatus.map fun _ => some false := by
  obtain ⟨⟨cross, o⟩, step, rfl⟩ := Option.map_eq_some_iff.1 h
  cases step
  cases found : s.cross.clusterCache () with
  | none => simp [crossStatus, Cross.State.setStatus, found]
  | some link => simp [crossStatus, Cross.State.setStatus, found]

/-- A link of the game node has one of the cross node behind it, a cluster_ok
comes from a link of the game node, and a link that only the game node uses is
about to be interrupted or confirmed. -/
structure Coherent (s : System) : Prop where
  accepted : s.gameStatus ≠ none ∨ 0 < s.acceptsToGame → s.crossStatus ≠ none
  answered : s.crossStatus = some (some true) ∨ 0 < s.oksToCross → s.gameStatus ≠ none
  decided : s.gameStatus ≠ some none
  settling : s.gameStatus = some (some true) → s.crossStatus = some (some false) →
    0 < s.gameInterrupts ∨ 0 < s.oksToCross

theorem Coherent.gameLoop {e : Game.Event Unit} (inv : s.Coherent) (loop : isGameLoop e = true)
    (h : s.playGame e = some s') : s'.Coherent := by
  obtain ⟨cross, accepts, interrupts⟩ := playGame_frame h
  obtain ⟨game, oks⟩ := playGame_loop loop h
  have status : s'.crossStatus = s.crossStatus := by simp only [crossStatus, cross]
  constructor
  · rw [game, accepts, status]
    exact inv.accepted
  · rw [game, oks, status]
    exact inv.answered
  · rw [game]
    exact inv.decided
  · rw [game, interrupts, oks, status]
    exact inv.settling

theorem Coherent.crossStep {e : Cross.Event Unit} (inv : s.Coherent) (notOk : e ≠ .clusterOk ())
    (notInterrupt : e ≠ .interrupt ()) (h : s.playCross e = some s') : s'.Coherent := by
  obtain ⟨game, oks, interrupts⟩ := playCross_frame h
  have status : s'.gameStatus = s.gameStatus := by simp only [gameStatus, game]
  have accepts := playCross_accepts h
  constructor
  · rw [status]
    have accepted := inv.accepted
    grind [playCross_status notOk notInterrupt h]
  · rw [status, oks]
    have answered := inv.answered
    grind [playCross_status notOk notInterrupt h]
  · rw [status]
    exact inv.decided
  · rw [status, interrupts, oks]
    have settling := inv.settling
    grind [playCross_status notOk notInterrupt h]

theorem Coherent.okAtCross (inv : s.Coherent) (waiting : 0 < s.oksToCross)
    (h : { s with oksToCross := s.oksToCross - 1 }.playCross (.clusterOk ()) = some s') :
    s'.Coherent := by
  obtain ⟨same, oks, interrupts⟩ := playCross_frame h
  have game : s'.gameStatus = s.gameStatus := by simp only [gameStatus, same]
  have opened : s'.crossStatus = s.crossStatus.map fun _ => some true := (playCross_ok h :)
  have present : s.crossStatus ≠ none := inv.accepted (.inl (inv.answered (.inr waiting)))
  constructor
  · intro _
    simpa [opened] using present
  · intro _
    rw [game]
    exact inv.answered (.inr waiting)
  · rw [game]
    exact inv.decided
  · intro _ interrupted
    simp [opened] at interrupted

theorem Coherent.acceptAtGame {peer : Peer} (inv : s.Coherent) (waiting : 0 < s.acceptsToGame)
    (h : { s with acceptsToGame := s.acceptsToGame - 1 }.playGame (.accept () peer) = some s') :
    s'.Coherent := by
  obtain ⟨same, accepts, interrupts⟩ := playGame_frame h
  have cross : s'.crossStatus = s.crossStatus := by simp only [crossStatus, same]
  have present : s.crossStatus ≠ none := inv.accepted (.inr waiting)
  cases playGame_accept h with
  | inl rejected =>
      obtain ⟨(game : s'.gameStatus = s.gameStatus), oks⟩ := rejected
      constructor
      · intro _
        rwa [cross]
      · rw [game, cross, oks]
        exact inv.answered
      · rw [game]
        exact inv.decided
      · rw [game, cross, interrupts, oks]
        exact inv.settling
  | inr opened =>
      obtain ⟨game, oks⟩ := opened
      constructor
      · intro _
        rwa [cross]
      · simp [game]
      · simp [game]
      · intro _ _
        exact .inr (by omega)

theorem Coherent.gameInterrupted (inv : s.Coherent)
    (h : { s with gameInterrupts := s.gameInterrupts - 1 }.playGame (.interrupt ()) = some s') :
    s'.Coherent := by
  obtain ⟨same, accepts, interrupts⟩ := playGame_frame h
  have cross : s'.crossStatus = s.crossStatus := by simp only [crossStatus, same]
  obtain ⟨(game : s'.gameStatus = s.gameStatus.map fun _ => some false), oks⟩ :=
    playGame_interrupt h
  constructor
  · rw [game, accepts, cross, ne_eq, Option.map_eq_none_iff]
    exact inv.accepted
  · rw [game, oks, cross, ne_eq, Option.map_eq_none_iff]
    exact inv.answered
  · simp [game]
  · intro used
    simp [game] at used

theorem Coherent.crossInterrupted (inv : s.Coherent) (ok : s.noticed .crossInterrupted = true)
    (h : { s with crossInterrupts := s.crossInterrupts - 1 }.playCross (.interrupt ()) = some s') :
    s'.Coherent := by
  obtain ⟨same, oks, interrupts⟩ := playCross_frame h
  have game : s'.gameStatus = s.gameStatus := by simp only [gameStatus, same]
  have cross : s'.crossStatus = s.crossStatus.map fun _ => some false :=
    (playCross_interrupt h :)
  have accepts : s.crossStatus = none → s'.acceptsToGame = s.acceptsToGame :=
    (playCross_accepts h :)
  constructor
  · rw [game, cross]
    intro present gone
    have absent := Option.map_eq_none_iff.1 gone
    rw [accepts absent] at present
    exact inv.accepted present absent
  · rw [game, oks]
    intro answers
    cases answers with
    | inl used => simp [cross] at used
    | inr waiting => exact inv.answered (.inr waiting)
  · rw [game]
    exact inv.decided
  · rw [game, cross, interrupts, oks]
    intro used interrupted
    simp only [noticed, decide_eq_true_eq] at ok
    apply ok used
    intro absent
    simp [absent] at interrupted

theorem Coherent.loseOk (inv : s.Coherent) (ok : s.noticed .loseOk = true) :
    { s with oksToCross := s.oksToCross - 1 }.Coherent where
  accepted := inv.accepted
  answered := fun answers => inv.answered (answers.imp_right fun waiting => by
    change 0 < s.oksToCross - 1 at waiting
    omega)
  decided := inv.decided
  settling := by
    intro used interrupted
    simp only [noticed, decide_eq_true_eq] at ok
    change 0 < s.gameInterrupts ∨ 0 < s.oksToCross - 1
    have waiting := ok used interrupted
    omega

theorem Coherent.loseAcceptToGame (inv : s.Coherent) :
    { s with acceptsToGame := s.acceptsToGame - 1 }.Coherent where
  accepted := fun present => inv.accepted (present.imp_right fun waiting => by
    change 0 < s.acceptsToGame - 1 at waiting
    omega)
  answered := inv.answered
  decided := inv.decided
  settling := inv.settling

theorem Coherent.step {e : Event} (inv : s.Coherent) (ok : s.noticed e = true)
    (h : s.next e = some s') : s'.Coherent := by
  cases e with
  | gameLoop e =>
      obtain ⟨loop, h⟩ := Option.ite_none_right_eq_some.1 h
      exact inv.gameLoop loop h
  | crossLocal e =>
      obtain ⟨isLocal, h⟩ := Option.ite_none_right_eq_some.1 h
      refine inv.crossStep ?_ ?_ h
      · rintro rfl
        cases isLocal
      · rintro rfl
        cases isLocal
  | acceptAtCross c peer =>
      obtain ⟨_, h⟩ := Option.ite_none_right_eq_some.1 h
      have taken : { s with acceptsToCross := s.acceptsToCross - 1 }.Coherent :=
        ⟨inv.accepted, inv.answered, inv.decided, inv.settling⟩
      exact taken.crossStep (by simp) (by simp) h
  | okAtCross =>
      obtain ⟨waiting, h⟩ := Option.ite_none_right_eq_some.1 h
      exact inv.okAtCross waiting h
  | acceptAtGame peer =>
      obtain ⟨waiting, h⟩ := Option.ite_none_right_eq_some.1 h
      exact inv.acceptAtGame waiting h
  | gameBreaks =>
      cases h
      exact ⟨inv.accepted, inv.answered, inv.decided, fun _ _ => .inl (Nat.succ_pos _)⟩
  | crossBreaks =>
      cases h
      exact ⟨inv.accepted, inv.answered, inv.decided, inv.settling⟩
  | gameInterrupted =>
      obtain ⟨_, h⟩ := Option.ite_none_right_eq_some.1 h
      exact inv.gameInterrupted h
  | crossInterrupted =>
      obtain ⟨_, h⟩ := Option.ite_none_right_eq_some.1 h
      exact inv.crossInterrupted ok h
  | loseAcceptToCross =>
      obtain ⟨_, h⟩ := Option.ite_none_right_eq_some.1 h
      cases h
      exact ⟨inv.accepted, inv.answered, inv.decided, inv.settling⟩
  | loseOk =>
      obtain ⟨_, h⟩ := Option.ite_none_right_eq_some.1 h
      cases h
      exact inv.loseOk ok
  | loseAcceptToGame =>
      obtain ⟨_, h⟩ := Option.ite_none_right_eq_some.1 h
      cases h
      exact inv.loseAcceptToGame

/-- The game node uses a link the cross node has given up, and nothing is left
that could tell either of them. -/
def HalfOpen (s : System) : Prop :=
  s.gameStatus = some (some true) ∧ s.crossStatus = some (some false) ∧
    s.gameInterrupts = 0 ∧ s.oksToCross = 0

/-- A step that does not meet the condition. -/
theorem halfOpen_of_not_noticed {e : Event} (alone : s.noticed e = false)
    (h : s.next e = some s') : s'.HalfOpen := by
  cases e with
  | crossInterrupted =>
      obtain ⟨_, h⟩ := Option.ite_none_right_eq_some.1 h
      simp only [noticed, decide_eq_false_iff_not, not_forall, not_or] at alone
      obtain ⟨used, present, interrupts, oks⟩ := alone
      obtain ⟨same, oks', interrupts'⟩ := playCross_frame h
      have cross : s'.crossStatus = s.crossStatus.map fun _ => some false :=
        (playCross_interrupt h :)
      obtain ⟨status, found⟩ := Option.ne_none_iff_exists'.1 present
      refine ⟨?_, ?_, ?_, ?_⟩
      · simpa only [gameStatus, same] using used
      · rw [cross, found]
        rfl
      · exact interrupts'.trans (Nat.eq_zero_of_not_pos interrupts)
      · exact oks'.trans (Nat.eq_zero_of_not_pos oks)
  | loseOk =>
      obtain ⟨_, h⟩ := Option.ite_none_right_eq_some.1 h
      cases h
      simp only [noticed, decide_eq_false_iff_not, not_forall, not_or] at alone
      obtain ⟨used, interrupted, interrupts, oks⟩ := alone
      exact ⟨used, interrupted, Nat.eq_zero_of_not_pos interrupts,
        Nat.sub_eq_zero_of_le (Nat.le_of_not_lt oks)⟩
  | _ => cases alone

theorem Coherent.agree (inv : s.Coherent) (quiet : s.Quiescent) :
    s.gameStatus = some (some true) ↔ s.crossStatus = some (some true) := by
  constructor
  · intro used
    cases cross : s.crossStatus with
    | none => exact absurd cross (inv.accepted (.inl (by simp [used])))
    | some status =>
        match status with
        | none => exact absurd cross quiet.notAccepting
        | some true => rfl
        | some false =>
            have waiting := inv.settling used cross
            rw [quiet.gameInterrupts, quiet.oksToCross] at waiting
            omega
  · intro used
    cases game : s.gameStatus with
    | none => exact absurd game (inv.answered (.inl used))
    | some status =>
        match status with
        | none => exact absurd game inv.decided
        | some true => rfl
        | some false => exact absurd game quiet.notInterrupted

end System

theorem coherent_of_reach {known : Bool} {trace : List (Event × Unit)} {s : System}
    (reach : ((system known).guard System.noticed).Reach trace s) : s.Coherent := by
  apply Machine.Reach.invariant (fun _ s => s.Coherent) ?_ ?_ reach
  · exact
      { accepted := fun present => by simp [Machine.guard, system, System.gameStatus] at present
        answered := fun answers => by
          simp [Machine.guard, system, System.crossStatus, Cross.machine] at answers
        decided := by simp [Machine.guard, system, System.gameStatus]
        settling := fun used => by simp [Machine.guard, system, System.gameStatus] at used }
  · intro trace s e s' o inv step
    obtain ⟨ok, step⟩ := Machine.guard_step step
    obtain ⟨t, next, label⟩ := Option.map_eq_some_iff.1 step
    cases label
    exact inv.step ok next

/-- In every run in which the cross node does not lose the link alone, the two
sides agree whenever nothing is left to do. -/
theorem agree_of_noticed {known : Bool} {trace : List (Event × Unit)} {s : System}
    (reach : ((system known).guard System.noticed).Reach trace s) (quiet : s.Quiescent) :
    s.gameStatus = some (some true) ↔ s.crossStatus = some (some true) :=
  (coherent_of_reach reach).agree quiet

/-- The whole handshake. -/
def opening : List Event :=
  [.gameLoop .wake, .gameLoop (.scan ()), .gameLoop (.gotSender (some 50)), .gameLoop .loopEnd,
    .gameLoop .wake, .acceptAtCross 0 ⟨7, 3⟩, .crossLocal .wake, .crossLocal (.visit ()),
    .crossLocal (.gotSender (some 100)), .crossLocal .loopEnd, .crossLocal .wake,
    .acceptAtGame ⟨8, 4⟩, .okAtCross, .gameLoop .loopEnd]

theorem agree_run :
    ∃ trace s, ((system true).guard System.noticed).Reach trace s ∧ s.Quiescent ∧
      s.gameStatus = some (some true) ∧
      (s.gameStatus = some (some true) ↔ s.crossStatus = some (some true)) := by
  have run : ∃ s, ((system true).guard System.noticed).exec (system true).init opening = some s ∧
      s.Quiescent ∧ s.gameStatus = some (some true) :=
    ⟨_, rfl, ⟨rfl, rfl, rfl, rfl, rfl, rfl, by decide, by decide, by decide⟩, rfl⟩
  obtain ⟨s, run, quiet, used⟩ := run
  obtain ⟨trace, reach⟩ := Machine.Reach.init.exec run
  exact ⟨trace, s, reach, quiet, used, agree_of_noticed reach quiet⟩

/-- Only the cross node sees the connection break. -/
theorem one_sided_interrupt_disagrees :
    ∃ trace s, (system true).Reach trace s ∧ s.Quiescent ∧
      s.gameStatus = some (some true) ∧ s.crossStatus = some (some false) := by
  have run : ∃ s, (system true).exec (system true).init
      (opening ++ [.crossBreaks, .crossInterrupted]) = some s ∧
      s.Quiescent ∧ s.gameStatus = some (some true) ∧ s.crossStatus = some (some false) :=
    ⟨_, rfl, ⟨rfl, rfl, rfl, rfl, rfl, rfl, by decide, by decide, by decide⟩, rfl, rfl⟩
  obtain ⟨s, run, quiet, used, interrupted⟩ := run
  obtain ⟨trace, reach⟩ := Machine.Reach.init.exec run
  exact ⟨trace, s, reach, quiet, used, interrupted⟩

end Handshake

end Qiuqiu.Cluster
