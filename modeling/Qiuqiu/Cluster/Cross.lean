import Mathlib.Logic.Function.Basic
import Qiuqiu.Base.Machine

/-!
The cross node of startup/dpclusterd.lua. `CMD.accept` is suspended by
`cluster.reload` and by `changenode`, `LoopDeal` by `cluster.get_sender`; in
between other messages are handled. The order of `pairs` is arbitrary.
-/
namespace Qiuqiu.Cluster

/-- What an accept carries. -/
structure Peer where
  agent : Nat
  serverId : Nat
  deriving DecidableEq

/-- A record of `CLUSTER_CACHE`. The status is nil while the link is being
connected, false when it is interrupted and true when it can be used. -/
structure Link where
  peer : Peer
  sender : Nat
  status : Option Bool
  deriving DecidableEq

namespace Cross
variable {Addr : Type} [DecidableEq Addr]

/-- The coroutine of a `CMD.accept`. -/
inductive Handler (Addr : Type) where
  | idle
  | reloading (address : Addr) (peer : Peer)
  | changing (address : Addr) (peer : Peer)

/-- Where `LoopDeal` stands; in `gettingSender` it holds the record it read. -/
inductive Loop (Addr : Type) where
  | sleeping
  | moving
  | gettingSender (address : Addr) (data : Peer)

structure State (Addr : Type) where
  reloadCfg : Addr → Bool
  connecting : Addr → Option Peer
  clusterCache : Addr → Option Link
  action : Bool
  loop : Loop Addr
  handlers : Nat → Handler Addr
  /-- Not in the source: the latest accept that `CMD.accept` got through with. -/
  latest : Addr → Option Peer
  /-- Not in the source: the latest accept that it put into a table. -/
  taken : Addr → Option Peer
  /-- Not in the source: a connection is negotiated since the latest interrupt. -/
  negotiating : Addr → Bool

inductive Event (Addr : Type) where
  | accept (c : Nat) (address : Addr) (peer : Peer)
  | reloaded (c : Nat) (returns : Bool)
  | changed (c : Nat) (succeeds : Bool)
  | clusterOk (address : Addr)
  | interrupt (address : Addr)
  | wake
  | visit (address : Addr)
  | gotSender (clustersender : Option Nat)
  | loopEnd

/-- A handler may raise; `LoopDeal` sends accepts. -/
inductive Output (Addr : Type) where
  | done
  | raised
  | sent (accepts : Addr → Bool)

namespace State
variable (s : State Addr)

def setHandler (c : Nat) (h : Handler Addr) : State Addr :=
  { s with handlers := Function.update s.handlers c h }

/-- The end of a `CMD.accept`, whether it stored the accept or dropped it. -/
def accepted (c : Nat) (address : Addr) (peer : Peer) : State Addr :=
  { s with latest := Function.update s.latest address (some peer) }.setHandler c .idle

/-- `CMD.accept` behind the reload. -/
def acceptBody (c : Nat) (address : Addr) (peer : Peer) : State Addr :=
  match s.clusterCache address with
  | some link =>
      if link.status = some false then s.setHandler c (.changing address peer)
      else s.accepted c address peer
  | none =>
      if s.connecting address = some peer then
        { s with taken := Function.update s.taken address (some peer) }.accepted c address peer
      else
        { s with
          connecting := Function.update s.connecting address (some peer)
          taken := Function.update s.taken address (some peer) }.accepted c address peer

/-- `CMD.accept` behind `changenode`. -/
def reconnect (c : Nat) (address : Addr) (peer : Peer) (succeeds : Bool) : State Addr :=
  match s.clusterCache address with
  | some link =>
      if succeeds ∧ link.status = some false then
        { s with
          clusterCache :=
            Function.update s.clusterCache address (some { link with peer := peer, status := none })
          taken := Function.update s.taken address (some peer)
          negotiating := Function.update s.negotiating address true }.accepted c address peer
      else s.accepted c address peer
  | none => s.setHandler c .idle

def setStatus (address : Addr) (status : Bool) : State Addr :=
  match s.clusterCache address with
  | some link =>
      { s with clusterCache :=
          Function.update s.clusterCache address (some { link with status := some status }) }
  | none => s

/-- `LoopDeal` with the sender of the address it holds. -/
def move (address : Addr) (data : Peer) (clustersender : Nat) : State Addr :=
  { s with
    connecting := Function.update s.connecting address none
    clusterCache := Function.update s.clusterCache address (some ⟨data, clustersender, none⟩)
    negotiating := Function.update s.negotiating address true
    loop := .moving }

/-- The addresses `LoopDeal` sends an accept to. -/
def toAccept (address : Addr) : Bool :=
  (s.clusterCache address).any fun link => link.status = none

def step : Event Addr → Option (State Addr × Output Addr)
  | .accept c address peer =>
      match s.handlers c with
      | .idle =>
          if s.reloadCfg address then some (s.acceptBody c address peer, .done)
          else
            some ({ s with reloadCfg := Function.update s.reloadCfg address true }.setHandler c
              (.reloading address peer), .done)
      | _ => none
  | .reloaded c returns =>
      match s.handlers c with
      | .reloading address peer =>
          if returns then some (s.acceptBody c address peer, .done)
          else some (s.setHandler c .idle, .raised)
      | _ => none
  | .changed c succeeds =>
      match s.handlers c with
      | .changing address peer =>
          some (s.reconnect c address peer succeeds, .done)
      | _ => none
  | .clusterOk address =>
      match s.clusterCache address with
      | some _ => some (s.setStatus address true, .done)
      | none => some (s, .raised)
  | .interrupt address =>
      some ({ s with negotiating := Function.update s.negotiating address false }.setStatus address
        false, .done)
  | .wake =>
      match s.loop with
      | .sleeping =>
          if s.action then some ({ s with action := false, loop := .moving }, .done)
          else some ({ s with action := true }, .sent s.toAccept)
      | _ => none
  | .visit address =>
      match s.loop, s.connecting address with
      | .moving, some data => some ({ s with loop := .gettingSender address data }, .done)
      | _, _ => none
  | .gotSender clustersender =>
      match s.loop with
      | .gettingSender address data =>
          match clustersender with
          | some clustersender => some (s.move address data clustersender, .done)
          | none => some ({ s with loop := .moving }, .done)
      | _ => none
  | .loopEnd =>
      match s.loop with
      | .moving => some ({ s with loop := .sleeping }, .done)
      | _ => none

end State

/-- `known` are the addresses of the configuration. -/
def machine (known : Addr → Bool) : Machine (State Addr) (Event Addr) (Output Addr) where
  init := ⟨known, fun _ => none, fun _ => none, true, .sleeping, fun _ => .idle, fun _ => none,
    fun _ => none, fun _ => false⟩
  step := State.step

namespace State
variable {s s' : State Addr}

/-- An accept finds its link open to it, or as it wants it to be. -/
def fits (s : State Addr) (address : Addr) (peer : Peer) (opens : Bool) : Bool :=
  (s.clusterCache address).all fun link => opens && link.status = some false || link.peer = peer

/-- `CMD.accept` does not drop the accept, or the cache has it. -/
def storesAccept (s : State Addr) : Event Addr → Bool
  | .accept _ address peer => !s.reloadCfg address || s.fits address peer true
  | .reloaded c returns =>
      match s.handlers c with
      | .reloading address peer => !returns || s.fits address peer true
      | _ => true
  | .changed c succeeds =>
      match s.handlers c with
      | .changing address peer => s.fits address peer succeeds
      | _ => true
  | _ => true

/-- What a step can do with the tables. -/
inductive Moves (s : State Addr) : Event Addr → State Addr → Prop
  | quiet {e s'} : s'.connecting = s.connecting → s'.clusterCache = s.clusterCache →
      s'.latest = s.latest → s'.taken = s.taken → s'.negotiating = s.negotiating →
      (∀ address data, s'.loop = .gettingSender address data →
        s.loop = .gettingSender address data ∨ s.connecting address = some data) →
      Moves s e s'
  | dropped {e s'} (address peer link) : s.clusterCache address = some link →
      (s.storesAccept e = true ↔ link.peer = peer) →
      s'.latest = Function.update s.latest address (some peer) →
      s'.connecting = s.connecting → s'.clusterCache = s.clusterCache → s'.taken = s.taken →
      s'.negotiating = s.negotiating → s'.loop = s.loop → Moves s e s'
  | entered {e s'} (address peer) : s.clusterCache address = none →
      s'.connecting = Function.update s.connecting address (some peer) →
      s'.latest = Function.update s.latest address (some peer) →
      s'.taken = Function.update s.taken address (some peer) →
      s'.clusterCache = s.clusterCache → s'.negotiating = s.negotiating → s'.loop = s.loop →
      Moves s e s'
  | reconnected {e s'} (address peer link) : s.clusterCache address = some link →
      s'.clusterCache = Function.update s.clusterCache address
        (some { link with peer := peer, status := none }) →
      s'.latest = Function.update s.latest address (some peer) →
      s'.taken = Function.update s.taken address (some peer) →
      s'.negotiating = Function.update s.negotiating address true →
      s'.connecting = s.connecting → s'.loop = s.loop → Moves s e s'
  | opened (address) : Moves s (.clusterOk address) (s.setStatus address true)
  | interrupted (address) :
      Moves s (.interrupt address)
        ({ s with negotiating := Function.update s.negotiating address false }.setStatus address
          false)
  | moved (address data clustersender) : s.loop = .gettingSender address data →
      Moves s (.gotSender (some clustersender)) (s.move address data clustersender)

theorem quiet_of_tables {e : Event Addr} (connecting : s'.connecting = s.connecting)
    (cache : s'.clusterCache = s.clusterCache) (latest : s'.latest = s.latest)
    (taken : s'.taken = s.taken) (negotiating : s'.negotiating = s.negotiating)
    (loop : s'.loop = s.loop) : s.Moves e s' :=
  .quiet connecting cache latest taken negotiating fun _ _ h => .inl (loop ▸ h)

omit [DecidableEq Addr] in
theorem fits_iff {address : Addr} {peer : Peer} {opens : Bool} {link : Link}
    (found : s.clusterCache address = some link)
    (closed : ¬ (opens = true ∧ link.status = some false)) :
    s.fits address peer opens = true ↔ link.peer = peer := by
  simp only [fits, found, Option.all_some, Bool.or_eq_true, Bool.and_eq_true, decide_eq_true_eq,
    closed, false_or]

theorem acceptBody_moves {e : Event Addr} (c : Nat) {address : Addr} {peer : Peer}
    (stores : s.storesAccept e = s.fits address peer true) :
    s.Moves e (s.acceptBody c address peer) := by
  simp only [acceptBody]
  split
  · rename_i link found
    split
    · exact quiet_of_tables rfl rfl rfl rfl rfl rfl
    · rename_i closed
      refine .dropped address peer link found ?_ rfl rfl rfl rfl rfl rfl
      rw [stores]
      exact fits_iff found fun opens => closed opens.2
  · rename_i absent
    split
    · rename_i same
      exact .entered address peer absent (by rw [← same, Function.update_eq_self]; rfl) rfl rfl rfl
        rfl rfl
    · exact .entered address peer absent rfl rfl rfl rfl rfl rfl

theorem reconnect_moves {e : Event Addr} (c : Nat) {address : Addr} {peer : Peer}
    {succeeds : Bool} (stores : s.storesAccept e = s.fits address peer succeeds) :
    s.Moves e (s.reconnect c address peer succeeds) := by
  simp only [reconnect]
  split
  · rename_i link found
    split
    · exact .reconnected address peer link found rfl rfl rfl rfl rfl rfl
    · rename_i closed
      refine .dropped address peer link found ?_ rfl rfl rfl rfl rfl rfl
      rw [stores]
      exact fits_iff found closed
  · exact quiet_of_tables rfl rfl rfl rfl rfl rfl

theorem step_moves {e : Event Addr} {o : Output Addr} (h : s.step e = some (s', o)) :
    s.Moves e s' := by
  cases e with
  | accept c address peer =>
      simp only [step] at h
      split at h
      · split at h
        · rename_i known
          cases h
          exact acceptBody_moves c (by simp [storesAccept, known])
        · cases h
          exact quiet_of_tables rfl rfl rfl rfl rfl rfl
      · cases h
  | reloaded c returns =>
      simp only [step] at h
      split at h
      · rename_i reloading
        split at h
        · rename_i returns
          cases h
          exact acceptBody_moves c (by simp [storesAccept, reloading, returns])
        · cases h
          exact quiet_of_tables rfl rfl rfl rfl rfl rfl
      · cases h
  | changed c succeeds =>
      simp only [step] at h
      split at h
      · rename_i changing
        cases h
        exact reconnect_moves c (by simp [storesAccept, changing])
      · cases h
  | clusterOk address =>
      simp only [step] at h
      split at h
      · cases h
        exact .opened address
      · cases h
        exact quiet_of_tables rfl rfl rfl rfl rfl rfl
  | interrupt address =>
      cases h
      exact .interrupted address
  | wake =>
      simp only [step] at h
      split at h
      · split at h
        · cases h
          exact .quiet rfl rfl rfl rfl rfl (by simp)
        · cases h
          exact quiet_of_tables rfl rfl rfl rfl rfl rfl
      · cases h
  | visit address =>
      simp only [step] at h
      split at h
      · rename_i data _ found
        cases h
        refine .quiet rfl rfl rfl rfl rfl ?_
        intro address' data' loop
        cases loop
        exact .inr found
      · cases h
  | gotSender clustersender =>
      simp only [step] at h
      split at h
      · rename_i address data loop
        split at h
        · rename_i clustersender
          cases h
          exact .moved address data clustersender loop
        · cases h
          exact .quiet rfl rfl rfl rfl rfl (by simp)
      · cases h
  | loopEnd =>
      simp only [step] at h
      split at h
      · cases h
        exact .quiet rfl rfl rfl rfl rfl (by simp)
      · cases h

/-- Only `LoopDeal` sends accepts. -/
theorem step_sent {e : Event Addr} {accepts : Addr → Bool}
    (h : s.step e = some (s', .sent accepts)) : accepts = s.toAccept := by
  cases e with
  | wake =>
      simp only [step] at h
      split at h
      · split at h
        · cases h
        · cases h
          rfl
      · cases h
  | interrupt address => cases h
  | clusterOk address =>
      simp only [step] at h
      split at h <;> cases h
  | visit address =>
      simp only [step] at h
      split at h <;> cases h
  | changed c succeeds =>
      simp only [step] at h
      split at h <;> cases h
  | loopEnd =>
      simp only [step] at h
      split at h <;> cases h
  | _ =>
      simp only [step] at h
      split at h
      · split at h <;> cases h
      · cases h

theorem setStatus_of_some {address : Addr} {link : Link} (status : Bool)
    (found : s.clusterCache address = some link) :
    (s.setStatus address status).clusterCache =
      Function.update s.clusterCache address (some { link with status := some status }) := by
  simp only [setStatus, found]

/-- `CMD.cluster_ok` and `CMD.interrupt` keep all but the status. -/
theorem setStatus_cache {address address' : Addr} {status : Bool} {link' : Link}
    (h : (s.setStatus address status).clusterCache address' = some link') :
    ∃ link, s.clusterCache address' = some link ∧ link'.peer = link.peer ∧
      (link'.status = none → address' ≠ address ∧ link.status = none) := by
  cases found : s.clusterCache address with
  | none =>
      simp only [setStatus, found] at h
      refine ⟨link', h, rfl, fun status => ⟨?_, status⟩⟩
      rintro rfl
      rw [found] at h
      cases h
  | some link =>
      rw [setStatus_of_some status found] at h
      by_cases same : address' = address
      · subst same
        rw [Function.update_self] at h
        cases h
        exact ⟨link, found, rfl, fun status => by cases status⟩
      · rw [Function.update_of_ne same] at h
        exact ⟨link', h, rfl, fun status => ⟨same, status⟩⟩

@[simp]
theorem setStatus_connecting (s : State Addr) (address : Addr) (status : Bool) :
    (s.setStatus address status).connecting = s.connecting := by
  simp only [setStatus]
  split <;> rfl

@[simp]
theorem setStatus_latest (s : State Addr) (address : Addr) (status : Bool) :
    (s.setStatus address status).latest = s.latest := by
  simp only [setStatus]
  split <;> rfl

@[simp]
theorem setStatus_taken (s : State Addr) (address : Addr) (status : Bool) :
    (s.setStatus address status).taken = s.taken := by
  simp only [setStatus]
  split <;> rfl

@[simp]
theorem setStatus_negotiating (s : State Addr) (address : Addr) (status : Bool) :
    (s.setStatus address status).negotiating = s.negotiating := by
  simp only [setStatus]
  split <;> rfl

@[simp]
theorem setStatus_loop (s : State Addr) (address : Addr) (status : Bool) :
    (s.setStatus address status).loop = s.loop := by
  simp only [setStatus]
  split <;> rfl

/-- A status of nil belongs to a connection negotiated since the latest
interrupt. -/
def Negotiated (s : State Addr) : Prop :=
  ∀ address link, s.clusterCache address = some link → link.status = none →
    s.negotiating address = true

theorem Negotiated.step {e : Event Addr} {o : Output Addr} (inv : s.Negotiated)
    (h : s.step e = some (s', o)) : s'.Negotiated := by
  intro address link found status
  cases step_moves h with
  | quiet _ cache _ _ negotiating _ =>
      rw [cache] at found
      rw [negotiating]
      exact inv address link found status
  | dropped _ _ _ _ _ _ _ cache _ negotiating _ =>
      rw [cache] at found
      rw [negotiating]
      exact inv address link found status
  | entered _ _ _ _ _ _ cache negotiating _ =>
      rw [cache] at found
      rw [negotiating]
      exact inv address link found status
  | reconnected address' peer link' _ cache _ _ negotiating _ _ =>
      rw [cache] at found
      rw [negotiating]
      by_cases same : address = address'
      · subst same
        exact Function.update_self _ _ _
      · rw [Function.update_of_ne same] at found ⊢
        exact inv address link found status
  | opened address' =>
      obtain ⟨link', found', _, kept⟩ := setStatus_cache found
      rw [setStatus_negotiating]
      exact inv address link' found' (kept status).2
  | interrupted address' =>
      obtain ⟨link', found', _, kept⟩ := setStatus_cache found
      rw [setStatus_negotiating]
      have same := kept status
      change Function.update s.negotiating address' false address = true
      rw [Function.update_of_ne same.1]
      exact inv address link' found' same.2
  | moved address' data clustersender _ =>
      by_cases same : address = address'
      · subst same
        exact Function.update_self _ _ _
      · change Function.update s.clusterCache address' _ address = some link at found
        change Function.update s.negotiating address' true address = true
        rw [Function.update_of_ne same] at found ⊢
        exact inv address link found status

/-- A reconnection of the address is being negotiated since the latest
interrupt. -/
def negotiates (s : State Addr) (address : Addr) : Bool :=
  s.toAccept address && s.negotiating address

/-- What `CMD.cluster_ok` has to do. -/
def Proper (s : State Addr) (address : Addr) (o : Output Addr) (s' : State Addr) : Prop :=
  o ≠ .raised ∧ s' = if s.negotiates address then s.setStatus address true else s

/-- The address is linked and not interrupted. -/
def Linked (s : State Addr) (address : Addr) : Prop :=
  ∃ link, s.clusterCache address = some link ∧ link.status ≠ some false

theorem setStatus_true_of_true {address : Addr} {link : Link}
    (found : s.clusterCache address = some link) (status : link.status = some true) :
    s.setStatus address true = s := by
  have same : ({ link with status := some true } : Link) = link := by rw [← status]
  simp only [setStatus, found, same]
  rw [← found, Function.update_eq_self]

theorem setStatus_true_ne {address : Addr} {link : Link}
    (found : s.clusterCache address = some link) (status : link.status = some false) :
    s.setStatus address true ≠ s := by
  intro same
  have cache := congrFun (setStatus_of_some true found) address
  rw [same, found, Function.update_self, Option.some.injEq] at cache
  have := congrArg Link.status cache
  rw [status] at this
  cases this

theorem proper_iff_linked {address : Addr} {o : Output Addr} (inv : s.Negotiated)
    (h : s.step (.clusterOk address) = some (s', o)) :
    s.Proper address o s' ↔ s.Linked address := by
  cases found : s.clusterCache address with
  | none =>
      simp only [step, found, Option.some.injEq, Prod.mk.injEq] at h
      constructor
      · intro proper
        exact absurd h.2.symm proper.1
      · rintro ⟨link, linked, _⟩
        rw [found] at linked
        cases linked
  | some link =>
      simp only [step, found, Option.some.injEq, Prod.mk.injEq] at h
      obtain ⟨rfl, rfl⟩ := h
      cases status : link.status with
      | none =>
          have negotiates : s.negotiates address = true := by
            simp [State.negotiates, toAccept, found, status, inv address link found status]
          refine iff_of_true ⟨by simp, ?_⟩ ⟨link, found, by simp [status]⟩
          rw [negotiates, if_pos rfl]
      | some value =>
          have idle : s.negotiates address = false := by
            simp [State.negotiates, toAccept, found, status]
          cases value with
          | true =>
              refine iff_of_true ⟨by simp, ?_⟩ ⟨link, found, by simp [status]⟩
              rw [idle]
              exact setStatus_true_of_true found status
          | false =>
              refine iff_of_false ?_ ?_
              · intro proper
                have same := proper.2
                rw [idle] at same
                exact setStatus_true_ne found status same
              · rintro ⟨link', linked, open'⟩
                rw [found] at linked
                cases linked
                exact open' status

end State

/-- In every run, the handlings of `cluster_ok` are all proper exactly if each
finds its address linked and not interrupted. -/
theorem clusterOk_proper_iff {known : Addr → Bool}
    {trace : List (Event Addr × State Addr × Output Addr × State Addr)} {s : State Addr}
    (reach : (machine known).record.Reach trace s) :
    (∀ x ∈ trace, ∀ address, x.1 = .clusterOk address →
        x.2.1.Proper address x.2.2.1 x.2.2.2) ↔
      ∀ x ∈ trace, ∀ address, x.1 = .clusterOk address → x.2.1.Linked address := by
  refine (Machine.Reach.record_forall_iff (M := machine known) State.Negotiated
    (P := fun s e o s' => ∀ address, e = .clusterOk address → s.Proper address o s')
    (Q := fun s e _ _ => ∀ address, e = .clusterOk address → s.Linked address)
    ?_ ?_ ?_ reach).2
  · intro address link found
    cases found
  · intro s e s' o inv step
    exact inv.step step
  · intro s e s' o inv step
    constructor
    · rintro proper address rfl
      exact (State.proper_iff_linked inv step).1 (proper address rfl)
    · rintro linked address rfl
      exact (State.proper_iff_linked inv step).2 (linked address rfl)

/-- A first connection, up to the accept the cross node sends. -/
def connected : List (Event Nat) :=
  [.accept 0 1 ⟨7, 3⟩, .wake, .visit 1, .gotSender (some 100), .loopEnd, .wake]

theorem clusterOk_proper_run :
    ∃ trace s, (machine fun _ : Nat => true).record.Reach trace s ∧
      s.clusterCache 1 = some ⟨⟨7, 3⟩, 100, some true⟩ ∧
      ∀ x ∈ trace, ∀ address, x.1 = .clusterOk address →
        x.2.1.Proper address x.2.2.1 x.2.2.2 := by
  have run : ∃ s, (machine fun _ : Nat => true).record.exec (machine fun _ => true).init
      connected = some s ∧ s.clusterCache 1 = some ⟨⟨7, 3⟩, 100, none⟩ := ⟨_, rfl, rfl⟩
  obtain ⟨s, run, found⟩ := run
  obtain ⟨trace, labels, reach⟩ := Machine.Reach.init.exec_events run
  have step : (machine fun _ : Nat => true).record.step s (.clusterOk 1) =
      some (s.setStatus 1 true, s, .done, s.setStatus 1 true) := by
    simp [Machine.record, machine, State.step, found]
  refine ⟨_, _, reach.next step, ?_, (clusterOk_proper_iff (reach.next step)).2 ?_⟩
  · rw [State.setStatus_of_some true found, Function.update_self]
  · intro x mem address label
    rw [List.nil_append, List.mem_append, List.mem_singleton] at mem
    rcases mem with before | rfl
    · have other : x.1 ∈ trace.map Prod.fst := List.mem_map_of_mem before
      rw [labels, label] at other
      simp [connected] at other
    · cases label
      exact ⟨_, found, by simp⟩

/-- A `cluster_ok` behind an interrupt opens the link again, and one for an
unknown address raises. -/
theorem stale_clusterOk_revives :
    ∃ trace s s', (machine fun _ : Nat => true).Reach trace s ∧
      s.clusterCache 1 = some ⟨⟨7, 3⟩, 100, some false⟩ ∧
      s.step (.clusterOk 1) = some (s', .done) ∧
      s'.clusterCache 1 = some ⟨⟨7, 3⟩, 100, some true⟩ ∧ ¬ s.Proper 1 .done s' ∧
      s.step (.clusterOk 2) = some (s, .raised) := by
  have run : ∃ s, (machine fun _ : Nat => true).exec (machine fun _ => true).init
      (connected ++ [.interrupt 1]) = some s ∧
      s.clusterCache 1 = some ⟨⟨7, 3⟩, 100, some false⟩ ∧ s.clusterCache 2 = none :=
    ⟨_, rfl, rfl, rfl⟩
  obtain ⟨s, run, found, absent⟩ := run
  obtain ⟨trace, reach⟩ := Machine.Reach.init.exec run
  refine ⟨trace, s, s.setStatus 1 true, reach, found, ?_, ?_, ?_, ?_⟩
  · simp only [State.step, found]
  · rw [State.setStatus_of_some true found, Function.update_self]
  · intro proper
    have idle : s.negotiates 1 = false := by simp [State.negotiates, State.toAccept, found]
    have same := proper.2
    rw [idle] at same
    exact State.setStatus_true_ne found rfl same
  · simp only [State.step, absent]

end Cross

end Qiuqiu.Cluster
