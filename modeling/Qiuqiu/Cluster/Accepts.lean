import Qiuqiu.Cluster.Cross

/-!
The accepts of the cross node. `LoopDeal` reads a record of `CONNECTING`, is
suspended by `cluster.get_sender` and then clears the address and stores the
record it read. An accept that replaces the record in between is lost, and so is
one that `CMD.accept` drops because the link is not, or no longer, interrupted or
`changenode` fails. Without these the cache has the latest accept.
-/
namespace Qiuqiu.Cluster
namespace Cross
variable {Addr : Type} [DecidableEq Addr]

namespace State
variable {s s' : State Addr}

/-- The cache has the latest accept of an address, and no accept put into a table is dropped. -/
structure NoLostAccept (s : State Addr) : Prop where
  stored : ∀ address link, s.clusterCache address = some link → s.latest address = some link.peer
  kept : ∀ address peer, s.taken address = some peer →
    s.connecting address = some peer ∨
      ∃ link, s.clusterCache address = some link ∧ link.peer = peer

/-- `LoopDeal` stores a record that is still the one in `CONNECTING`. -/
def storesCurrent (s : State Addr) : Event Addr → Bool
  | .gotSender (some _) =>
      match s.loop with
      | .gettingSender address data => s.connecting address = some data
      | _ => true
  | _ => true

/-- No accept is lost in a step. -/
def StoresAll (s : State Addr) (e : Event Addr) : Prop := s.storesCurrent e ∧ s.storesAccept e

/-- The tables at one address. -/
structure SoundAt (s : State Addr) (address : Addr) : Prop where
  stored : ∀ link, s.clusterCache address = some link → s.latest address = some link.peer
  kept : ∀ peer, s.latest address = some peer →
    s.connecting address = some peer ∨
      ∃ link, s.clusterCache address = some link ∧ link.peer = peer
  waiting : ∀ peer, s.connecting address = some peer →
    s.latest address = some peer ∧ s.clusterCache address = none

/-- The invariant of the tables. -/
structure Sound (s : State Addr) : Prop where
  tables : ∀ address, s.SoundAt address
  held : ∀ address data, s.loop = .gettingSender address data →
    ∃ peer, s.connecting address = some peer
  taken : s.taken = s.latest

omit [DecidableEq Addr] in
theorem Sound.noLost (sound : s.Sound) : s.NoLostAccept where
  stored := fun address => (sound.tables address).stored
  kept := by
    intro address peer last
    rw [sound.taken] at last
    exact (sound.tables address).kept peer last

omit [DecidableEq Addr] in
/-- Nothing else of the cache matters than the peers. -/
theorem SoundAt.congr {address : Addr} (sound : s.SoundAt address)
    (connecting : s'.connecting address = s.connecting address)
    (latest : s'.latest address = s.latest address)
    (cache : (s'.clusterCache address).map Link.peer = (s.clusterCache address).map Link.peer) :
    s'.SoundAt address where
  stored := by
    intro link found
    rw [found, Option.map_some] at cache
    obtain ⟨old, found', same⟩ := Option.map_eq_some_iff.1 cache.symm
    rw [latest, ← same]
    exact sound.stored old found'
  kept := by
    intro peer last
    rw [latest] at last
    rw [connecting]
    refine (sound.kept peer last).imp_right ?_
    rintro ⟨link, found, same⟩
    rw [found, Option.map_some, same] at cache
    exact Option.map_eq_some_iff.1 cache
  waiting := by
    intro peer here
    rw [connecting] at here
    rw [latest]
    refine ⟨(sound.waiting peer here).1, ?_⟩
    rw [(sound.waiting peer here).2, Option.map_none] at cache
    exact Option.map_eq_none_iff.1 cache

omit [DecidableEq Addr] in
theorem Sound.of_cache (sound : s.Sound) (connecting : s'.connecting = s.connecting)
    (latest : s'.latest = s.latest) (taken : s'.taken = s.taken)
    (held : ∀ address data, s'.loop = .gettingSender address data →
      s.loop = .gettingSender address data ∨ s.connecting address = some data)
    (cache : ∀ address, (s'.clusterCache address).map Link.peer =
      (s.clusterCache address).map Link.peer) : s'.Sound := by
  refine ⟨fun address => (sound.tables address).congr ?_ ?_ (cache address), ?_, ?_⟩
  · rw [connecting]
  · rw [latest]
  · intro address data loop
    rw [connecting]
    cases held address data loop with
    | inl before => exact sound.held address data before
    | inr here => exact ⟨data, here⟩
  · rw [taken, sound.taken, latest]

theorem setStatus_peer (s : State Addr) (address : Addr) (status : Bool) (address' : Addr) :
    ((s.setStatus address status).clusterCache address').map Link.peer =
      (s.clusterCache address').map Link.peer := by
  cases found : s.clusterCache address with
  | none => simp only [setStatus, found]
  | some link =>
      rw [setStatus_of_some status found]
      by_cases same : address' = address
      · subst same
        rw [Function.update_self, found]
        rfl
      · rw [Function.update_of_ne same]

/-- A dropped accept that the cache has is the latest one already. -/
theorem Sound.dropped (sound : s.Sound) {address : Addr} {link : Link}
    (found : s.clusterCache address = some link)
    (latest : s'.latest = Function.update s.latest address (some link.peer))
    (connecting : s'.connecting = s.connecting) (cache : s'.clusterCache = s.clusterCache)
    (taken : s'.taken = s.taken) (loop : s'.loop = s.loop) : s'.Sound := by
  rw [← (sound.tables address).stored link found, Function.update_eq_self] at latest
  refine sound.of_cache connecting latest taken ?_ fun address => by rw [cache]
  intro address data holds
  exact .inl (loop ▸ holds)

theorem Sound.entered (sound : s.Sound) {address : Addr} {peer : Peer}
    (absent : s.clusterCache address = none)
    (connecting : s'.connecting = Function.update s.connecting address (some peer))
    (latest : s'.latest = Function.update s.latest address (some peer))
    (taken : s'.taken = Function.update s.taken address (some peer))
    (cache : s'.clusterCache = s.clusterCache) (loop : s'.loop = s.loop) : s'.Sound := by
  have now : s'.connecting address = some peer := by rw [connecting, Function.update_self]
  have last : s'.latest address = some peer := by rw [latest, Function.update_self]
  rw [← cache] at absent
  refine ⟨?_, ?_, by rw [taken, sound.taken, latest]⟩
  · intro address'
    by_cases same : address' = address
    · subst same
      exact
        { stored := fun link found => by simp [absent] at found
          kept := fun peer' last' => .inl (by rwa [now, ← last])
          waiting := fun peer' here => ⟨by rwa [last, ← now], absent⟩ }
    · refine (sound.tables address').congr ?_ ?_ (by rw [cache])
      · rw [connecting, Function.update_of_ne same]
      · rw [latest, Function.update_of_ne same]
  · intro address' data holds
    rw [loop] at holds
    by_cases same : address' = address
    · subst same
      exact ⟨peer, now⟩
    · rw [connecting, Function.update_of_ne same]
      exact sound.held address' data holds

omit [DecidableEq Addr] in
/-- The cache takes the latest accept of an address that does not wait. -/
theorem SoundAt.of_link {address : Addr} {link : Link} (found : s.clusterCache address = some link)
    (last : s.latest address = some link.peer) (gone : s.connecting address = none) :
    s.SoundAt address where
  stored := by
    intro link' found'
    rw [found] at found'
    cases found'
    exact last
  kept := by
    intro peer last'
    rw [last] at last'
    cases last'
    exact .inr ⟨link, found, rfl⟩
  waiting := by
    intro peer here
    rw [gone] at here
    cases here

theorem Sound.reconnected (sound : s.Sound) {address : Addr} {peer : Peer} {link : Link}
    (found : s.clusterCache address = some link)
    (cache : s'.clusterCache =
      Function.update s.clusterCache address (some { link with peer := peer, status := none }))
    (latest : s'.latest = Function.update s.latest address (some peer))
    (taken : s'.taken = Function.update s.taken address (some peer))
    (connecting : s'.connecting = s.connecting) (loop : s'.loop = s.loop) : s'.Sound := by
  have gone : s.connecting address = none := by
    by_contra waits
    obtain ⟨peer', here⟩ := Option.ne_none_iff_exists'.1 waits
    rw [((sound.tables address).waiting peer' here).2] at found
    cases found
  refine ⟨?_, ?_, by rw [taken, sound.taken, latest]⟩
  · intro address'
    by_cases same : address' = address
    · subst same
      refine .of_link (by rw [cache, Function.update_self]) ?_ (by rw [connecting, gone])
      rw [latest, Function.update_self]
    · refine (sound.tables address').congr (by rw [connecting]) ?_ ?_
      · rw [latest, Function.update_of_ne same]
      · rw [cache, Function.update_of_ne same]
  · intro address' data holds
    rw [loop] at holds
    rw [connecting]
    exact sound.held address' data holds

theorem Sound.moved (sound : s.Sound) {address : Addr} {data : Peer} {clustersender : Nat}
    (current : s.connecting address = some data) : (s.move address data clustersender).Sound := by
  refine ⟨?_, ?_, sound.taken⟩
  · intro address'
    by_cases same : address' = address
    · subst same
      exact .of_link (Function.update_self _ _ _) ((sound.tables address').waiting data current).1
        (Function.update_self _ _ _)
    · refine (sound.tables address').congr ?_ rfl ?_
      · exact Function.update_of_ne same _ _
      · exact congrArg _ (Function.update_of_ne same _ _)
  · intro address' data' loop
    cases loop

theorem Sound.step {e : Event Addr} {o : Output Addr} (sound : s.Sound)
    (stores : s.StoresAll e) (h : s.step e = some (s', o)) : s'.Sound := by
  obtain ⟨current, accept⟩ := stores
  cases step_moves h with
  | quiet connecting cache latest taken _ held =>
      exact sound.of_cache connecting latest taken held fun address => by rw [cache]
  | dropped address peer link found fits latest connecting cache taken _ loop =>
      rw [← fits.mp accept] at latest
      exact sound.dropped found latest connecting cache taken loop
  | entered address peer absent connecting latest taken cache _ loop =>
      exact sound.entered absent connecting latest taken cache loop
  | reconnected address peer link found cache latest taken _ connecting loop =>
      exact sound.reconnected found cache latest taken connecting loop
  | opened address =>
      refine sound.of_cache (setStatus_connecting _ _ _) (setStatus_latest _ _ _)
        (setStatus_taken _ _ _) ?_ (setStatus_peer s address true)
      intro address' data loop
      rw [setStatus_loop] at loop
      exact .inl loop
  | interrupted address =>
      refine sound.of_cache (setStatus_connecting _ _ _) (setStatus_latest _ _ _)
        (setStatus_taken _ _ _) ?_ (setStatus_peer _ address false)
      intro address' data loop
      rw [setStatus_loop] at loop
      exact .inl loop
  | moved address data clustersender loop =>
      simp only [storesCurrent, loop, decide_eq_true_eq] at current
      exact sound.moved current

/-- A step that does not meet the condition stores a replaced record. -/
theorem replaced_of_not_current {e : Event Addr} {o : Output Addr}
    (replaced : s.storesCurrent e = false) (h : s.step e = some (s', o)) :
    ∃ address data clustersender, s.loop = .gettingSender address data ∧
      s.connecting address ≠ some data ∧ s' = s.move address data clustersender := by
  cases e with
  | gotSender clustersender =>
      cases clustersender with
      | none => cases replaced
      | some clustersender =>
          cases loop : s.loop with
          | gettingSender address data =>
              simp only [storesCurrent, loop, decide_eq_false_iff_not] at replaced
              simp only [State.step, loop, Option.some.injEq, Prod.mk.injEq] at h
              exact ⟨address, data, clustersender, rfl, replaced, h.1.symm⟩
          | _ => simp [storesCurrent, loop] at replaced
  | _ => cases replaced

/-- The accept that replaced the record is lost. -/
theorem lost_of_not_current {e : Event Addr} {o : Output Addr} (sound : s.Sound)
    (replaced : s.storesCurrent e = false) (h : s.step e = some (s', o)) :
    ¬ s'.NoLostAccept := by
  obtain ⟨address, data, clustersender, loop, other, rfl⟩ := replaced_of_not_current replaced h
  intro noLost
  obtain ⟨peer, here⟩ := sound.held address data loop
  have last := ((sound.tables address).waiting peer here).1
  have stored : s.latest address = some data :=
    noLost.stored address ⟨data, clustersender, none⟩ (Function.update_self _ _ _)
  rw [last, Option.some.injEq] at stored
  exact other (stored ▸ here)

omit [DecidableEq Addr] in
theorem not_fits {address : Addr} {peer : Peer} {opens : Bool}
    (drops : s.fits address peer opens = false) :
    ∃ link, s.clusterCache address = some link ∧ ¬ (opens = true ∧ link.status = some false) ∧
      link.peer ≠ peer := by
  cases found : s.clusterCache address with
  | none => simp [fits, found] at drops
  | some link =>
      simp only [fits, found, Option.all_some, Bool.or_eq_false_iff, Bool.and_eq_false_iff,
        decide_eq_false_iff_not] at drops
      refine ⟨link, rfl, ?_, drops.2⟩
      rintro ⟨rfl, open'⟩
      cases drops.1 with
      | inl closed => cases closed
      | inr closed => exact closed open'

theorem acceptBody_of_not_fits {address : Addr} {peer : Peer} (c : Nat)
    (drops : s.fits address peer true = false) :
    ∃ link, s.clusterCache address = some link ∧ link.peer ≠ peer ∧
      s.acceptBody c address peer = s.accepted c address peer := by
  obtain ⟨link, found, closed, other⟩ := not_fits drops
  refine ⟨link, found, other, ?_⟩
  simp only [acceptBody, found]
  exact if_neg fun status => closed ⟨rfl, status⟩

theorem reconnect_of_not_fits {address : Addr} {peer : Peer} {succeeds : Bool} (c : Nat)
    (drops : s.fits address peer succeeds = false) :
    ∃ link, s.clusterCache address = some link ∧ link.peer ≠ peer ∧
      s.reconnect c address peer succeeds = s.accepted c address peer := by
  obtain ⟨link, found, closed, other⟩ := not_fits drops
  refine ⟨link, found, other, ?_⟩
  simp only [reconnect, found]
  exact if_neg closed

theorem dropped_of_not_stored {e : Event Addr} {o : Output Addr}
    (drops : s.storesAccept e = false) (h : s.step e = some (s', o)) :
    ∃ c address peer link, s.clusterCache address = some link ∧ link.peer ≠ peer ∧
      s' = s.accepted c address peer := by
  cases e with
  | accept c address peer =>
      simp only [storesAccept, Bool.or_eq_false_iff, Bool.not_eq_false'] at drops
      obtain ⟨link, found, other, body⟩ := acceptBody_of_not_fits c drops.2
      simp only [State.step, drops.1, if_true, body] at h
      split at h
      · cases h
        exact ⟨c, address, peer, link, found, other, rfl⟩
      · cases h
  | reloaded c returns =>
      simp only [State.step] at h
      split at h
      · rename_i address peer reloading
        simp only [storesAccept, reloading, Bool.or_eq_false_iff, Bool.not_eq_false'] at drops
        obtain ⟨link, found, other, body⟩ := acceptBody_of_not_fits c drops.2
        simp only [drops.1, if_true, body] at h
        cases h
        exact ⟨c, address, peer, link, found, other, rfl⟩
      · cases h
  | changed c succeeds =>
      simp only [State.step] at h
      split at h
      · rename_i address peer changing
        simp only [storesAccept, changing] at drops
        obtain ⟨link, found, other, body⟩ := reconnect_of_not_fits c drops
        rw [body] at h
        cases h
        exact ⟨c, address, peer, link, found, other, rfl⟩
      · cases h
  | _ => cases drops

/-- An accept that `CMD.accept` drops is lost, unless the cache has it. -/
theorem lost_of_not_stored {e : Event Addr} {o : Output Addr}
    (drops : s.storesAccept e = false) (h : s.step e = some (s', o)) : ¬ s'.NoLostAccept := by
  obtain ⟨c, address, peer, link, found, other, rfl⟩ := dropped_of_not_stored drops h
  intro noLost
  have stored := noLost.stored address link found
  change Function.update s.latest address (some peer) address = _ at stored
  rw [Function.update_self, Option.some.injEq] at stored
  exact other stored.symm

end State

/-- Along every run no accept is lost exactly when `LoopDeal` stores only records that were not
replaced meanwhile and `CMD.accept` drops only accepts that the cache has. -/
theorem noLostAccept_iff_storesAll {known : Addr → Bool}
    {trace : List (Event Addr × State Addr × Output Addr × State Addr)} {s : State Addr}
    (reach : (machine known).record.Reach trace s) :
    (∀ x ∈ trace, x.2.2.2.NoLostAccept) ↔ ∀ x ∈ trace, x.2.1.StoresAll x.1 := by
  refine reach.states_iff State.Sound ?_ ?_ ?_ ?_
  · exact
      { tables := fun address =>
          { stored := fun link found => by cases found
            kept := fun peer last => by cases last
            waiting := fun peer here => by cases here }
        held := fun address data loop => by cases loop
        taken := rfl }
  · intro s e s' o sound step stores
    exact sound.step stores step
  · intro s sound
    exact sound.noLost
  · intro s e s' o sound step noLost
    constructor
    · by_contra replaced
      exact State.lost_of_not_current sound (Bool.eq_false_iff.mpr replaced) step noLost
    · by_contra dropped
      exact State.lost_of_not_stored (Bool.eq_false_iff.mpr dropped) step noLost

/-- A first connection, a repeated accept, an interrupt and a reconnection by another agent. -/
theorem noLostAccept_run :
    ∃ trace s, (machine fun _ : Nat => true).record.Reach trace s ∧
      s.clusterCache 1 = some ⟨⟨8, 3⟩, 100, none⟩ ∧ ∀ x ∈ trace, x.2.2.2.NoLostAccept := by
  have reach : (machine fun _ : Nat => true).record.Reach _ _ :=
    .next (.next (.next (.next (.next (.next (.next (.next .init (e := .accept 0 1 ⟨7, 3⟩) rfl)
      (e := .wake) rfl) (e := .visit 1) rfl) (e := .gotSender (some 100)) rfl)
      (e := .accept 0 1 ⟨7, 3⟩) rfl) (e := .interrupt 1) rfl) (e := .accept 0 1 ⟨8, 3⟩) rfl)
      (e := .changed 0 true) rfl
  refine ⟨_, _, reach, rfl, (noLostAccept_iff_storesAll reach).mpr ?_⟩
  simp only [List.nil_append, List.cons_append, List.forall_mem_cons]
  exact ⟨⟨rfl, rfl⟩, ⟨rfl, rfl⟩, ⟨rfl, rfl⟩, ⟨rfl, rfl⟩, ⟨rfl, rfl⟩, ⟨rfl, rfl⟩, ⟨rfl, rfl⟩,
    ⟨rfl, rfl⟩, List.forall_mem_nil _⟩

/-- An accept of a new agent, handled while `LoopDeal` waits for the sender. -/
theorem accept_lost :
    ∃ trace s, (machine fun _ : Nat => true).record.Reach trace s ∧
      s.latest 1 = some ⟨8, 3⟩ ∧ s.connecting 1 = none ∧
      s.clusterCache 1 = some ⟨⟨7, 3⟩, 100, none⟩ ∧ ¬ ∀ x ∈ trace, x.2.2.2.NoLostAccept := by
  have reach : (machine fun _ : Nat => true).record.Reach _ _ :=
    .next (.next (.next (.next (.next .init (e := .accept 0 1 ⟨7, 3⟩) rfl)
      (e := .wake) rfl) (e := .visit 1) rfl) (e := .accept 0 1 ⟨8, 3⟩) rfl)
      (e := .gotSender (some 100)) rfl
  refine ⟨_, _, reach, rfl, rfl, rfl, fun all => ?_⟩
  have noLost := all _ (List.mem_append_right _ List.mem_cons_self)
  have stored := noLost.stored 1 _ rfl
  cases stored

end Cross

end Qiuqiu.Cluster
