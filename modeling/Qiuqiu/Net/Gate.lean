import Mathlib.Data.List.Perm.Subperm
import Qiuqiu.Net.Gateserver

/-!
What the gate dispatches over a whole run: the packages of the streams, each once and in the
order in which they were complete, whatever the handler does; and to how many clients.
-/
namespace Qiuqiu.Net.Gateserver
open Netpack

/-- The streams of the sockets: what each has left over, and the packages that are complete. -/
structure Streams where
  rest : Nat → Bytes
  completed : List Pack

def Streams.receive (t : Streams) : SocketMessage → Streams
  | .data id byte buffer =>
      let parts := framing.split (t.rest id ++ byte :: buffer)
      ⟨Function.update t.rest id parts.2, t.completed ++ parts.1.map (Pack.of id)⟩
  | .close id | .error id _ => { t with rest := Function.update t.rest id [] }
  | _ => t

def Streams.note (t : Streams) : Event → Streams
  | .message m => t.receive m
  | _ => t

/-- The streams behind a run. -/
def streams (trace : List (Event × List Action)) : Streams :=
  trace.foldl (fun t x => t.note x.1) ⟨fun _ => [], []⟩

/-- The package that an action dispatches, to the handler or not. -/
def Action.dispatched : Action → Option Pack
  | .message fd msg size | .drop fd msg size => some ⟨fd, size, msg⟩
  | _ => none

def dispatched (trace : List (Event × List Action)) : List Pack :=
  (trace.flatMap Prod.snd).filterMap Action.dispatched

/-- Every package that is complete has been dispatched or is in the queue; it is empty when
no coroutine has to begin. -/
def Delivers (t : Streams) (out : List Pack) (s : State) : Prop :=
  ∃ packs, Holds s.queue packs t.rest ∧ t.completed = out ++ packs ∧ (s.forks = 0 → packs = [])

variable {maxclient : Int} {s s' : State} {e : Event} {o : List Action} {t : Streams}
  {out packs : List Pack} {rest : Nat → Bytes} {trace : List (Event × List Action)}
  {m : SocketMessage}

theorem dispatchMsg_dispatched (s : State) (fd : Nat) (msg : Bytes) (size : Nat) :
    (s.dispatchMsg fd msg size).dispatched = some ⟨fd, size, msg⟩ := by
  rw [State.dispatchMsg]
  split <;> rfl

theorem popMsg_nil (holds : Holds s.queue [] rest) : s.popMsg = none := by
  rw [State.popMsg, pop, holds.ring.pop_nil]
  rfl

theorem popMsg_cons {p : Pack} (holds : Holds s.queue (p :: packs) rest) :
    ∃ q, s.popMsg = some ({ s with queue := q }, s.dispatchMsg p.id p.buffer p.size) ∧
      Holds q packs rest := by
  obtain ⟨ring, popped, held⟩ := holds.ring.pop_cons
  refine ⟨{ s.queue with ring := ring }, ?_, held, holds.fits, holds.chains, holds.nodup⟩
  rw [State.popMsg, pop, popped]
  rfl

/-- A message keeps the queue of the gate as its filter leaves it. -/
theorem dispatch_queue_eq (s : State) (filtered : Option Result) :
    (s.dispatch maxclient filtered).1.queue = s.queue := by
  cases filtered with
  | none => rfl
  | some result =>
      cases result with
      | data | more | error | warning | init => rfl
      | «open» fd msg =>
          rw [State.dispatch, State.msgOpen]
          split <;> rfl
      | close fd =>
          rw [State.dispatch, State.msgClose]
          dsimp only
          split
          · split <;> rfl
          · rfl

theorem account_eq (counted : s.account m = some s') :
    ∃ accepted, s' = { s with accepted := accepted } := by
  cases m with
  | data | connect | error | warning => exact ⟨s.accepted, (Option.some.inj counted).symm⟩
  | accept id ud addr =>
      rw [State.account] at counted
      split at counted
      · cases counted
      · exact ⟨_, (Option.some.inj counted).symm⟩
  | close id =>
      rw [State.account] at counted
      split at counted
      · exact ⟨s.accepted, (Option.some.inj counted).symm⟩
      · split at counted
        · exact ⟨_, (Option.some.inj counted).symm⟩
        · cases counted

/-- A message other than a read of data dispatches no package. -/
theorem dispatch_quiet {filtered : Option Result} (other : ∀ fd msg size,
    filtered ≠ some (.data fd msg size)) (no_more : filtered ≠ some .more) :
    (s.dispatch maxclient filtered).2.filterMap Action.dispatched = [] := by
  cases filtered with
  | none => rfl
  | some result =>
      cases result with
      | data fd msg size => exact absurd rfl (other fd msg size)
      | more => exact absurd rfl no_more
      | warning | init => rfl
      | error fd msg =>
          rw [State.dispatch, State.msgError]
          dsimp only
          split <;> rfl
      | «open» fd msg =>
          rw [State.dispatch, State.msgOpen]
          dsimp only
          split <;> rfl
      | close fd =>
          rw [State.dispatch, State.msgClose]
          dsimp only
          split
          · split <;> rfl
          · rfl

theorem quiet_delivers (filtered : Option Result) (holds : Holds s.queue [] rest)
    (other : ∀ fd msg size, filtered ≠ some (.data fd msg size))
    (no_more : filtered ≠ some .more) :
    Delivers ⟨rest, out⟩ (out ++ (s.dispatch maxclient filtered).2.filterMap Action.dispatched)
      (s.dispatch maxclient filtered).1 := by
  rw [dispatch_quiet other no_more, List.append_nil]
  refine ⟨[], ?_, (List.append_nil out).symm, fun _ => rfl⟩
  rw [dispatch_queue_eq]
  exact holds

theorem message_delivers (inv : Delivers t out s)
    (took : s.message maxclient m = some (s', o)) :
    Delivers (t.receive m) (out ++ o.filterMap Action.dispatched) s' := by
  obtain ⟨packs, holds, all, drained⟩ := inv
  rw [State.message] at took
  split at took
  · rename_i no_forks
    obtain ⟨s₁, counted, eq⟩ := Option.map_eq_some_iff.mp took
    obtain ⟨accepted, same⟩ := account_eq counted
    subst same
    rw [drained no_forks] at holds all
    rw [List.append_nil] at all
    have actions := congrArg Prod.snd eq
    have state := congrArg Prod.fst eq
    dsimp only at actions state
    subst state actions all
    cases m with
    | data id byte buffer =>
        have passes := filterData_passes holds id byte buffer
        change Delivers ⟨Function.update t.rest id _, t.completed ++ _⟩ _ _
        change Passes _ _ _ _ (Netpack.filter s.queue (.data id byte buffer)) at passes
        generalize Netpack.filter s.queue (.data id byte buffer) = filtered at passes ⊢
        obtain ⟨q, result⟩ := filtered
        match result, passes with
        | none, ⟨nothing, held⟩ =>
            rw [nothing, List.map_nil, List.append_nil]
            exact quiet_delivers none held (by simp) (by simp)
        | some (.data fd msg size), ⟨one, here, full, held⟩ =>
            subst here full
            rw [one]
            refine ⟨[], held, ?_, fun _ => rfl⟩
            change _ = (_ ++ List.filterMap Action.dispatched [_]) ++ []
            rw [List.filterMap_cons, dispatchMsg_dispatched, List.append_nil]
            rfl
        | some .more, ⟨_, held⟩ =>
            refine ⟨_, held, ?_, fun stop => absurd stop (Nat.succ_ne_zero _)⟩
            change _ = (_ ++ []) ++ _
            rw [List.append_nil, List.nil_append]
    | close id =>
        exact quiet_delivers (some (.close id)) (closeUncomplete_holds holds id) (by simp)
          (by simp)
    | error id msg =>
        exact quiet_delivers (some (.error id msg)) (closeUncomplete_holds holds id) (by simp)
          (by simp)
    | connect id addr ud =>
        exact quiet_delivers (some (.init id addr ud)) holds (by simp) (by simp)
    | accept id ud addr =>
        exact quiet_delivers (some (.open ud addr)) holds (by simp) (by simp)
    | warning id ud =>
        exact quiet_delivers (some (.warning id ud)) holds (by simp) (by simp)
  · cases took

/-- A coroutine takes the first package, or finds the queue empty. -/
theorem popMsg_takes (holds : Holds s.queue packs rest) (out : List Pack) :
    (s.popMsg = none ∧ packs = []) ∨ ∃ q action packs',
      s.popMsg = some ({ s with queue := q }, action) ∧ Holds q packs' rest ∧
        out ++ packs = (out ++ [action].filterMap Action.dispatched) ++ packs' := by
  cases packs with
  | nil => exact .inl ⟨popMsg_nil holds, rfl⟩
  | cons p packs =>
      obtain ⟨q, popped, held⟩ := popMsg_cons holds
      refine .inr ⟨q, _, packs, popped, held, ?_⟩
      rw [List.filterMap_cons, dispatchMsg_dispatched, List.append_cons]
      rfl

theorem fork_delivers (inv : Delivers t out s) :
    Delivers t (out ++ s.fork.2.filterMap Action.dispatched) s.fork.1 := by
  obtain ⟨packs, holds, all, -⟩ := inv
  rw [State.fork]
  cases popMsg_takes (s := { s with forks := s.forks - 1 }) holds out with
  | inl empty =>
      obtain ⟨none_left, no_packs⟩ := empty
      subst no_packs
      rw [none_left]
      have nothing : out ++ [] = (out ++ [].filterMap Action.dispatched) ++ [] := by
        rw [List.filterMap_nil, List.append_nil, List.append_nil]
      exact ⟨[], holds, all.trans nothing, fun _ => rfl⟩
  | inr more =>
      obtain ⟨q, action, packs', popped, held, order⟩ := more
      rw [popped]
      exact ⟨packs', held, all.trans order, fun stop => absurd stop (Nat.succ_ne_zero _)⟩

theorem loop_delivers (inv : Delivers t out s) :
    Delivers t (out ++ s.loop.2.filterMap Action.dispatched) s.loop.1 := by
  obtain ⟨packs, holds, all, drained⟩ := inv
  rw [State.loop]
  cases popMsg_takes holds out with
  | inl empty =>
      rw [empty.1]
      exact ⟨packs, holds, all.trans (by rw [List.filterMap_nil, List.append_nil]), drained⟩
  | inr more =>
      obtain ⟨q, action, packs', popped, held, order⟩ := more
      rw [popped]
      refine ⟨packs', held, all.trans order, fun stop => ?_⟩
      -- packages are left only where a coroutine has to begin
      rw [drained stop, List.append_nil, List.append_assoc] at order
      have none_left := List.append_eq_nil_iff.mp (List.self_eq_append_right.mp order)
      exact none_left.2

theorem Delivers.taken {x : State × List Action} (took : some x = some (s', o))
    (now : Delivers t (out ++ x.2.filterMap Action.dispatched) x.1) :
    Delivers t (out ++ o.filterMap Action.dispatched) s' := by
  rwa [Option.some.inj took] at now

theorem step_delivers (inv : Delivers t out s) (took : step maxclient s e = some (s', o)) :
    Delivers (t.note e) (out ++ o.filterMap Action.dispatched) s' := by
  have quiet : Delivers t (out ++ List.filterMap Action.dispatched []) s := by
    rwa [List.filterMap_nil, List.append_nil]
  cases e with
  | message m => exact message_delivers inv took
  | fork =>
      rw [step] at took
      split at took
      · exact .taken took (fork_delivers inv)
      · cases took
  | first =>
      rw [step] at took
      split at took
      · exact .taken took (loop_delivers (s := { s with first := s.first - 1 }) inv)
      · cases took
  | loop cap =>
      rw [step] at took
      split at took
      · dsimp only at took
        split at took
        · exact .taken took (loop_delivers (s := { s with loops := s.loops.erase cap }) inv)
        · exact .taken took quiet
      · cases took
  | failFirst | failLoop cap | listen id =>
      rw [step] at took
      split at took
      · exact .taken took quiet
      · cases took
  | openclient fd =>
      rw [step] at took
      refine .taken took ?_
      dsimp only
      split <;> exact quiet
  | closeclient fd =>
      rw [step, State.closeclient] at took
      split at took <;> exact .taken took quiet

/-- Over every run of the gate, whatever its handler does: the packages dispatched, with those
in the queue, are the packages of the streams, each once and in the order in which they were
complete; none is in the queue when no coroutine has to begin. -/
theorem gate_delivers (reach : (machine maxclient).Reach trace s) :
    Delivers (streams trace) (dispatched trace) s := by
  induction reach with
  | init => exact ⟨[], .empty, rfl, fun _ => rfl⟩
  | @next trace s e s' o before took ih =>
      have next := step_delivers ih took
      rw [streams, List.foldl_append, dispatched, List.flatMap_append, List.filterMap_append,
        List.flatMap_singleton]
      exact next

/-- A handler that fails in the first of three packages; the fork takes the others. -/
theorem gate_delivers_failed : ∃ trace s, (machine 8).Reach trace s ∧
    (dispatched trace).map Pack.buffer = [[7], [], [8, 9]] ∧ s.forks = 0 ∧
      Delivers (streams trace) (dispatched trace) s := by
  have ran : ∃ trace s, (machine 8).run (machine 8).init
      [.message (.accept 1 5 []), .message (.data 5 0 []),
        .message (.data 5 1 [7, 0, 0, 0, 2, 8, 9]), .fork, .failFirst, .fork, .first, .fork] =
          some (trace, s) ∧
      (dispatched trace).map Pack.buffer = [[7], [], [8, 9]] ∧ s.forks = 0 :=
    ⟨_, _, rfl, rfl, rfl⟩
  obtain ⟨trace, s, ran, order, drained⟩ := ran
  exact ⟨trace, s, Machine.reach_run ran, order, drained, gate_delivers (Machine.reach_run ran)⟩

/-- The sockets whose packages the handler gets. -/
def connected (s : State) : List Nat := s.accepted.filter fun fd => s.connection fd = some true

/-- The gate counts the sockets that are open, and of these fewer than `maxclient` are
connected. -/
structure Counts (maxclient : Int) (s : State) : Prop where
  number : s.clientNumber = s.accepted.length
  nodup : s.accepted.Nodup
  known : ∀ fd, s.connection fd = some true → fd ∈ s.accepted
  fewer : ((connected s).length : Int) < maxclient

/-- Connections are closed, sockets stay. -/
theorem Counts.closed (counts : Counts maxclient s) {connection : Nat → Option Bool}
    (less : ∀ fd, connection fd = some true → s.connection fd = some true) :
    Counts maxclient { s with connection := connection } := by
  refine ⟨counts.number, counts.nodup, fun fd now => counts.known fd (less fd now), ?_⟩
  have sub : (connected { s with connection := connection }).length ≤ (connected s).length := by
    apply List.Sublist.length_le
    apply List.monotone_filter_right
    intro fd now
    exact decide_eq_true (less fd (of_decide_eq_true now))
  have fewer := counts.fewer
  omega

theorem Counts.of_eq (counts : Counts maxclient s) (number : s'.clientNumber = s.clientNumber)
    (accepted : s'.accepted = s.accepted) (connection : s'.connection = s.connection) :
    Counts maxclient s' := by
  obtain ⟨queue, conn, num, socket, forks, first, loops, acc⟩ := s'
  subst number accepted connection
  exact ⟨counts.number, counts.nodup, counts.known, counts.fewer⟩

theorem fillUncomplete_result (q : Queue) (fd : Nat) (uc : Uncomplete) (buffer : Bytes) :
    (fillUncomplete q fd uc buffer).2 = none ∨
      (∃ msg size, (fillUncomplete q fd uc buffer).2 = some (.data fd msg size)) ∨
      (fillUncomplete q fd uc buffer).2 = some .more := by
  rw [fillUncomplete]
  dsimp only
  split
  · exact .inl rfl
  · split
    · exact .inr (.inl ⟨_, _, rfl⟩)
    · exact .inr (.inr rfl)

theorem filterData_result (q : Queue) (fd : Nat) (byte : UInt8) (buffer : Bytes) :
    (filterData q fd byte buffer).2 = none ∨
      (∃ msg size, (filterData q fd byte buffer).2 = some (.data fd msg size)) ∨
      (filterData q fd byte buffer).2 = some .more := by
  unfold filterData
  split
  · split <;> exact fillUncomplete_result ..
  · split
    · exact .inl rfl
    · dsimp only
      split
      · exact .inl rfl
      · split
        · exact .inr (.inl ⟨_, _, rfl⟩)
        · exact .inr (.inr rfl)

theorem open_counts (counts : Counts maxclient s) {ud : Nat} (fresh : ud ∉ s.accepted)
    (msg : Bytes) :
    Counts maxclient ({ s with accepted := ud :: s.accepted }.msgOpen maxclient ud msg).1 := by
  obtain ⟨number, nodup, known, fewer⟩ := counts
  have number' : s.clientNumber + 1 = ((ud :: s.accepted).length : Nat) := by
    rw [number, List.length_cons]
    rfl
  rw [State.msgOpen]
  dsimp only
  split
  · refine ⟨number', List.nodup_cons.mpr ⟨fresh, nodup⟩,
      fun fd now => List.mem_cons_of_mem _ (known fd now), ?_⟩
    have refused : ¬ s.connection ud = some true := fun now => fresh (known ud now)
    have same : connected { s with
        accepted := ud :: s.accepted, clientNumber := s.clientNumber + 1 } = connected s := by
      rw [connected, connected]
      dsimp only
      rw [List.filter_cons_of_neg (by simpa using refused)]
    exact same ▸ fewer
  · rename_i few
    refine ⟨number', List.nodup_cons.mpr ⟨fresh, nodup⟩, ?_, ?_⟩
    · intro fd now
      by_cases here : fd = ud
      · exact here ▸ List.mem_cons_self ..
      · dsimp only at now
        rw [Function.update_of_ne here] at now
        exact List.mem_cons_of_mem _ (known fd now)
    · refine Int.lt_of_le_of_lt ?_ (Int.not_le.mp few)
      rw [number']
      exact Int.ofNat_le.mpr (List.length_filter_le _ _)

theorem close_counts (counts : Counts maxclient s) {id : Nat} (other : some id ≠ s.socket)
    (there : id ∈ s.accepted) :
    Counts maxclient ({ s with accepted := s.accepted.erase id }.msgClose id).1 := by
  obtain ⟨number, nodup, known, fewer⟩ := counts
  have number' : s.clientNumber - 1 = ((s.accepted.erase id).length : Nat) := by
    have := List.length_pos_of_mem there
    rw [number, List.length_erase_of_mem there]
    omega
  -- the sockets but this one keep their connections
  have rest : ∀ connection : Nat → Option Bool, connection id ≠ some true →
      (∀ fd, connection fd = some true → s.connection fd = some true) →
      Counts maxclient { s with
        accepted := s.accepted.erase id, clientNumber := s.clientNumber - 1,
        connection := connection } := by
    intro connection gone less
    refine ⟨number', nodup.erase id, ?_, ?_⟩
    · intro fd now
      have ne : fd ≠ id := fun same => gone (same ▸ now)
      exact (List.mem_erase_of_ne ne).mpr (known fd (less fd now))
    · have sub : ((s.accepted.erase id).filter fun fd => connection fd = some true).length ≤
          (connected s).length := by
        apply List.Sublist.length_le
        refine (List.erase_sublist.filter _).trans (List.monotone_filter_right _ ?_)
        intro fd now
        exact decide_eq_true (less fd (of_decide_eq_true now))
      refine Int.lt_of_le_of_lt (Int.ofNat_le.mpr sub) fewer
  rw [State.msgClose]
  dsimp only
  rw [if_pos other]
  split
  · refine rest _ ?_ ?_
    · rw [Function.update_self]
      exact fun same => by cases same
    · intro fd now
      by_cases here : fd = id
      · rw [here, Function.update_self] at now
        cases now
      · rwa [Function.update_of_ne here] at now
  · rename_i closed
    exact rest s.connection closed fun fd now => now

theorem message_counts (counts : Counts maxclient s)
    (took : s.message maxclient m = some (s', o)) : Counts maxclient s' := by
  rw [State.message] at took
  split at took
  · obtain ⟨s₁, counted, eq⟩ := Option.map_eq_some_iff.mp took
    have state := congrArg Prod.fst eq
    dsimp only at state
    subst state
    cases m with
    | data id byte buffer =>
        cases counted
        have result := filterData_result s.queue id byte buffer
        change Counts maxclient (State.dispatch _ maxclient (filterData s.queue id byte buffer).2).1
        cases result with
        | inl nothing =>
            rw [nothing]
            exact counts.of_eq rfl rfl rfl
        | inr some_result =>
            cases some_result with
            | inl one =>
                obtain ⟨msg, size, one⟩ := one
                rw [one]
                exact counts.of_eq rfl rfl rfl
            | inr more =>
                rw [more]
                exact counts.of_eq rfl rfl rfl
    | connect | error | warning =>
        cases counted
        exact counts.of_eq rfl rfl rfl
    | accept id ud addr =>
        rw [State.account] at counted
        split at counted
        · cases counted
        · rename_i fresh
          cases counted
          exact open_counts counts fresh addr
    | close id =>
        rw [State.account] at counted
        split at counted
        · rename_i own
          cases counted
          have closes : State.msgClose { s with queue := closeUncomplete s.queue id } id =
              ({ s with queue := closeUncomplete s.queue id, socket := none }, []) :=
            if_neg (not_not_intro own)
          change Counts maxclient
            (State.msgClose { s with queue := closeUncomplete s.queue id } id).1
          rw [closes]
          exact counts.of_eq rfl rfl rfl
        · rename_i other
          split at counted
          · rename_i there
            cases counted
            exact (close_counts (s := { s with queue := closeUncomplete s.queue id })
              (counts.of_eq rfl rfl rfl) other there)
          · cases counted
  · cases took

theorem popMsg_state {action : Action} (popped : s.popMsg = some (s', action)) :
    ∃ q, s' = { s with queue := q } := by
  obtain ⟨⟨p, q⟩, -, eq⟩ := Option.map_eq_some_iff.mp popped
  cases eq
  exact ⟨q, rfl⟩

theorem fork_counts (counts : Counts maxclient s) : Counts maxclient s.fork.1 := by
  rw [State.fork]
  split
  · rename_i popped
    obtain ⟨q, same⟩ := popMsg_state popped
    subst same
    exact counts.of_eq rfl rfl rfl
  · exact counts.of_eq rfl rfl rfl

theorem loop_counts (counts : Counts maxclient s) : Counts maxclient s.loop.1 := by
  rw [State.loop]
  split
  · rename_i popped
    obtain ⟨q, same⟩ := popMsg_state popped
    subst same
    exact counts.of_eq rfl rfl rfl
  · exact counts

theorem Counts.taken {x : State × List Action} (took : some x = some (s', o))
    (now : Counts maxclient x.1) : Counts maxclient s' := by
  rwa [Option.some.inj took] at now

theorem step_counts (counts : Counts maxclient s) (took : step maxclient s e = some (s', o)) :
    Counts maxclient s' := by
  cases e with
  | message m => exact message_counts counts took
  | fork =>
      rw [step] at took
      split at took
      · exact .taken took (fork_counts counts)
      · cases took
  | first =>
      rw [step] at took
      split at took
      · exact .taken took (loop_counts (counts.of_eq rfl rfl rfl))
      · cases took
  | loop cap =>
      rw [step] at took
      split at took
      · dsimp only at took
        split at took
        · exact .taken took (loop_counts (counts.of_eq rfl rfl rfl))
        · exact .taken took (counts.of_eq rfl rfl rfl)
      · cases took
  | failFirst | failLoop cap | listen id =>
      rw [step] at took
      split at took
      · exact .taken took (counts.of_eq rfl rfl rfl)
      · cases took
  | openclient fd =>
      rw [step] at took
      exact .taken took counts
  | closeclient fd =>
      rw [step, State.closeclient] at took
      split at took
      · refine .taken took (counts.closed ?_)
        intro fd' now
        by_cases here : fd' = fd
        · rw [here, Function.update_self] at now
          cases now
        · rwa [Function.update_of_ne here] at now
      · exact .taken took counts

/-- The socket server has accepted a socket: the gate counts it with the others that are open. -/
theorem accept_cases (counts : Counts maxclient s) {id fd : Nat} {msg : Bytes}
    (took : step maxclient s (.message (.accept id fd msg)) = some (s', o)) :
    (maxclient ≤ s.accepted.length + 1 ∧ o = [.shutdown fd] ∧ s'.connection = s.connection ∧
        s.connection fd ≠ some true) ∨
      (s.accepted.length + 1 < maxclient ∧ o = [.connect fd msg] ∧
        s'.connection = Function.update s.connection fd (some true)) := by
  change s.message maxclient _ = _ at took
  rw [State.message] at took
  split at took
  · rw [State.account] at took
    split at took
    · cases took
    · rename_i fresh
      have opens : State.msgOpen { s with accepted := fd :: s.accepted } maxclient fd msg =
          (s', o) := Option.some.inj took
      rw [State.msgOpen] at opens
      dsimp only at opens
      rw [counts.number] at opens
      split at opens
      · rename_i full
        cases opens
        exact .inl ⟨full, rfl, rfl, fun now => fresh (counts.known fd now)⟩
      · rename_i few
        cases opens
        exact .inr ⟨Int.not_le.mp few, rfl, rfl⟩
  · cases took

/-- Fewer than `maxclient` sockets are connected. An accepted socket is connected while fewer
than that are open with it, and is shut down at once when they are as many. -/
structure Limits (maxclient : Int) (s : State) : Prop where
  fewer : ∀ fds : List Nat, fds.Nodup → (∀ fd ∈ fds, s.connection fd = some true) →
    (fds.length : Int) < maxclient
  connects : ∀ id fd msg s' o, step maxclient s (.message (.accept id fd msg)) = some (s', o) →
    s.accepted.length + 1 < maxclient → o = [.connect fd msg] ∧ s'.connection fd = some true
  shuts : ∀ id fd msg s' o, step maxclient s (.message (.accept id fd msg)) = some (s', o) →
    maxclient ≤ s.accepted.length + 1 → o = [.shutdown fd] ∧ s'.connection fd ≠ some true

theorem Counts.limits (counts : Counts maxclient s) : Limits maxclient s where
  fewer := by
    intro fds nodup all
    have sub : fds.length ≤ (connected s).length := by
      refine (List.subperm_of_subset nodup fun fd mem => ?_).length_le
      exact List.mem_filter.mpr ⟨counts.known fd (all fd mem), decide_eq_true (all fd mem)⟩
    exact Int.lt_of_le_of_lt (Int.ofNat_le.mpr sub) counts.fewer
  connects := by
    intro id fd msg s' o took few
    cases accept_cases counts took with
    | inl refused => omega
    | inr opened =>
        obtain ⟨-, actions, connection⟩ := opened
        exact ⟨actions, by rw [connection, Function.update_self]⟩
  shuts := by
    intro id fd msg s' o took full
    cases accept_cases counts took with
    | inl refused =>
        obtain ⟨-, actions, connection, apart⟩ := refused
        exact ⟨actions, by rwa [connection]⟩
    | inr opened => omega

/-- Over every run of the gate, whose sockets are accepted and closed once each, it keeps to its
limit. -/
theorem gate_limits (some_client : 0 < maxclient) (reach : (machine maxclient).Reach trace s) :
    Limits maxclient s := by
  have counts : Counts maxclient s := by
    refine reach.invariant (fun _ s => Counts maxclient s) ?_ ?_
    · exact ⟨rfl, .nil, fun fd now => absurd now (Option.some_ne_none true).symm, some_client⟩
    · intro trace s e s' o counts took
      exact step_counts counts took
  exact counts.limits

/-- A gate for three connects two sockets and shuts the third down; behind a close it connects
another. -/
theorem gate_limits_second : ∃ trace s, (machine 3).Reach trace s ∧
    trace.flatMap Prod.snd = [.connect 5 [], .connect 6 [], .shutdown 7, .disconnect 5,
      .disconnect 7, .connect 8 []] ∧ s.clientNumber = 2 ∧ Limits 3 s := by
  have ran : ∃ trace s, (machine 3).run (machine 3).init
      [.message (.accept 1 5 []), .message (.accept 1 6 []), .message (.accept 1 7 []),
        .message (.close 5), .message (.close 7), .message (.accept 1 8 [])] = some (trace, s) ∧
      trace.flatMap Prod.snd = [.connect 5 [], .connect 6 [], .shutdown 7, .disconnect 5,
        .disconnect 7, .connect 8 []] ∧ s.clientNumber = 2 := ⟨_, _, rfl, rfl, rfl⟩
  obtain ⟨trace, s, ran, actions, number⟩ := ran
  exact ⟨trace, s, Machine.reach_run ran, actions, number,
    gate_limits (by decide) (Machine.reach_run ran)⟩

end Qiuqiu.Net.Gateserver
