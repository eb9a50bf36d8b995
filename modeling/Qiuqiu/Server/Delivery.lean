import Qiuqiu.Server.Ownership

/-!
What happens to the messages of a service: each one is taken by a worker, who gives it to the
callback or frees it as there is none, or it is dropped behind the retirement of the service,
once and in the order of the pushes; and none waits in a queue that nobody will look at.
-/
namespace Qiuqiu.Server.Dispatch
variable {M : Type}

namespace Output

/-- The message that comes to a queue. -/
def pushes (q : Nat) : Output M → Option M
  | .pushed q' message => if q' = q then some message else none
  | _ => none

/-- The message that a worker takes from a queue, to look at it or to drop it. -/
def takes (q : Nat) : Output M → Option M
  | .taken q' message | .dropped q' message => if q' = q then some message else none
  | _ => none

/-- The message that is given to the callback of a service, or that ends otherwise. -/
def settles (q : Nat) : Output M → Option M
  | .dispatched q' message | .freed q' message | .dropped q' message =>
      if q' = q then some message else none
  | _ => none

/-- What a service says about its callback. -/
def sets (q : Nat) : Output M → Option Bool
  | .callback q' cb => if q' = q then some cb else none
  | _ => none

/-- A task does nothing to a message, or it looks for the callback of a service. -/
def Looks (services : List (Service M)) : Output M → Prop
  | .quiet => True
  | .dispatched q _ => ∃ v, services[q]? = some v ∧ v.cb = true
  | .freed q _ => ∃ v, services[q]? = some v ∧ v.cb = false
  | .pushed _ _ | .taken _ _ | .dropped _ _ | .callback _ _ => False

/-- No message comes to a queue, and none leaves one. -/
structure Aside (o : Output M) : Prop where
  pushes : ∀ q, o.pushes q = none
  takes : ∀ q, o.takes q = none

theorem Aside.quiet : (.quiet : Output M).Aside := ⟨fun _ => rfl, fun _ => rfl⟩

theorem Aside.callback {q : Nat} {cb : Bool} : (.callback q cb : Output M).Aside :=
  ⟨fun _ => rfl, fun _ => rfl⟩

theorem Looks.aside {services : List (Service M)} {o : Output M} (looks : o.Looks services) :
    o.Aside := by
  cases o with
  | quiet | dispatched _ _ | freed _ _ => exact ⟨fun _ => rfl, fun _ => rfl⟩
  | pushed _ _ | taken _ _ | dropped _ _ | callback _ _ => cases looks

theorem Aside.not_dropped {o : Output M} (aside : o.Aside) (q : Nat) (message : M) :
    o ≠ .dropped q message := by
  intro dropped
  have none := aside.takes q
  simp [dropped, Output.takes] at none

end Output

/-- The messages pushed to a queue. -/
def pushedTo (q : Nat) (trace : List (Event M × Output M)) : List M :=
  trace.filterMap fun x => x.2.pushes q

/-- The messages taken from a queue, by a worker or to be dropped. -/
def takenFrom (q : Nat) (trace : List (Event M × Output M)) : List M :=
  trace.filterMap fun x => x.2.takes q

/-- The messages of a service that the callback was given, that were freed as there was none, or
that were dropped. -/
def settledOf (q : Nat) (trace : List (Event M × Output M)) : List M :=
  trace.filterMap fun x => x.2.settles q

/-- Whether a service has a callback. -/
def callbackOf (q : Nat) (trace : List (Event M × Output M)) : Bool :=
  (trace.filterMap fun x => x.2.sets q).getLastD false

/-- The message a worker has taken, and not yet looked for the callback. -/
def Task.hand (q : Nat) : Task M → List M
  | .sizes q' _ _ msg | .dispatches q' _ _ msg => if q' = q then [msg] else []
  | .retires _ next | .lets _ next | .marks _ next | .frees _ next | .releases _ next
  | .drops _ next | .freesQueue _ next => next.hand q
  | _ => []

def State.inHand (q : Nat) (s : State M) : List M := s.tasks.flatMap (Task.hand q)

/-- The queues a task has found empty for the last time. -/
def Task.emptied : Task M → List Nat
  | .freesQueue q next => q :: next.emptied
  | .retires _ next | .lets _ next | .marks _ next | .frees _ next | .releases _ next
  | .drops _ next => next.emptied
  | _ => []

/-- A step that leaves the messages of a service alone. -/
structure Service.Keeps (v v' : Service M) : Prop where
  ring : v'.mq.ring = v.mq.ring
  threshold : v'.mq.overloadThreshold = v.mq.overloadThreshold
  parked : v'.parked = true → v.parked = true
  queueFreed : v'.queueFreed = v.queueFreed
  release : v.mq.release = true → v'.mq.release = true

theorem Service.Keeps.refl {v : Service M} : v.Keeps v := ⟨rfl, rfl, id, rfl, id⟩

def Service.Stays (v v' : Service M) : Prop := v.Keeps v' ∧ v'.cb = v.cb

/-- What a step of a task does to the messages. -/
inductive Effect (services services' : List (Service M)) (t t' : Task M) : Output M → Prop
  | keeps {o} : o.Looks services →
      (∀ q : Nat, Option.Rel Service.Stays services[q]? services'[q]?) →
      (∀ q ∈ t'.emptied, q ∈ t.emptied) → Effect services services' t t' o
  | takes {q v message mq o} : services[q]? = some v → v.mq.pop = (some message, mq) →
      services' = services.modify q (fun v => { v with mq := mq }) → q ∈ t.queues →
      (o = .taken q message ∨ o = .dropped q message ∧ ∃ next, t = .drops q next) →
      (∀ q ∈ t'.emptied, q ∈ t.emptied) →
      Effect services services' t t' o
  | empties {q v mq} : services[q]? = some v → v.mq.pop = (none, mq) →
      services' = services.modify q (fun v => { v with mq := mq }) →
      (∀ q' ∈ t'.emptied, q' = q ∨ q' ∈ t.emptied) → Effect services services' t t' .quiet
  | puts {q v message} : services[q]? = some v →
      services' = services.modify q (fun v' => { v' with mq := (v.mq.push message).1 }) →
      t = .pushes q message → t'.emptied = [] → Effect services services' t t' (.pushed q message)
  | ends {q} : services' = services.modify q (fun v => { v with queueFreed := true }) →
      q ∈ t.emptied → (∀ q ∈ t'.emptied, q ∈ t.emptied) → Effect services services' t t' .quiet

/-- What a step does to the message in the hand of a task. -/
def Carries (t t' : Task M) (o : Output M) : Prop :=
  ∀ q, (o.settles q).toList ++ t'.hand q = t.hand q ++ (o.takes q).toList

namespace State
variable {s s' : State M} {w : Int} {i : Nat} {initOk : Bool} {t t' : Task M} {o : Output M}

theorem rel_self {R : Service M → Service M → Prop} (refl : ∀ v, R v v) (q : Nat) :
    Option.Rel R s.services[q]? s.services[q]? := by
  cases s.services[q]? with
  | none => exact .none
  | some v => exact .some (refl v)

theorem rel_imp {R R' : Service M → Service M → Prop} {v v' : Option (Service M)}
    (rel : Option.Rel R v v') (imp : ∀ v v', R v v' → R' v v') : Option.Rel R' v v' := by
  cases rel with
  | some here => exact .some (imp _ _ here)
  | none => exact .none

theorem rel_modify {R : Service M → Service M → Prop} (refl : ∀ v, R v v) {h : Nat}
    {f : Service M → Service M} (one : ∀ v, s.services[h]? = some v → R v (f v)) (q : Nat) :
    Option.Rel R s.services[q]? (s.services.modify h f)[q]? := by
  by_cases same : h = q
  · subst same
    rw [List.getElem?_modify_eq]
    cases at_h : s.services[h]? with
    | none => exact .none
    | some v => exact .some (one v at_h)
  · rw [List.getElem?_modify_ne f _ same]
    exact rel_self refl q

theorem keeps_self (q : Nat) : Option.Rel Service.Stays s.services[q]? s.services[q]? :=
  rel_self (fun _ => ⟨.refl, rfl⟩) q

theorem keeps_modify {h : Nat} {f : Service M → Service M}
    (stays : ∀ v, s.services[h]? = some v → v.Stays (f v)) (q : Nat) :
    Option.Rel Service.Stays s.services[q]? (s.services.modify h f)[q]? :=
  rel_modify (fun _ => ⟨.refl, rfl⟩) stays q

/-- A step that leaves the queue of a service and its callback alone. -/
theorem keeps_flags {h : Nat} {f : Service M → Service M} (same : ∀ v : Service M,
    (f v).mq = v.mq ∧ (f v).queueFreed = v.queueFreed ∧ (f v).cb = v.cb) (q : Nat) :
    Option.Rel Service.Stays s.services[q]? (s.services.modify h f)[q]? := by
  apply keeps_modify
  intro v _
  obtain ⟨mq, queueFreed, cb⟩ := same v
  refine ⟨⟨by rw [mq], by rw [mq], ?_, queueFreed, ?_⟩, cb⟩
  · rw [Service.parked, mq]
    exact id
  · rw [mq]
    exact id

theorem emptied_deleted (next : Task M) : next.deleted.emptied = next.emptied := by
  cases next <;> rfl

theorem emptied_loop {q k n : Nat} : ∀ q' ∈ (Task.loop q k n : Task M).emptied, q' ∈ [] := by
  intro q' mem
  cases loop_cases (M := M) q k n with
  | inl pops => rwa [pops] at mem
  | inr swaps => rwa [swaps] at mem

theorem hand_deleted (next : Task M) (q : Nat) : next.deleted.hand q = next.hand q := by
  cases next <;> rfl

theorem hand_loop {q k n q' : Nat} : (Task.loop q k n : Task M).hand q' = [] := by
  cases loop_cases (M := M) q k n with
  | inl pops =>
      rw [pops]
      rfl
  | inr swaps =>
      rw [swaps]
      rfl

theorem hand_of_queues {t : Task M} {q : Nat} (other : q ∉ t.queues) : t.hand q = [] := by
  induction t with
  | sizes q' _ _ _ | dispatches q' _ _ _ =>
      apply if_neg
      intro same
      exact other (List.mem_singleton.mpr same.symm)
  | retires _ next ih | lets _ next ih | marks _ next ih | frees _ next ih => exact ih other
  | releases q' next ih | drops q' next ih | freesQueue q' next ih =>
      exact ih fun mem => other (List.mem_cons_of_mem q' mem)
  | _ => rfl

theorem toList_ite (p : Prop) [Decidable p] (m : M) :
    (if p then some m else none).toList = if p then [m] else [] := by
  split
  · rfl
  · rfl

end State

namespace Carries
variable {t t' : Task M} {q : Nat} {message : M}

/-- A step that takes no message and settles none leaves the hand of the task as it is. -/
theorem same (hand : ∀ q, t'.hand q = t.hand q) : Carries t t' .quiet := by
  intro q
  rw [hand q]
  exact (List.append_nil _).symm

theorem takes (before : ∀ q, t.hand q = [])
    (after : ∀ q', t'.hand q' = if q = q' then [message] else []) :
    Carries t t' (.taken q message) := by
  intro q'
  rw [before, after, Output.takes, State.toList_ite]
  rfl

/-- The message goes to the callback, or it is freed. -/
theorem settles {o : Output M} (output : o = .dispatched q message ∨ o = .freed q message)
    (before : ∀ q', t.hand q' = if q = q' then [message] else [])
    (after : ∀ q, t'.hand q = []) : Carries t t' o := by
  intro q'
  cases output with
  | inl given => rw [given, before, after, Output.settles, State.toList_ite]; rfl
  | inr freed => rw [freed, before, after, Output.settles, State.toList_ite]; rfl

theorem drops {next : Task M} (alone : next.hand q = []) :
    Carries (.drops q next) (.drops q next) (.dropped q message) := by
  intro q'
  by_cases here : q = q'
  · subst here
    rw [Task.hand, alone]
    exact List.append_nil _
  · rw [Output.settles, Output.takes, if_neg here]
    exact (List.append_nil _).symm

end Carries

namespace State
variable {s s' : State M} {w : Int} {i : Nat} {initOk : Bool} {t t' : Task M} {o : Output M}

/-- Nobody but the task that drops a queue has it, the task itself does not have it twice. -/
theorem Inv.alone (inv : s.Inv) {q : Nat} {next : Task M}
    (at_i : s.tasks[i]? = some (.drops q next)) : q ∉ next.queues := by
  intro mem
  have once := (List.nodup_flatMap.mp (List.nodup_append.mp inv.exclusive.alone).2.1).1 _
    (List.mem_of_getElem? at_i)
  exact (List.nodup_cons.mp once).1 mem

/-- Behind a step task `i` is another, and the step has an effect. -/
theorem run_effect (inv : s.Inv) (at_i : s.tasks[i]? = some t)
    (step : s.run w i initOk t = some (s', o)) :
    ∃ t', s'.tasks = s.tasks.set i t' ∧ Effect s.services s'.services t t' o ∧
      Carries t t' o := by
  cases t with
  | idle =>
      rw [run] at step
      split at step
      · cases step
        obtain ⟨lt, same⟩ := List.getElem?_eq_some_iff.mp at_i
        refine ⟨.idle, ?_, .keeps trivial keeps_self fun _ => id, .same fun _ => rfl⟩
        rw [← same, List.set_getElem_self]
      · cases step
        exact ⟨_, rfl, .keeps trivial keeps_self fun _ => id, .same fun _ => rfl⟩
  | done => cases step
  | holds q =>
      rw [run] at step
      obtain ⟨gone, -⟩ | ⟨v, at_q, inTable, grabbed⟩ := s.grab_cases q
      · rw [gone] at step
        cases step
        exact ⟨_, rfl, .keeps trivial keeps_self fun _ => id, .same fun _ => rfl⟩
      · rw [grabbed] at step
        cases step
        exact ⟨_, rfl, .keeps trivial (keeps_flags fun _ => ⟨rfl, rfl, rfl⟩)
          fun _ => id, .same fun _ => rfl⟩
  | pops q k n =>
      obtain ⟨v, at_q, ran⟩ := Option.map_eq_some_iff.mp step
      split at ran
      · rename_i message mq popped
        cases ran
        exact ⟨_, rfl, .takes at_q popped rfl List.mem_cons_self (.inl rfl) fun _ => id,
          .takes (fun _ => rfl) fun _ => rfl⟩
      · rename_i mq popped
        cases ran
        exact ⟨_, rfl, .empties at_q popped rfl fun _ => .inr, .same fun _ => rfl⟩
  | sizes q k n msg =>
      obtain ⟨v, at_q, ran⟩ := Option.map_eq_some_iff.mp step
      cases ran
      refine ⟨_, rfl, .keeps trivial (keeps_modify fun v' here => ?_)
        fun _ => id, .same fun _ => rfl⟩
      cases at_q.symm.trans here
      exact ⟨⟨rfl, rfl, id, rfl, id⟩, rfl⟩
  | dispatches q k n msg =>
      obtain ⟨v, at_q, ran⟩ := Option.map_eq_some_iff.mp step
      split at ran
      · cases ran
        exact ⟨_, rfl, .keeps ⟨v, at_q, ‹_›⟩ keeps_self fun _ => id,
          .settles (.inl rfl) (fun _ => rfl) fun _ => rfl⟩
      · cases ran
        exact ⟨_, rfl, .keeps ⟨v, at_q, Bool.eq_false_iff.mpr ‹_›⟩ keeps_self emptied_loop,
          .settles (.inr rfl) (fun _ => rfl) fun _ => hand_loop⟩
  | calls q k n =>
      cases step
      exact ⟨_, rfl, .keeps trivial keeps_self emptied_loop, .same fun _ => hand_loop⟩
  | swaps q =>
      rw [run] at step
      split at step
      · cases step
        exact ⟨_, rfl, .keeps trivial keeps_self fun _ => id, .same fun _ => rfl⟩
      · cases step
        exact ⟨_, rfl, .keeps trivial keeps_self fun _ => id, .same fun _ => rfl⟩
  | returns q nq =>
      cases step
      exact ⟨_, rfl, .keeps trivial keeps_self fun _ => id, .same fun _ => rfl⟩
  | sends q message =>
      rw [run] at step
      obtain ⟨gone, -⟩ | ⟨v, at_q, inTable, grabbed⟩ := s.grab_cases q
      · rw [gone] at step
        cases step
        exact ⟨_, rfl, .keeps trivial keeps_self fun _ => id, .same fun _ => rfl⟩
      · rw [grabbed] at step
        cases step
        exact ⟨_, rfl, .keeps trivial (keeps_flags fun _ => ⟨rfl, rfl, rfl⟩)
          fun _ => id, .same fun _ => rfl⟩
  | pushes q message =>
      obtain ⟨v, at_q, ran⟩ := Option.map_eq_some_iff.mp step
      cases ran
      rw [ite_globalPush]
      exact ⟨_, rfl, .puts at_q rfl rfl rfl, .same fun _ => rfl⟩
  | retires q next =>
      rw [run] at step
      split at step
      · split at step
        · cases step
          exact ⟨_, rfl, .keeps trivial (keeps_flags fun _ => ⟨rfl, rfl, rfl⟩)
            fun _ => id, .same fun _ => rfl⟩
        · cases step
          exact ⟨_, rfl, .keeps trivial keeps_self fun _ => id, .same fun _ => rfl⟩
      · cases step
        exact ⟨_, rfl, .keeps trivial keeps_self fun _ => id, .same fun _ => rfl⟩
  | inits q =>
      cases step
      cases initOk with
      | true => exact ⟨_, rfl, .keeps trivial keeps_self fun _ => id, .same fun _ => rfl⟩
      | false => exact ⟨_, rfl, .keeps trivial keeps_self fun _ => id, .same fun _ => rfl⟩
  | initializes q =>
      cases step
      exact ⟨_, rfl, .keeps trivial (keeps_flags fun _ => ⟨rfl, rfl, rfl⟩)
        fun _ => id, .same fun _ => rfl⟩
  | publishes q =>
      cases step
      exact ⟨_, rfl, .keeps trivial keeps_self fun _ => id, .same fun _ => rfl⟩
  | lets q next =>
      obtain ⟨v, at_q, ran⟩ := Option.map_eq_some_iff.mp step
      cases ran
      split
      · exact ⟨_, rfl, .keeps trivial (keeps_flags fun _ => ⟨rfl, rfl, rfl⟩)
          (fun _ mem => by rwa [Task.emptied, emptied_deleted] at mem),
          .same (hand_deleted next)⟩
      · exact ⟨_, rfl, .keeps trivial (keeps_flags fun _ => ⟨rfl, rfl, rfl⟩)
          fun _ => id, .same fun _ => rfl⟩
  | marks q next =>
      obtain ⟨v, at_q, ran⟩ := Option.map_eq_some_iff.mp step
      cases ran
      have keeps : ∀ v', s.services[q]? = some v' →
          v'.Stays { v' with mq := { v.mq with release := true } } := by
        intro v' here
        cases at_q.symm.trans here
        exact ⟨⟨rfl, rfl, fun parked => by simp [Service.parked] at parked, rfl, fun _ => rfl⟩,
          rfl⟩
      split
      · exact ⟨_, rfl, .keeps trivial (keeps_modify keeps) fun _ => id, .same fun _ => rfl⟩
      · exact ⟨_, rfl, .keeps trivial (keeps_modify keeps) fun _ => id, .same fun _ => rfl⟩
  | frees q next =>
      cases step
      exact ⟨_, rfl, .keeps trivial (keeps_flags fun _ => ⟨rfl, rfl, rfl⟩)
        fun _ => id, .same fun _ => rfl⟩
  | releases q next =>
      obtain ⟨v, at_q, ran⟩ := Option.map_eq_some_iff.mp step
      split at ran
      · cases ran
        exact ⟨_, rfl, .keeps trivial keeps_self fun _ => id, .same fun _ => rfl⟩
      · cases ran
        exact ⟨_, rfl, .keeps trivial keeps_self fun _ => id, .same fun _ => rfl⟩
  | drops q next =>
      obtain ⟨v, at_q, ran⟩ := Option.map_eq_some_iff.mp step
      split at ran
      · rename_i message mq popped
        cases ran
        exact ⟨_, rfl, .takes at_q popped rfl List.mem_cons_self (.inr ⟨rfl, next, rfl⟩)
          fun _ => id,
          .drops (hand_of_queues (inv.alone at_i))⟩
      · rename_i mq popped
        cases ran
        exact ⟨_, rfl, .empties at_q popped rfl fun _ mem => List.mem_cons.mp mem,
          .same fun _ => rfl⟩
  | freesQueue q next =>
      cases step
      exact ⟨_, rfl, .ends rfl List.mem_cons_self fun _ mem => List.mem_cons_of_mem q mem,
        .same fun _ => rfl⟩

theorem mem_queues_of_emptied {q : Nat} (mem : q ∈ t.emptied) : q ∈ t.queues := by
  induction t with
  | idle | done | holds _ | sends _ _ | pushes _ _ | inits _ | initializes _ | publishes _
  | pops _ _ _ | sizes _ _ _ _ | dispatches _ _ _ _ | calls _ _ _ | swaps _ | returns _ _ =>
      cases mem
  | lets _ next ih | retires _ next ih | marks _ next ih | frees _ next ih => exact ih mem
  | drops q' next ih | releases q' next ih => exact List.mem_cons_of_mem q' (ih mem)
  | freesQueue q' next ih =>
      cases List.mem_cons.mp mem with
      | inl here => exact List.mem_cons.mpr (.inl here)
      | inr later => exact List.mem_cons_of_mem q' (ih later)

/-- Nobody pushes to a queue that is found empty for the last time. -/
theorem release_of_emptied {services : List (Service M)} {q : Nat} (ok : t.Ok services)
    (mem : q ∈ t.emptied) : ∀ v, services[q]? = some v → v.mq.release = true := by
  induction t with
  | idle | done | holds _ | sends _ _ | pushes _ _ | inits _ | initializes _ | publishes _
  | pops _ _ _ | sizes _ _ _ _ | dispatches _ _ _ _ | calls _ _ _ | swaps _ | returns _ _ =>
      cases mem
  | lets _ next ih | retires _ next ih | drops _ next ih => exact ih ok.2 mem
  | marks _ next ih | frees _ next ih | releases _ next ih => exact ih ok mem
  | freesQueue q' next ih =>
      cases List.mem_cons.mp mem with
      | inl here => exact here ▸ ok.1
      | inr later => exact ih ok.2 later

end State

variable {trace : List (Event M × Output M)} {s s' : State M} {q : Nat} {e : Event M}
  {message : M}

theorem pushedTo_aside {o : Output M} (aside : o.Aside) :
    pushedTo q (trace ++ [(e, o)]) = pushedTo q trace :=
  Machine.filterMap_concat_none (aside.pushes q)

theorem takenFrom_aside {o : Output M} (aside : o.Aside) :
    takenFrom q (trace ++ [(e, o)]) = takenFrom q trace :=
  Machine.filterMap_concat_none (aside.takes q)

theorem pushedTo_pushed {q' : Nat} : pushedTo q (trace ++ [(e, .pushed q' message)]) =
    pushedTo q trace ++ if q' = q then [message] else [] := by
  rw [pushedTo, Machine.filterMap_concat]
  by_cases here : q' = q
  · simp [pushedTo, Output.pushes, here]
  · simp [pushedTo, Output.pushes, here]

theorem takenFrom_pushed {q' : Nat} :
    takenFrom q (trace ++ [(e, .pushed q' message)]) = takenFrom q trace :=
  Machine.filterMap_concat_none rfl

theorem takenFrom_takes {q' : Nat} {o : Output M}
    (takes : o = .taken q' message ∨ o = .dropped q' message) :
    takenFrom q (trace ++ [(e, o)]) = takenFrom q trace ++ if q' = q then [message] else [] := by
  rw [takenFrom, Machine.filterMap_concat]
  by_cases here : q' = q
  · cases takes with
    | inl taken => simp [takenFrom, Output.takes, taken, here]
    | inr dropped => simp [takenFrom, Output.takes, dropped, here]
  · cases takes with
    | inl taken => simp [takenFrom, Output.takes, taken, here]
    | inr dropped => simp [takenFrom, Output.takes, dropped, here]

theorem pushedTo_takes {q' : Nat} {o : Output M}
    (takes : o = .taken q' message ∨ o = .dropped q' message) :
    pushedTo q (trace ++ [(e, o)]) = pushedTo q trace := by
  cases takes with
  | inl taken => exact Machine.filterMap_concat_none (by rw [taken]; rfl)
  | inr dropped => exact Machine.filterMap_concat_none (by rw [dropped]; rfl)

/-- The messages that wait in the queue of a service. -/
structure Waits (pushed taken : List M) (emptied : Prop) (v : Service M) (waiting : List M) :
    Prop where
  holds : v.mq.Holds waiting
  whole : pushed = taken ++ waiting
  parked : v.parked = true → waiting = []
  queueFreed : v.queueFreed = true → waiting = []
  emptied : emptied → waiting = []

/-- Every queue holds what was pushed to it and not taken. -/
structure Account (trace : List (Event M × Output M)) (s : State M) : Prop where
  inv : s.Inv
  waits : ∀ (q : Nat) (v : Service M), s.services[q]? = some v →
    ∃ waiting, Waits (pushedTo q trace) (takenFrom q trace) (q ∈ s.tasks.flatMap Task.emptied) v
      waiting
  unknown : ∀ q : Nat, s.services[q]? = none → pushedTo q trace = [] ∧ takenFrom q trace = []
  spared : ∀ (q : Nat) (v : Service M), s.services[q]? = some v → v.mq.release = false →
    ∀ x ∈ trace, ∀ message, x.2 ≠ .dropped q message

/-- A task that has found a queue empty was there before the step, or makes it. -/
theorem mem_emptied {i : Nat} {t' : Task M} {q : Nat} {tasks : List (Task M)}
    (mem : q ∈ (tasks.set i t').flatMap Task.emptied) :
    q ∈ tasks.flatMap Task.emptied ∨ q ∈ t'.emptied := by
  obtain ⟨t, mem, inside⟩ := List.mem_flatMap.mp mem
  cases List.mem_or_eq_of_mem_set mem with
  | inl old => exact .inl (List.mem_flatMap.mpr ⟨t, old, inside⟩)
  | inr new => exact .inr (new ▸ inside)

namespace Account

variable {w : Int} {i : Nat} {initOk : Bool} {t t' : Task M} {o : Output M}

/-- A step that leaves all messages where they are. -/
theorem keeps (account : Account trace s) (inv : s'.Inv) (aside : o.Aside)
    (rel : ∀ q : Nat, Option.Rel Service.Keeps s.services[q]? s'.services[q]?)
    (emptied : ∀ q ∈ s'.tasks.flatMap Task.emptied, q ∈ s.tasks.flatMap Task.emptied) :
    Account (trace ++ [(e, o)]) s' where
  inv := inv
  waits := by
    intro q v' here
    have kept := rel q
    rw [here] at kept
    cases before : s.services[q]? with
    | none =>
        rw [before] at kept
        cases kept
    | some v =>
        rw [before] at kept
        obtain ⟨ring, threshold, parked, queueFreed, -⟩ : v.Keeps v' := by cases kept; assumption
        obtain ⟨waiting, holds, whole, parked', freed, emptied'⟩ := account.waits q v before
        rw [pushedTo_aside aside, takenFrom_aside aside]
        refine ⟨waiting, ⟨ring ▸ holds.ring, threshold ▸ holds.threshold⟩, whole,
          fun p => parked' (parked p), fun f => freed (queueFreed ▸ f),
          fun mem => emptied' (emptied q mem)⟩
  unknown := by
    intro q absent
    have kept := rel q
    rw [absent] at kept
    rw [pushedTo_aside aside, takenFrom_aside aside]
    apply account.unknown q
    cases before : s.services[q]? with
    | none => rfl
    | some v =>
        rw [before] at kept
        cases kept
  spared := by
    intro q v' here unmarked x mem message
    have kept := rel q
    rw [here] at kept
    cases List.mem_append.mp mem with
    | inr new =>
        rw [List.mem_singleton.mp new]
        exact aside.not_dropped q message
    | inl old =>
        cases before : s.services[q]? with
        | none =>
            rw [before] at kept
            cases kept
        | some v =>
            rw [before] at kept
            have keeps : v.Keeps v' := by cases kept; assumption
            refine account.spared q v before ?_ x old message
            exact Bool.eq_false_iff.mpr fun marked => by simp [keeps.release marked] at unmarked

/-- A step about the messages of one service. -/
theorem acts (account : Account trace s) (inv : s'.Inv) {h : Nat} {v : Service M}
    {f : Service M → Service M} (at_h : s.services[h]? = some v)
    (services : s'.services = s.services.modify h f)
    (emptied : ∀ q ∈ s'.tasks.flatMap Task.emptied, q = h ∨ q ∈ s.tasks.flatMap Task.emptied)
    (others : ∀ q ≠ h, pushedTo q (trace ++ [(e, o)]) = pushedTo q trace ∧
      takenFrom q (trace ++ [(e, o)]) = takenFrom q trace)
    (here : ∃ waiting, Waits (pushedTo h (trace ++ [(e, o)])) (takenFrom h (trace ++ [(e, o)]))
      (h ∈ s'.tasks.flatMap Task.emptied) (f v) waiting)
    (release : (f v).mq.release = v.mq.release)
    (drops : ∀ q message, o = .dropped q message → q = h ∧ v.mq.release = true) :
    Account (trace ++ [(e, o)]) s' where
  inv := inv
  waits := by
    intro q v' at_q
    rw [services] at at_q
    by_cases same : h = q
    · subst same
      rw [List.getElem?_modify_eq, at_h] at at_q
      cases at_q
      exact here
    · rw [List.getElem?_modify_ne f _ same] at at_q
      obtain ⟨waiting, holds, whole, parked, freed, emptied'⟩ := account.waits q v' at_q
      obtain ⟨pushed, taken⟩ := others q (Ne.symm same)
      rw [pushed, taken]
      refine ⟨waiting, holds, whole, parked, freed, fun mem => ?_⟩
      cases emptied q mem with
      | inl here => exact absurd here.symm same
      | inr old => exact emptied' old
  unknown := by
    intro q absent
    rw [services] at absent
    by_cases same : h = q
    · subst same
      rw [List.getElem?_modify_eq, at_h] at absent
      cases absent
    · rw [List.getElem?_modify_ne f _ same] at absent
      obtain ⟨pushed, taken⟩ := others q (Ne.symm same)
      rw [pushed, taken]
      exact account.unknown q absent
  spared := by
    intro q v' at_q unmarked x mem message dropped
    rw [services] at at_q
    by_cases same : h = q
    · subst same
      rw [List.getElem?_modify_eq, at_h] at at_q
      cases at_q
      rw [release] at unmarked
      cases List.mem_append.mp mem with
      | inl old => exact account.spared h v at_h unmarked x old message dropped
      | inr new =>
          rw [List.mem_singleton.mp new] at dropped
          exact absurd (unmarked.symm.trans (drops h message dropped).2) Bool.false_ne_true
    · rw [List.getElem?_modify_ne f _ same] at at_q
      cases List.mem_append.mp mem with
      | inl old => exact account.spared q v' at_q unmarked x old message dropped
      | inr new =>
          rw [List.mem_singleton.mp new] at dropped
          exact same (drops q message dropped).1.symm

theorem run (account : Account trace s) (at_i : s.tasks[i]? = some t)
    (step : s.run w i initOk t = some (s', o)) : Account (trace ++ [(e, o)]) s' := by
  have inv := account.inv.run at_i step
  have ok := account.inv.task_ok at_i
  obtain ⟨t', tasks, effect, -⟩ := State.run_effect account.inv at_i step
  have mem_task : ∀ q ∈ t.emptied, q ∈ s.tasks.flatMap Task.emptied := fun q mem =>
    List.mem_flatMap.mpr ⟨t, List.mem_of_getElem? at_i, mem⟩
  have kept : (∀ q ∈ t'.emptied, q ∈ t.emptied) →
      ∀ q ∈ s'.tasks.flatMap Task.emptied, q ∈ s.tasks.flatMap Task.emptied := by
    intro sub q mem
    rw [tasks] at mem
    cases mem_emptied mem with
    | inl old => exact old
    | inr new => exact mem_task q (sub q new)
  cases effect with
  | keeps looks rel sub =>
      exact account.keeps inv looks.aside (fun q => State.rel_imp (rel q) fun _ _ => And.left)
        (kept sub)
  | @takes q v message mq _ at_q popped services _ output sub =>
      have takes : o = .taken q message ∨ o = .dropped q message :=
        output.imp id And.left
      obtain ⟨waiting, holds, whole, parked, freed, emptied⟩ := account.waits q v at_q
      cases waiting with
      | nil =>
          rw [holds.pop_nil] at popped
          cases popped
      | cons first rest =>
          obtain ⟨mq', popped', holds', release, inGlobal⟩ := holds.pop_cons
          cases popped.symm.trans popped'
          refine account.acts inv at_q services (fun q mem => .inr (kept sub q mem)) ?_ ?_
            release ?_
          · intro q' other
            rw [pushedTo_takes takes, takenFrom_takes takes, if_neg (Ne.symm other),
              List.append_nil]
            exact ⟨rfl, rfl⟩
          · refine ⟨rest, holds', ?_, ?_, ?_, ?_⟩
            · rw [pushedTo_takes takes, takenFrom_takes takes, if_pos rfl, whole,
                List.append_assoc, List.singleton_append]
            · intro parked'
              rw [Service.parked, release, inGlobal] at parked'
              cases parked parked'
            · intro freed'
              cases freed freed'
            · intro mem
              cases emptied (kept sub q mem)
          · intro q' message' dropped
            cases output with
            | inl taken => rw [taken] at dropped; cases dropped
            | inr drops =>
                obtain ⟨same, next, rfl⟩ := drops
                rw [same] at dropped
                cases dropped
                exact ⟨rfl, ok.1 v at_q⟩
  | @empties q v mq at_q popped services sub =>
      obtain ⟨waiting, holds, whole, parked, freed, emptied⟩ := account.waits q v at_q
      cases waiting with
      | cons first rest =>
          obtain ⟨mq', popped', -⟩ := holds.pop_cons
          cases popped.symm.trans popped'
      | nil =>
          cases popped.symm.trans holds.pop_nil
          refine account.acts inv at_q services ?_ ?_ ?_ rfl (fun _ _ h => by cases h)
          · intro q' mem
            rw [tasks] at mem
            cases mem_emptied mem with
            | inl old => exact .inr old
            | inr new => exact (sub q' new).imp_right (mem_task q')
          · intro q' _
            exact ⟨pushedTo_aside .quiet, takenFrom_aside .quiet⟩
          · rw [pushedTo_aside .quiet, takenFrom_aside .quiet]
            refine ⟨[], ⟨holds.ring, Nat.succ_pos _⟩, whole, ?_, ?_, ?_⟩
            · exact fun _ => rfl
            · exact fun _ => rfl
            · exact fun _ => rfl
  | @puts q v message at_q services same none =>
      subst same
      obtain ⟨waiting, holds, whole, parked, freed, emptied⟩ := account.waits q v at_q
      -- the reference of the task keeps the queue
      obtain ⟨v', here, -, kept'⟩ := account.inv.exclusive.referenced _
        (List.mem_of_getElem? at_i) q List.mem_cons_self
      cases at_q.symm.trans here
      have unmarked := account.inv.not_release at_i List.mem_cons_self at_q
      refine account.acts inv at_q services ?_ ?_ ?_ rfl (fun _ _ h => by cases h)
      · intro q' mem
        rw [tasks] at mem
        cases mem_emptied mem with
        | inl old => exact .inr old
        | inr new =>
            rw [none] at new
            cases new
      · intro q' other
        rw [pushedTo_pushed, takenFrom_pushed, if_neg (Ne.symm other), List.append_nil]
        exact ⟨rfl, rfl⟩
      · rw [pushedTo_pushed, takenFrom_pushed, if_pos rfl, whole, List.append_assoc]
        refine ⟨waiting ++ [message], holds.push message, rfl, (fun p => by cases p), ?_, ?_⟩
        · intro freed'
          exact absurd (kept'.symm.trans freed') Bool.false_ne_true
        · intro mem
          rw [tasks] at mem
          cases mem_emptied mem with
          | inr new =>
              rw [none] at new
              cases new
          | inl old =>
              obtain ⟨u, task, inside⟩ := List.mem_flatMap.mp old
              have marked := State.release_of_emptied (account.inv.ok u task) inside v at_q
              exact absurd (unmarked.symm.trans marked) Bool.false_ne_true
  | @ends q services mem sub =>
      obtain ⟨v, at_q⟩ := account.inv.exists_queue at_i (State.mem_queues_of_emptied mem)
      obtain ⟨waiting, holds, whole, parked, freed, emptied⟩ := account.waits q v at_q
      have none := emptied (mem_task q mem)
      subst none
      refine account.acts inv at_q services (fun q mem => .inr (kept sub q mem)) ?_ ?_ rfl
        (fun _ _ h => by cases h)
      · intro q' _
        exact ⟨pushedTo_aside .quiet, takenFrom_aside .quiet⟩
      · rw [pushedTo_aside .quiet, takenFrom_aside .quiet]
        refine ⟨[], holds, whole, ?_, ?_, ?_⟩
        · exact fun _ => rfl
        · exact fun _ => rfl
        · exact fun _ => rfl

/-- A service was there, or it is the new one. -/
theorem launched [Inhabited M] {services : List (Service M)} {v : Service M}
    (here : (services ++ [Service.create])[q]? = some v) :
    services[q]? = some v ∨ services[q]? = none ∧ v = Service.create := by
  by_cases old : q < services.length
  · exact .inl ((List.getElem?_append_left old).symm.trans here)
  · rw [List.getElem?_append_right (Nat.not_lt.mp old)] at here
    have last := List.mem_singleton.mp (List.mem_of_getElem? here)
    exact .inr ⟨List.getElem?_eq_none (Nat.not_lt.mp old), last⟩

/-- A service comes with an empty queue. -/
theorem launch [Inhabited M] (account : Account trace s)
    (inv : ({ s with services := s.services ++ [Service.create] }.spawn
      (.inits s.services.length)).Inv) : Account (trace ++ [(e, .quiet)])
    ({ s with services := s.services ++ [Service.create] }.spawn (.inits s.services.length)) where
  inv := inv
  waits := by
    intro q v here
    rw [pushedTo_aside .quiet, takenFrom_aside .quiet]
    cases launched here with
    | inl old =>
        obtain ⟨waiting, holds, whole, parked, freed, emptied⟩ := account.waits q v old
        refine ⟨waiting, holds, whole, parked, freed, fun mem => emptied ?_⟩
        simpa [State.spawn, Task.emptied] using mem
    | inr new =>
        obtain ⟨absent, rfl⟩ := new
        obtain ⟨pushed, taken⟩ := account.unknown q absent
        rw [pushed, taken]
        exact ⟨[], .create, rfl, fun _ => rfl, fun _ => rfl, fun _ => rfl⟩
  unknown := by
    intro q absent
    rw [pushedTo_aside .quiet, takenFrom_aside .quiet]
    apply account.unknown q
    have late := List.getElem?_eq_none_iff.mp absent
    simp only [State.spawn, List.length_append] at late
    exact List.getElem?_eq_none (by omega)
  spared := by
    intro q v here unmarked x mem message dropped
    cases List.mem_append.mp mem with
    | inr last =>
        rw [List.mem_singleton.mp last] at dropped
        cases dropped
    | inl mem =>
        cases launched here with
        | inl old => exact account.spared q v old unmarked x mem message dropped
        | inr new =>
            have taken := (account.unknown q new.1).2
            rw [takenFrom, List.filterMap_eq_nil_iff] at taken
            have none := taken x mem
            simp [dropped, Output.takes] at none

theorem event [Inhabited M] {weight : Nat → Int} (account : Account trace s)
    (step : s.step weight e = some (s', o)) : Account (trace ++ [(e, o)]) s' := by
  have spawns : ∀ t : Task M, t.emptied = [] → (s.spawn t).Inv →
      Account (trace ++ [(e, .quiet)]) (s.spawn t) := by
    intro t none inv
    refine account.keeps inv .quiet (State.rel_self fun _ => .refl) ?_
    intro q mem
    rw [State.spawn, List.flatMap_append, List.flatMap_singleton, none, List.append_nil] at mem
    exact mem
  have inv := account.inv.event step
  cases e with
  | worker =>
      cases step
      exact spawns _ rfl inv
  | send q message =>
      cases step
      exact spawns _ rfl inv
  | retire q =>
      cases step
      exact spawns _ rfl inv
  | launch =>
      cases step
      exact account.launch inv
  | callback i cb =>
      obtain ⟨handle, -, ran⟩ := Option.map_eq_some_iff.mp step
      cases ran
      exact account.keeps inv .callback
        (State.rel_modify (fun _ => .refl) fun _ _ => ⟨rfl, rfl, id, rfl, id⟩) fun _ => id
  | step i initOk =>
      obtain ⟨t, at_i, ran⟩ := Option.bind_eq_some_iff.mp step
      exact account.run at_i ran

theorem of_reach [Inhabited M] {weight : Nat → Int} (reach : (machine weight).Reach trace s) :
    Account trace s := by
  refine reach.invariant Account ⟨State.Inv.init, ?_, ?_, ?_⟩ ?_
  · intro q v here
    cases here
  · intro q _
    exact ⟨rfl, rfl⟩
  · intro q v here
    cases here
  · intro trace s e s' o account step
    exact account.event step

end Account

end Qiuqiu.Server.Dispatch
