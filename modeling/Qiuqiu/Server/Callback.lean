import Qiuqiu.Server.Delivery

/-!
From the queue to the callback. A worker has one message of a service in its hand at most; it
looks for the callback of the service as the service has left it, and gives the message to it
or frees it. What is pushed is given, freed, dropped, in a hand or in the queue.
-/
namespace Qiuqiu.Server.Dispatch
variable {M : Type} {trace : List (Event M × Output M)} {s s' : State M} {q : Nat} {e : Event M}
  {o : Output M} {t t' : Task M} {i : Nat}

theorem Effect.takes_of_queues {services services' : List (Service M)}
    (effect : Effect services services' t t' o) (other : q ∉ t.queues) : o.takes q = none := by
  cases effect with
  | keeps looks => exact looks.aside.takes q
  | takes _ _ _ has output =>
      have different : _ ≠ q := fun same => other (same ▸ has)
      cases output with
      | inl taken => rw [taken, Output.takes, if_neg different]
      | inr dropped => rw [dropped.1, Output.takes, if_neg different]
  | empties | puts | ends => rfl

theorem Effect.sets {services services' : List (Service M)}
    (effect : Effect services services' t t' o) (q : Nat) : o.sets q = none := by
  cases effect with
  | @keeps o looks =>
      cases o with
      | callback _ _ => cases looks
      | _ => rfl
  | takes _ _ _ _ output =>
      cases output with
      | inl taken => rw [taken]; rfl
      | inr dropped => rw [dropped.1]; rfl
  | empties | puts | ends => rfl

/-- A task does not set the callback of a service. -/
theorem Effect.cb {services services' : List (Service M)}
    (effect : Effect services services' t t' o) (q : Nat) :
    services'[q]?.map Service.cb = services[q]?.map Service.cb := by
  have modified : ∀ (h : Nat) (f : Service M → Service M), (∀ v, (f v).cb = v.cb) →
      (services.modify h f)[q]?.map Service.cb = services[q]?.map Service.cb := by
    intro h f same
    by_cases here : h = q
    · subst here
      rw [List.getElem?_modify_eq]
      cases services[h]? with
      | none => rfl
      | some v => exact congrArg some (same v)
    · rw [List.getElem?_modify_ne f _ here]
  cases effect with
  | keeps _ rel =>
      have stays := rel q
      revert stays
      cases services[q]? with
      | none =>
          cases services'[q]? with
          | none => exact fun _ => rfl
          | some v' => exact fun stays => by cases stays
      | some v =>
          cases services'[q]? with
          | none => exact fun stays => by cases stays
          | some v' =>
              intro stays
              cases stays with
              | some stays => exact congrArg some stays.2
  | takes _ _ same | empties _ _ same | puts _ same | ends same =>
      rw [same]
      exact modified _ _ fun _ => rfl

theorem State.mem_queues_of_context {handle : Nat} (context : t.context = some handle) :
    handle ∈ t.queues := by
  cases t with
  | inits _ | calls _ _ _ =>
      cases context
      exact List.mem_cons_self
  | _ => cases context

/-- A queue is with one task: the message in its hand is the one in any hand. -/
theorem State.inHand_set (inv : s.Inv) (at_i : s.tasks[i]? = some t) (carries : Carries t t' o)
    (other : q ∉ t.queues → o.takes q = none) :
    (o.settles q).toList ++ (s.tasks.set i t').flatMap (Task.hand q) =
      s.inHand q ++ (o.takes q).toList := by
  obtain ⟨front, back, eq, set⟩ := Holders.exists_place at_i
  have step := carries q
  rw [State.inHand, set, eq]
  simp only [List.flatMap_append, List.flatMap_cons]
  by_cases has : q ∈ t.queues
  · have once := (List.nodup_iff_count_le_one.mp inv.exclusive.alone) q
    have here := List.count_pos_iff.mpr has
    rw [places, eq] at once
    simp only [List.flatMap_append, List.flatMap_cons, List.count_append] at once
    have empty : ∀ tasks : List (Task M), (tasks.flatMap Task.queues).count q = 0 →
        tasks.flatMap (Task.hand q) = [] := by
      intro tasks none
      apply List.flatMap_eq_nil_iff.mpr
      intro u mem
      apply hand_of_queues
      intro has
      exact List.count_eq_zero.mp none (List.mem_flatMap.mpr ⟨u, mem, has⟩)
    rw [empty front (by omega), empty back (by omega)]
    simpa using step
  · rw [hand_of_queues has, other has] at step
    obtain ⟨settles, hand⟩ := List.append_eq_nil_iff.mp step
    rw [settles, hand, hand_of_queues has, other has]
    exact (List.append_nil _).symm

/-- A message goes to the callback while the service has one, and is freed while it has none. -/
structure Heard (trace : List (Event M × Output M)) (x : Event M × Output M) : Prop where
  dispatched : ∀ q message, x.2 = .dispatched q message → callbackOf q trace = true
  freed : ∀ q message, x.2 = .freed q message → callbackOf q trace = false

theorem Heard.of_mute (settles : ∀ q, o.settles q = none) : Heard trace (e, o) where
  dispatched := by
    intro q message same
    have none := settles q
    cases same
    simp [Output.settles] at none
  freed := by
    intro q message same
    have none := settles q
    cases same
    simp [Output.settles] at none

theorem Heard.of_dropped {message : M} : Heard trace (e, .dropped q message) where
  dispatched _ _ same := by cases same
  freed _ _ same := by cases same

/-- What is taken from a queue is settled or in a hand, and every service has the callback it
has set. -/
structure Carried (trace : List (Event M × Output M)) (s : State M) : Prop where
  hand : ∀ q, takenFrom q trace = settledOf q trace ++ s.inHand q
  cb : ∀ (q : Nat) (v : Service M), s.services[q]? = some v → v.cb = callbackOf q trace
  unknown : ∀ q : Nat, s.services[q]? = none → callbackOf q trace = false
  heard : ∀ pre x post, trace = pre ++ x :: post → Heard pre x

theorem callbackOf_concat : callbackOf q (trace ++ [(e, o)]) =
    (o.sets q).getD (callbackOf q trace) := by
  rw [callbackOf, Machine.filterMap_concat]
  cases o.sets q with
  | none => rw [Option.toList_none, List.append_nil]; rfl
  | some cb => exact List.getLastD_concat ..

theorem settledOf_concat : settledOf q (trace ++ [(e, o)]) =
    settledOf q trace ++ (o.settles q).toList := Machine.filterMap_concat ..

theorem takenFrom_concat : takenFrom q (trace ++ [(e, o)]) =
    takenFrom q trace ++ (o.takes q).toList := Machine.filterMap_concat ..

namespace Carried

theorem heard_concat (carried : Carried trace s) (last : Heard trace (e, o)) :
    ∀ pre x post, trace ++ [(e, o)] = pre ++ x :: post → Heard pre x := by
  intro pre x post split
  cases Machine.split_concat split with
  | inl old =>
      obtain ⟨post', -, before⟩ := old
      exact carried.heard pre x post' before
  | inr new =>
      obtain ⟨-, rfl, rfl⟩ := new
      exact last

/-- A step of a task. -/
theorem run {w : Int} {initOk : Bool} (carried : Carried trace s) (inv : s.Inv)
    (at_i : s.tasks[i]? = some t) (step : s.run w i initOk t = some (s', o)) :
    Carried (trace ++ [(e, o)]) s' := by
  obtain ⟨t', tasks, effect, carries⟩ := State.run_effect inv at_i step
  have same := effect.cb
  have silent : ∀ q, callbackOf q (trace ++ [(e, o)]) = callbackOf q trace := by
    intro q
    rw [callbackOf_concat, effect.sets]
    rfl
  refine ⟨?_, ?_, ?_, carried.heard_concat ?_⟩
  · intro q
    have moves := State.inHand_set (q := q) inv at_i carries effect.takes_of_queues
    rw [takenFrom_concat, settledOf_concat, carried.hand, List.append_assoc, ← moves,
      State.inHand, tasks, List.append_assoc]
  · intro q v' at_q
    have kept := same q
    rw [at_q] at kept
    obtain ⟨v, before, cb⟩ := Option.map_eq_some_iff.mp kept.symm
    rw [silent, ← carried.cb q v before, cb]
  · intro q absent
    have kept := same q
    rw [absent] at kept
    rw [silent]
    exact carried.unknown q (Option.map_eq_none_iff.mp kept.symm)
  · cases effect with
    | @keeps o looks =>
        refine ⟨?_, ?_⟩
        · intro q message same
          cases same
          obtain ⟨v, at_q, cb⟩ := looks
          rw [← carried.cb q v at_q, cb]
        · intro q message same
          cases same
          obtain ⟨v, at_q, cb⟩ := looks
          rw [← carried.cb q v at_q, cb]
    | takes _ _ _ _ output =>
        cases output with
        | inl taken => exact taken ▸ .of_mute fun _ => rfl
        | inr dropped => exact dropped.1 ▸ .of_dropped
    | empties | puts | ends => exact .of_mute fun _ => rfl

/-- What happens aside of the tasks. -/
theorem beside (carried : Carried trace s) (hand : ∀ q, s'.inHand q = s.inHand q)
    (settles : ∀ q, o.settles q = none) (takes : ∀ q, o.takes q = none)
    (cb : ∀ (q : Nat) (v' : Service M), s'.services[q]? = some v' →
      v'.cb = (o.sets q).getD (callbackOf q trace))
    (unknown : ∀ q : Nat, s'.services[q]? = none →
      (o.sets q).getD (callbackOf q trace) = false) : Carried (trace ++ [(e, o)]) s' where
  hand := by
    intro q
    rw [takenFrom_concat, settledOf_concat, settles, takes, hand, Option.toList_none,
      List.append_nil, List.append_nil]
    exact carried.hand q
  cb := by
    intro q v' at_q
    rw [callbackOf_concat]
    exact cb q v' at_q
  unknown := by
    intro q absent
    rw [callbackOf_concat]
    exact unknown q absent
  heard := carried.heard_concat (.of_mute settles)

/-- A task begins with nothing in its hand. -/
theorem inHand_spawn (none : ∀ q, t.hand q = []) (q : Nat) :
    (s.tasks ++ [t]).flatMap (Task.hand q) = s.inHand q := by
  rw [List.flatMap_append, List.flatMap_singleton, none, List.append_nil]
  rfl

theorem spawn (carried : Carried trace s) (none : ∀ q, t.hand q = []) :
    Carried (trace ++ [(e, .quiet)]) (s.spawn t) :=
  carried.beside (inHand_spawn none) (fun _ => rfl) (fun _ => rfl) carried.cb carried.unknown

theorem event [Inhabited M] {weight : Nat → Int} (carried : Carried trace s) (inv : s.Inv)
    (step : s.step weight e = some (s', o)) : Carried (trace ++ [(e, o)]) s' := by
  cases e with
  | worker =>
      cases step
      exact carried.spawn fun _ => rfl
  | send q message =>
      cases step
      exact carried.spawn fun _ => rfl
  | retire q =>
      cases step
      exact carried.spawn fun _ => rfl
  | launch =>
      cases step
      refine carried.beside ?_ (fun _ => rfl) (fun _ => rfl) ?_ ?_
      · exact inHand_spawn fun _ => rfl
      · intro q v here
        cases Account.launched here with
        | inl old => exact carried.cb q v old
        | inr new =>
            obtain ⟨absent, rfl⟩ := new
            exact (carried.unknown q absent).symm
      · intro q absent
        apply carried.unknown q
        have late := List.getElem?_eq_none_iff.mp absent
        simp only [State.spawn, List.length_append] at late
        exact List.getElem?_eq_none (by omega)
  | callback i cb =>
      obtain ⟨handle, runs, ran⟩ := Option.map_eq_some_iff.mp step
      obtain ⟨t, at_i, context⟩ := Option.bind_eq_some_iff.mp runs
      cases ran
      obtain ⟨v, at_h⟩ := inv.exists_queue at_i (State.mem_queues_of_context context)
      refine carried.beside (fun _ => rfl) (fun _ => rfl) (fun _ => rfl) ?_ ?_
      · intro q v' here
        rw [State.services_update] at here
        by_cases same : handle = q
        · subst same
          rw [List.getElem?_modify_eq, at_h] at here
          cases here
          rw [Output.sets, if_pos rfl]
          rfl
        · rw [List.getElem?_modify_ne _ _ same] at here
          rw [Output.sets, if_neg same]
          exact carried.cb q v' here
      · intro q absent
        rw [State.services_update] at absent
        by_cases same : handle = q
        · subst same
          rw [List.getElem?_modify_eq, at_h] at absent
          cases absent
        · rw [List.getElem?_modify_ne _ _ same] at absent
          rw [Output.sets, if_neg same]
          exact carried.unknown q absent
  | step i initOk =>
      obtain ⟨t, at_i, ran⟩ := Option.bind_eq_some_iff.mp step
      exact carried.run inv at_i ran

theorem of_reach [Inhabited M] {weight : Nat → Int} (reach : (machine weight).Reach trace s) :
    Carried trace s := by
  suffices both : s.Inv ∧ Carried trace s from both.2
  refine reach.invariant (fun trace s => s.Inv ∧ Carried trace s) ⟨State.Inv.init, ?_⟩ ?_
  · refine ⟨fun _ => rfl, ?_, fun _ _ => rfl, ?_⟩
    · intro q v here
      cases here
    · intro pre x post split
      simp at split
  · intro trace s e s' o both step
    exact ⟨both.1.event step, both.2.event both.1 step⟩

end Carried

theorem State.length_hand (t : Task M) : (t.hand q).length ≤ t.queues.count q := by
  induction t with
  | sizes q' _ _ _ | dispatches q' _ _ _ =>
      rw [Task.hand, Task.queues, List.count_singleton]
      by_cases here : q' = q
      · simp [here]
      · simp [here]
  | retires _ next ih | lets _ next ih | marks _ next ih | frees _ next ih => exact ih
  | releases q' next ih | drops q' next ih | freesQueue q' next ih =>
      exact Nat.le_trans ih (List.count_le_count_cons ..)
  | _ => exact Nat.zero_le _

theorem State.length_inHand (inv : s.Inv) : (s.inHand q).length ≤ 1 := by
  have fits : ∀ tasks : List (Task M), (tasks.flatMap (Task.hand q)).length ≤
      (tasks.flatMap Task.queues).count q := by
    intro tasks
    induction tasks with
    | nil => exact Nat.le_refl 0
    | cons t tasks ih =>
        rw [List.flatMap_cons, List.flatMap_cons, List.length_append, List.count_append]
        exact Nat.add_le_add (length_hand t) ih
  have once := List.nodup_iff_count_le_one.mp inv.exclusive.alone q
  rw [places, List.count_append] at once
  exact Nat.le_trans (fits s.tasks) (by omega)

/-- The messages of a service are settled in the order of the pushes, each once: given to its
callback, freed by a worker while it has none, or dropped, and that behind its retirement only.
One at most is in the hand of a worker; and while one waits in the queue, the queue is in the
global queue or with a task. When all tasks rest, every message is settled, and what is retired
is freed. -/
structure Delivered (trace : List (Event M × Output M)) (s : State M) : Prop where
  order : ∀ (q : Nat) (v : Service M), s.services[q]? = some v →
    ∃ waiting, v.mq.Holds waiting ∧ pushedTo q trace = settledOf q trace ++ s.inHand q ++ waiting ∧
      (s.inHand q).length ≤ 1 ∧ (waiting ≠ [] → q ∈ s.places)
  heard : ∀ pre x post, trace = pre ++ x :: post → Heard pre x
  spared : ∀ (q : Nat) (v : Service M), s.services[q]? = some v → v.inTable = true →
    ∀ x ∈ trace, ∀ message, x.2 ≠ .dropped q message
  settled : s.global = [] → (∀ t ∈ s.tasks, t = .idle ∨ t = .done) →
    ∀ (q : Nat) (v : Service M), s.services[q]? = some v →
      settledOf q trace = pushedTo q trace ∧ v.freed = !v.inTable ∧ v.queueFreed = !v.inTable

theorem Account.delivered (account : Account trace s) (carried : Carried trace s) :
    Delivered trace s where
  heard := carried.heard
  order := by
    intro q v at_q
    obtain ⟨waiting, holds, whole, parked, freed, -⟩ := account.waits q v at_q
    rw [carried.hand] at whole
    refine ⟨waiting, holds, whole, State.length_inHand account.inv, fun more => ?_⟩
    have fits := account.inv.owned q
    rw [at_q] at fits
    have token := fits.token
    apply List.count_pos_iff.mp
    cases isParked : v.parked with
    | true => exact absurd (parked isParked) more
    | false =>
        cases isFreed : v.queueFreed with
        | true => exact absurd (freed isFreed) more
        | false =>
            rw [isParked, isFreed, Bool.toNat_false] at token
            omega
  spared := by
    intro q v at_q inTable
    have fits := account.inv.owned q
    rw [at_q] at fits
    refine account.spared q v at_q (Service.Fits.not_release fits ?_)
    rw [inTable, Bool.toNat_true]
    omega
  settled := by
    intro global rest q v at_q
    have nothing : ∀ f : Task M → List Nat, f .idle = [] → f .done = [] →
        (s.tasks.flatMap f).count q = 0 := by
      intro f idle done
      rw [List.count_eq_zero, List.mem_flatMap]
      rintro ⟨t, mem, inside⟩
      cases rest t mem with
      | inl here => rw [here, idle] at inside; cases inside
      | inr here => rw [here, done] at inside; cases inside
    obtain ⟨waiting, holds, whole, parked, freed, -⟩ := account.waits q v at_q
    have fits := account.inv.owned q
    rw [at_q, State.places, global, List.nil_append, nothing _ rfl rfl, nothing _ rfl rfl,
      nothing _ rfl rfl, nothing _ rfl rfl] at fits
    obtain ⟨token, counted, deleted, marked, ended⟩ := fits
    have none : waiting = [] := by
      cases isParked : v.parked with
      | true => exact parked isParked
      | false =>
          rw [isParked, Bool.toNat_false] at token
          exact freed (Bool.toNat_eq_one.mp (by omega))
    have hand : s.inHand q = [] := by
      apply List.flatMap_eq_nil_iff.mpr
      intro t mem
      cases rest t mem with
      | inl here => rw [here]; rfl
      | inr here => rw [here]; rfl
    have taken : settledOf q trace = pushedTo q trace := by
      rw [whole, none, List.append_nil, carried.hand, hand, List.append_nil]
    cases inTable : v.inTable with
    | true =>
        rw [inTable, Bool.toNat_true] at counted
        exact ⟨taken, Bool.toNat_eq_zero.mp (by omega), Bool.toNat_eq_zero.mp (by omega)⟩
    | false =>
        rw [inTable, Bool.toNat_false] at counted
        have gone : v.mq.release = true := Bool.toNat_eq_one.mp (by omega)
        rw [Service.parked, gone, Bool.not_true, Bool.and_false, Bool.toNat_false] at token
        exact ⟨taken, Bool.toNat_eq_one.mp (by omega), Bool.toNat_eq_one.mp (by omega)⟩

theorem dispatch_delivers [Inhabited M] {weight : Nat → Int}
    (reach : (machine weight).Reach trace s) : Delivered trace s :=
  (Account.of_reach reach).delivered (.of_reach reach)

/-- A service takes its callback away in the first message, so the second one is freed, and the
third one is dropped behind the retirement. -/
theorem dispatch_delivers_dropped : ∃ trace, ∃ s : State Nat,
    (machine fun _ => -1).Reach trace s ∧
      (trace.map Prod.snd).filter (fun o => (o.settles 0).isSome) =
        [.dispatched 0 7, .freed 0 8, .dropped 0 9] ∧ Delivered trace s := by
  have ran : ∃ trace s, (machine (M := Nat) fun _ => -1).run (machine fun _ => -1).init
      [.launch, .callback 0 true, .step 0 true, .step 0 true, .step 0 true, .step 0 true,
        .send 0 7, .send 0 8, .send 0 9, .step 1 true, .step 1 true, .step 1 true, .step 2 true,
        .step 2 true, .step 2 true, .step 3 true, .step 3 true, .step 3 true, .worker,
        .step 4 true, .step 4 true, .step 4 true, .step 4 true, .step 4 true, .callback 4 false,
        .step 4 true, .step 4 true, .step 4 true, .step 4 true, .step 4 true, .step 4 true,
        .step 4 true, .retire 0, .step 5 true, .step 4 true, .step 4 true, .step 4 true,
        .step 5 true, .step 5 true, .step 5 true, .step 4 true, .step 4 true, .step 4 true,
        .step 4 true] = some (trace, s) ∧
      (trace.map Prod.snd).filter (fun o => (o.settles 0).isSome) =
        [.dispatched 0 7, .freed 0 8, .dropped 0 9] := ⟨_, _, rfl, rfl⟩
  obtain ⟨trace, s, ran, settled⟩ := ran
  exact ⟨trace, s, Machine.reach_run ran, settled, dispatch_delivers (Machine.reach_run ran)⟩

end Qiuqiu.Server.Dispatch
