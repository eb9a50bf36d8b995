/-!
Labelled machines. A machine answers an event or does not admit it; its
traces list the events it admitted with their answers. Invariants hold along
every trace, and a simulation carries traces from one machine to another,
possibly forgetting or renaming some of their labels.
-/
structure Machine (S E O : Type) where
  init : S
  step : S → E → Option (S × O)

namespace Machine
variable {S T E F O P : Type}

inductive Reach (M : Machine S E O) : List (E × O) → S → Prop
  | init : Reach M [] M.init
  | next {trace s e s' o} : Reach M trace s → M.step s e = some (s', o) →
      Reach M (trace ++ [(e, o)]) s'

theorem Reach.invariant {M : Machine S E O} (inv : List (E × O) → S → Prop)
    (start : inv [] M.init)
    (keep : ∀ trace s e s' o, inv trace s → M.step s e = some (s', o) →
      inv (trace ++ [(e, o)]) s')
    {trace : List (E × O)} {s : S} (reach : M.Reach trace s) : inv trace s := by
  induction reach with
  | init => exact start
  | next _ hstep ih => exact keep _ _ _ _ _ ih hstep

/-- A split of a longer run is one of the run itself, or the last event. -/
theorem split_concat {α : Type} {trace pre post : List α} {x y : α}
    (h : trace ++ [x] = pre ++ y :: post) :
    (∃ post', post = post' ++ [x] ∧ trace = pre ++ y :: post') ∨
      post = [] ∧ trace = pre ∧ x = y := by
  cases List.eq_nil_or_concat post with
  | inl nil =>
      subst nil
      have parts := List.append_inj' h rfl
      exact .inr ⟨rfl, parts.1, by simpa using parts.2⟩
  | inr concat =>
      obtain ⟨post', last, rfl⟩ := concat
      rw [List.concat_eq_append, ← List.cons_append, ← List.append_assoc] at h
      have parts := List.append_inj' h rfl
      have same : x = last := by simpa using parts.2
      exact .inl ⟨post', by rw [same, List.concat_eq_append], parts.1⟩

theorem filterMap_concat {α β : Type} (f : α → Option β) (trace : List α) (x : α) :
    (trace ++ [x]).filterMap f = trace.filterMap f ++ (f x).toList := by
  rw [List.filterMap_append]
  cases h : f x with
  | none => simp [h]
  | some y => simp [h]

theorem filterMap_concat_none {α β : Type} {f : α → Option β} {trace : List α} {x : α}
    (h : f x = none) : (trace ++ [x]).filterMap f = trace.filterMap f := by
  rw [filterMap_concat, h, Option.toList_none, List.append_nil]

/-- The state after a list of events, if the machine admits them all. -/
def exec (M : Machine S E O) : S → List E → Option S
  | s, [] => some s
  | s, e :: events =>
      match M.step s e with
      | some (s', _) => M.exec s' events
      | none => none

theorem Reach.exec_events {M : Machine S E O} {trace : List (E × O)} {s s' : S} {events : List E}
    (reach : M.Reach trace s) (h : M.exec s events = some s') :
    ∃ more, more.map Prod.fst = events ∧ M.Reach (trace ++ more) s' := by
  induction events generalizing trace s with
  | nil =>
      cases h
      exact ⟨[], rfl, by rwa [List.append_nil]⟩
  | cons e events ih =>
      rw [Machine.exec] at h
      split at h
      · rename_i s₁ o step
        obtain ⟨more, labels, reach⟩ := ih (reach.next step) h
        exact ⟨(e, o) :: more, by rw [List.map_cons, labels], by simpa using reach⟩
      · cases h

theorem Reach.exec {M : Machine S E O} {trace : List (E × O)} {s s' : S} {events : List E}
    (reach : M.Reach trace s) (h : M.exec s events = some s') : ∃ trace', M.Reach trace' s' := by
  obtain ⟨more, _, reach'⟩ := reach.exec_events h
  exact ⟨trace ++ more, reach'⟩

/-- The trace of a list of events, and the state behind it. -/
def run (M : Machine S E O) : S → List E → Option (List (E × O) × S)
  | s, [] => some ([], s)
  | s, e :: events =>
      match M.step s e with
      | some (s', o) => (M.run s' events).map fun (trace, t) => ((e, o) :: trace, t)
      | none => none

theorem Reach.run {M : Machine S E O} {trace more : List (E × O)} {s s' : S} {events : List E}
    (reach : M.Reach trace s) (h : M.run s events = some (more, s')) :
    M.Reach (trace ++ more) s' := by
  induction events generalizing trace more s with
  | nil =>
      cases h
      rwa [List.append_nil]
  | cons e events ih =>
      rw [Machine.run] at h
      split at h
      · rename_i s₁ o step
        obtain ⟨⟨rest, t⟩, ran, same⟩ := Option.map_eq_some_iff.1 h
        cases same
        simpa using ih (reach.next step) ran
      · cases h

theorem reach_run {M : Machine S E O} {trace : List (E × O)} {s : S} {events : List E}
    (h : M.run M.init events = some (trace, s)) : M.Reach trace s := Reach.init.run h

/-- The machine started in another state: its runs are the continuations of a
run that reached the state. -/
def restart (M : Machine S E O) (s : S) : Machine S E O := { M with init := s }

/-- A run is its first step and a run from there. -/
theorem Reach.uncons {M : Machine S E O} {x : E × O} {trace : List (E × O)} {s s' : S}
    (reach : (M.restart s).Reach (x :: trace) s') :
    ∃ t, M.step s x.1 = some (t, x.2) ∧ (M.restart t).Reach trace s' := by
  have split : ∀ run s', (M.restart s).Reach run s' → (run = [] ∧ s' = s) ∨
      ∃ x trace t, run = x :: trace ∧ M.step s x.1 = some (t, x.2) ∧
        (M.restart t).Reach trace s' := by
    intro run s' reach
    induction reach with
    | init => exact .inl ⟨rfl, rfl⟩
    | @next run u e s' o _ step ih =>
        cases ih with
        | inl start =>
            obtain ⟨rfl, rfl⟩ := start
            exact .inr ⟨(e, o), [], s', rfl, step, .init⟩
        | inr later =>
            obtain ⟨x, trace, t, rfl, first, rest⟩ := later
            exact .inr ⟨x, trace ++ [(e, o)], t, rfl, first, rest.next step⟩
  obtain ⟨none, _⟩ | ⟨x', trace', t, same, first, rest⟩ := split _ _ reach
  · cases none
  · cases same
    exact ⟨t, first, rest⟩

/-- A run up to one of its events, and the step of this event. -/
theorem Reach.split {M : Machine S E O} {pre post : List (E × O)} {x : E × O} {s : S}
    (reach : M.Reach (pre ++ x :: post) s) :
    ∃ t t', M.Reach pre t ∧ M.step t x.1 = some (t', x.2) ∧ M.Reach (pre ++ [x]) t' := by
  generalize whole : pre ++ x :: post = trace at reach
  induction reach generalizing post with
  | init => simp at whole
  | @next trace u e s' o before step ih =>
      cases split_concat whole.symm with
      | inl inside =>
          obtain ⟨post', -, same⟩ := inside
          exact ih same.symm
      | inr last =>
          obtain ⟨-, rfl, rfl⟩ := last
          exact ⟨u, s', before, step, before.next step⟩

/-- The machine that admits only the steps `ok` allows: its runs are the runs
of the machine in which every step meets the condition. -/
def guard (M : Machine S E O) (ok : S → E → Bool) : Machine S E O where
  init := M.init
  step := fun s e => if ok s e then M.step s e else none

theorem guard_step {M : Machine S E O} {ok : S → E → Bool} {s s' : S} {e : E} {o : O}
    (h : (M.guard ok).step s e = some (s', o)) : ok s e = true ∧ M.step s e = some (s', o) := by
  simp only [guard] at h
  split at h
  · exact ⟨by assumption, h⟩
  · cases h

theorem guard_step_of {M : Machine S E O} {ok : S → E → Bool} {s : S} {e : E}
    (meets : ok s e = true) : (M.guard ok).step s e = M.step s e := if_pos meets

/-- The runs of the guarded machine are runs of the machine. -/
theorem Reach.of_guard {M : Machine S E O} {ok : S → E → Bool} {trace : List (E × O)} {s : S}
    (reach : (M.guard ok).Reach trace s) : M.Reach trace s := by
  induction reach with
  | init => exact .init
  | next _ step ih => exact ih.next (guard_step step).2

/-- The machine whose answers carry the states before and after the step. -/
def record (M : Machine S E O) : Machine S E (S × O × S) where
  init := M.init
  step := fun s e => (M.step s e).map fun (s', o) => (s', s, o, s')

theorem record_step {M : Machine S E O} {s s' : S} {e : E} {x : S × O × S}
    (h : M.record.step s e = some (s', x)) : ∃ o, x = (s, o, s') ∧ M.step s e = some (s', o) := by
  obtain ⟨⟨t, o⟩, moved, label⟩ := Option.map_eq_some_iff.1 h
  cases label
  exact ⟨o, rfl, moved⟩

/-- Two properties of steps that agree wherever `J` holds, and the first of which keeps
`J`, hold of the same runs. -/
theorem Reach.record_iff {M : Machine S E O} (J : S → Prop) (start : J M.init)
    {P Q : S → E → O → S → Prop}
    (keep : ∀ s e s' o, J s → M.step s e = some (s', o) → P s e o s' → J s')
    (h : ∀ s e s' o, J s → M.step s e = some (s', o) → (P s e o s' ↔ Q s e o s'))
    {trace : List (E × S × O × S)} {s : S} (reach : M.record.Reach trace s) :
    ((∀ x ∈ trace, P x.2.1 x.1 x.2.2.1 x.2.2.2) → J s) ∧
      ((∀ x ∈ trace, P x.2.1 x.1 x.2.2.1 x.2.2.2) ↔
        ∀ x ∈ trace, Q x.2.1 x.1 x.2.2.1 x.2.2.2) := by
  induction reach with
  | init => exact ⟨fun _ => start, by simp⟩
  | @next trace s e s' o _ step ih =>
      obtain ⟨o', rfl, moved⟩ := record_step step
      obtain ⟨last, iff⟩ := ih
      simp only [List.forall_mem_append, List.forall_mem_singleton]
      refine ⟨fun all => keep s e s' o' (last all.1) moved all.2, ?_⟩
      constructor
      · rintro ⟨before, now⟩
        exact ⟨iff.mp before, (h s e s' o' (last before) moved).mp now⟩
      · rintro ⟨before, now⟩
        have before := iff.mpr before
        exact ⟨before, (h s e s' o' (last before) moved).mpr now⟩

/-- Two properties of steps that agree wherever an invariant holds agree on
every run. -/
theorem Reach.record_forall_iff {M : Machine S E O} (inv : S → Prop) (start : inv M.init)
    (keep : ∀ s e s' o, inv s → M.step s e = some (s', o) → inv s')
    {P Q : S → E → O → S → Prop}
    (h : ∀ s e s' o, inv s → M.step s e = some (s', o) → (P s e o s' ↔ Q s e o s'))
    {trace : List (E × S × O × S)} {s : S} (reach : M.record.Reach trace s) :
    inv s ∧ ((∀ x ∈ trace, P x.2.1 x.1 x.2.2.1 x.2.2.2) ↔
      ∀ x ∈ trace, Q x.2.1 x.1 x.2.2.1 x.2.2.2) := by
  have always : inv s := by
    refine (reach.record_iff inv start (P := fun _ _ _ _ => True) (Q := fun _ _ _ _ => True)
      (fun s e s' o inv step _ => keep s e s' o inv step) (fun _ _ _ _ _ _ => Iff.rfl)).1 ?_
    intros
    trivial
  exact ⟨always, (reach.record_iff inv start
    (fun s e s' o inv step _ => keep s e s' o inv step) h).2⟩

/-- A property of states that an invariant gives, and that fails behind every step against
a condition, holds along a run exactly when every step meets the condition. -/
theorem Reach.states_iff {M : Machine S E O} (J : S → Prop) (start : J M.init)
    {good : S → Prop} {ok : S → E → Prop}
    (keep : ∀ s e s' o, J s → M.step s e = some (s', o) → ok s e → J s')
    (sound : ∀ s, J s → good s)
    (needed : ∀ s e s' o, J s → M.step s e = some (s', o) → good s' → ok s e)
    {trace : List (E × S × O × S)} {s : S} (reach : M.record.Reach trace s) :
    (∀ x ∈ trace, good x.2.2.2) ↔ ∀ x ∈ trace, ok x.2.1 x.1 := by
  refine (reach.record_iff J start (P := fun _ _ _ s' => good s') (Q := fun s e _ _ => ok s e)
    ?_ ?_).2
  · intro s e s' o inv step now
    exact keep s e s' o inv step (needed s e s' o inv step now)
  · intro s e s' o inv step
    exact ⟨needed s e s' o inv step, fun now => sound s' (keep s e s' o inv step now)⟩

/-- Both machines refuse, or both give the same answer and stay related. -/
def Agree (R : S → T → Prop) : Option (S × O) → Option (T × O) → Prop
  | none, none => True
  | some (s, o), some (t, p) => o = p ∧ R s t
  | _, _ => False

theorem Agree.exists_left {R : S → T → Prop} {x : Option (S × O)} {t : T} {o : O}
    (h : Agree R x (some (t, o))) : ∃ s, x = some (s, o) ∧ R s t := by
  cases x with
  | none => exact h.elim
  | some x => exact ⟨x.1, by rw [← h.1], h.2⟩

structure Bisimulation (M : Machine S E O) (N : Machine T E O) (R : S → T → Prop) :
    Prop where
  start : R M.init N.init
  keep : ∀ s t e, R s t → Agree R (M.step s e) (N.step t e)

theorem Agree.symm {R : S → T → Prop} {x : Option (S × O)} {y : Option (T × O)}
    (h : Agree R x y) : Agree (fun t s => R s t) y x := by
  cases x with
  | none =>
      cases y with
      | none => trivial
      | some y => exact h
  | some x =>
      cases y with
      | none => exact h
      | some y => exact ⟨h.1.symm, h.2⟩

theorem Bisimulation.symm {M : Machine S E O} {N : Machine T E O} {R : S → T → Prop}
    (b : Bisimulation M N R) : Bisimulation N M fun t s => R s t where
  start := b.start
  keep := fun t s e h => (b.keep s t e h).symm

theorem Bisimulation.reach {M : Machine S E O} {N : Machine T E O} {R : S → T → Prop}
    (b : Bisimulation M N R) {trace : List (E × O)} {s : S} (h : M.Reach trace s) :
    ∃ t, N.Reach trace t ∧ R s t := by
  induction h with
  | init => exact ⟨N.init, .init, b.start⟩
  | @next trace s e s' o _ hstep ih =>
      obtain ⟨t, ht, hR⟩ := ih
      have agree := b.symm.keep t s e hR
      rw [hstep] at agree
      obtain ⟨t', hN, hR'⟩ := agree.exists_left
      exact ⟨t', ht.next hN, hR'⟩

/-- `N` goes from `t` to a state related to `s'` by a step with this label;
without a label it stays where it is. -/
def Mirrors (N : Machine T F P) (R : S → T → Prop) (t : T) (s' : S) :
    Option (F × P) → Prop
  | none => R s' t
  | some (f, p) => ∃ t', N.step t f = some (t', p) ∧ R s' t'

structure Simulation (M : Machine S E O) (N : Machine T F P)
    (label : E × O → Option (F × P)) (R : S → T → Prop) : Prop where
  start : R M.init N.init
  keep : ∀ s t e s' o, R s t → M.step s e = some (s', o) → N.Mirrors R t s' (label (e, o))

theorem Simulation.reach {M : Machine S E O} {N : Machine T F P}
    {label : E × O → Option (F × P)} {R : S → T → Prop} (sim : Simulation M N label R)
    {trace : List (E × O)} {s : S} (h : M.Reach trace s) :
    ∃ t, N.Reach (trace.filterMap label) t ∧ R s t := by
  induction h with
  | init => exact ⟨N.init, .init, sim.start⟩
  | @next trace s e s' o _ hstep ih =>
      obtain ⟨t, ht, hR⟩ := ih
      have keep := sim.keep s t e s' o hR hstep
      cases hlabel : label (e, o) with
      | none =>
          rw [hlabel] at keep
          refine ⟨t, ?_, keep⟩
          rw [List.filterMap_append]
          simpa [hlabel] using ht
      | some fp =>
          rw [hlabel] at keep
          obtain ⟨t', hN, hR'⟩ := keep
          refine ⟨t', ?_, hR'⟩
          rw [List.filterMap_append]
          simpa [hlabel] using ht.next hN

end Machine
