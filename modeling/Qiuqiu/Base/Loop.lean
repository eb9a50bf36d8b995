import Mathlib.Data.List.Basic

/-!
Loops over a list that can leave early. A loop that went through has taken every
step, and one that did not has stopped at a step; what its steps wrote is what
the last of them wrote.
-/
namespace Qiuqiu.Loop
variable {C T D ε : Type} {f : T → C → Except ε T} {l : List C} {t t' : T} {e : ε}

theorem ok_bind {α β : Type} (a : α) (g : α → Except ε β) : Except.ok a >>= g = g a := rfl

theorem bind_ok {α β : Type} {x : Except ε α} {g : α → Except ε β} {b : β} :
    x >>= g = .ok b ↔ ∃ a, x = .ok a ∧ g a = .ok b := by
  cases x with
  | ok a => simp [bind, Except.bind]
  | error e => simp [bind, Except.bind]

theorem bind_error {α β : Type} {x : Except ε α} {g : α → Except ε β} :
    x >>= g = .error e ↔ x = .error e ∨ ∃ a, x = .ok a ∧ g a = .error e := by
  cases x with
  | ok a => simp [bind, Except.bind]
  | error e => simp [bind, Except.bind]

theorem map_bind {α β γ : Type} (x : Except ε α) (g : α → Except ε β) (k : β → γ) :
    (x >>= g).map k = x >>= fun a => (g a).map k := by
  cases x <;> rfl

/-- What holds of the start and is kept by every step holds of the end, with the
elements that have been visited. -/
theorem foldlM_invariant (P : List C → T → Prop) (start : P [] t)
    (step : ∀ done c t t', P done t → f t c = .ok t' → P (done ++ [c]) t')
    (run : l.foldlM f t = .ok t') : P l t' := by
  have general : ∀ rest done t, P done t → rest.foldlM f t = .ok t' → P (done ++ rest) t' := by
    intro rest
    induction rest with
    | nil =>
        intro done t holds run
        cases run
        rw [List.append_nil]
        exact holds
    | cons c rest ih =>
        intro done t holds run
        rw [List.foldlM_cons, bind_ok] at run
        obtain ⟨t₁, first, run⟩ := run
        have later := ih (done ++ [c]) t₁ (step done c t t₁ holds first) run
        rwa [List.append_assoc, List.singleton_append] at later
  exact general l [] t start run

/-- A loop whose steps return, each from what the steps before it have left. -/
theorem foldlM_returns (P : List C → T → Prop) (start : P [] t)
    (step : ∀ done c rest t, l = done ++ c :: rest → P done t →
      ∃ t', f t c = .ok t' ∧ P (done ++ [c]) t') : ∃ t', l.foldlM f t = .ok t' ∧ P l t' := by
  have general : ∀ rest done t, l = done ++ rest → P done t →
      ∃ t', rest.foldlM f t = .ok t' ∧ P l t' := by
    intro rest
    induction rest with
    | nil =>
        intro done t whole holds
        rw [List.append_nil] at whole
        exact ⟨t, rfl, whole ▸ holds⟩
    | cons c rest ih =>
        intro done t whole holds
        obtain ⟨t₁, first, holds₁⟩ := step done c rest t whole holds
        obtain ⟨t', run, done'⟩ := ih (done ++ [c]) t₁ (by simp [whole]) holds₁
        refine ⟨t', ?_, done'⟩
        rw [List.foldlM_cons, first]
        exact run
  exact general l [] t rfl start

/-- A loop that does the same on a part of the state. -/
theorem foldlM_map {S : Type} {g : S → C → Except ε S} {part : T → S}
    (same : ∀ t c, (f t c).map part = g (part t) c) :
    (l.foldlM f t).map part = l.foldlM g (part t) := by
  induction l generalizing t with
  | nil => rfl
  | cons c l ih =>
      rw [List.foldlM_cons, List.foldlM_cons, ← same t c]
      cases f t c with
      | ok t' => exact ih
      | error e => rfl

/-- A loop that left early has stopped at one of its steps. -/
theorem foldlM_error (run : l.foldlM f t = .error e) : ∃ c ∈ l, ∃ t₁, f t₁ c = .error e := by
  induction l generalizing t with
  | nil => cases run
  | cons c l ih =>
      rw [List.foldlM_cons, bind_error] at run
      cases run with
      | inl first => exact ⟨c, List.mem_cons_self, t, first⟩
      | inr later =>
          obtain ⟨t₁, -, run⟩ := later
          obtain ⟨c', mem, stopped⟩ := ih run
          exact ⟨c', List.mem_cons_of_mem c mem, stopped⟩

/-- A loop that went through has taken every step. -/
theorem foldlM_steps (run : l.foldlM f t = .ok t') :
    ∀ c ∈ l, ∃ t₁ t₂, f t₁ c = .ok t₂ := by
  induction l generalizing t with
  | nil => nofun
  | cons c l ih =>
      rw [List.foldlM_cons, bind_ok] at run
      obtain ⟨t₁, first, run⟩ := run
      intro c' mem
      cases List.mem_cons.mp mem with
      | inl here => exact ⟨t, t₁, here ▸ first⟩
      | inr later => exact ih run c' later

/-- What the last element says that says something. -/
def lastSome (P : C → Option D) (l : List C) : Option D := l.reverse.findSome? P

variable {P : C → Option D} {d : D}

theorem lastSome_snoc (c : C) : lastSome P (l ++ [c]) = (P c).or (lastSome P l) := by
  rw [lastSome, List.reverse_append, List.reverse_singleton, List.singleton_append,
    List.findSome?_cons]
  cases P c <;> rfl

theorem lastSome_mem (found : lastSome P l = some d) : ∃ c ∈ l, P c = some d := by
  obtain ⟨c, mem, value⟩ := List.exists_of_findSome?_eq_some found
  exact ⟨c, List.mem_reverse.mp mem, value⟩

theorem lastSome_none : lastSome P l = none ↔ ∀ c ∈ l, P c = none := by
  simp [lastSome]

/-- Elements that never contradict each other. -/
theorem lastSome_of_agree
    (agree : ∀ c ∈ l, ∀ c' ∈ l, ∀ d d', P c = some d → P c' = some d' → d = d') :
    lastSome P l = some d ↔ ∃ c ∈ l, P c = some d := by
  refine ⟨lastSome_mem, ?_⟩
  rintro ⟨c, mem, value⟩
  cases found : lastSome P l with
  | none =>
      rw [lastSome_none.mp found c mem] at value
      cases value
  | some d' =>
      obtain ⟨c', mem', value'⟩ := lastSome_mem found
      rw [agree c mem c' mem' d d' value value']

end Qiuqiu.Loop
