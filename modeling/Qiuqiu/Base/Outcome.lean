/-!
Computations with a state that can raise, read through their outcomes. The
state survives the raising.
-/
namespace Qiuqiu.Triple
variable {ε σ α : Type}

/-- The outcome of a computation and the state it leaves. -/
def outcome (m : ExceptT ε (StateM σ) α) (w : σ) : Except ε α × σ := m.run.run w

theorem outcome_throw (e : ε) (w : σ) :
    outcome (throw e : ExceptT ε (StateM σ) α) w = (.error e, w) := rfl

theorem outcome_get (w : σ) : outcome (get : ExceptT ε (StateM σ) σ) w = (.ok w, w) := rfl

theorem outcome_modify (f : σ → σ) (w : σ) :
    outcome (modify f : ExceptT ε (StateM σ) PUnit) w = (.ok ⟨⟩, f w) := rfl

theorem outcome_bind_ok {m : ExceptT ε (StateM σ) α} {w w' : σ} {a : α}
    (out : outcome m w = (.ok a, w')) {β : Type} (f : α → ExceptT ε (StateM σ) β) :
    outcome (m >>= f) w = outcome (f a) w' := by
  have run : m w = (.ok a, w') := out
  simp only [outcome, bind, ExceptT.bind, ExceptT.mk, ExceptT.run, StateT.bind, StateT.run, run]
  rfl

theorem outcome_bind_error {m : ExceptT ε (StateM σ) α} {w w' : σ} {e : ε}
    (out : outcome m w = (.error e, w')) {β : Type} (f : α → ExceptT ε (StateM σ) β) :
    outcome (m >>= f) w = (.error e, w') := by
  have run : m w = (.error e, w') := out
  simp only [outcome, bind, ExceptT.bind, ExceptT.mk, ExceptT.run, StateT.bind, StateT.run, run]
  rfl

/-- What returns has returned from its first part. -/
theorem of_bind {β : Type} {x : Except ε α} {f : α → Except ε β} {b : β}
    (ran : x >>= f = .ok b) : ∃ a, x = .ok a ∧ f a = .ok b := by
  cases x with
  | error e => cases ran
  | ok a => exact ⟨a, rfl, ran⟩

theorem of_map {β : Type} {x : Except ε α} {f : α → β} {b : β} (ran : x.map f = .ok b) :
    ∃ a, x = .ok a ∧ f a = b := by
  cases x with
  | error e => cases ran
  | ok a => exact ⟨a, rfl, Except.ok.inj ran⟩

end Qiuqiu.Triple
