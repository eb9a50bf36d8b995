import Mathlib
import Qiuqiu.Base.Outcome

/-!
Triples of computations with a state that can raise, read as facts about
their outcomes.
-/
namespace Qiuqiu.Triple
open Std.Do
variable {ε σ α : Type}

theorem of_triple {m : ExceptT ε (StateM σ) α} {pre : σ → Prop} {ok : α → σ → Prop}
    {raised : ε → σ → Prop}
    (triple : ⦃fun w => ⌜pre w⌝⦄ m ⦃post⟨fun a w => ⌜ok a w⌝, fun e w => ⌜raised e w⌝⟩⦄)
    {w : σ} (holds : pre w) :
    (∃ a w', outcome m w = (.ok a, w') ∧ ok a w') ∨
      ∃ e w', outcome m w = (.error e, w') ∧ raised e w' := by
  have after := triple w holds
  simp only [wp] at after
  cases out : outcome m w with
  | mk result w' =>
      have run : (m.run.run w : Except ε α × σ) = (result, w') := out
      cases result with
      | ok a =>
          simp only [PredTrans.apply_pushExcept, PredTrans.apply_pushArg, run] at after
          exact .inl ⟨a, w', rfl, after⟩
      | error e =>
          simp only [PredTrans.apply_pushExcept, PredTrans.apply_pushArg, run] at after
          exact .inr ⟨e, w', rfl, after⟩

/-- A computation that keeps a property whether it returns or raises. -/
theorem outcome_keeps {m : ExceptT ε (StateM σ) α} {inv : σ → Prop} {ok : α → σ → Prop}
    (triple : ⦃fun w => ⌜inv w⌝⦄ m ⦃post⟨fun a w => ⌜ok a w⌝, fun _ w => ⌜inv w⌝⟩⦄)
    (weaker : ∀ a w, ok a w → inv w) {w : σ} (holds : inv w) : inv (outcome m w).2 := by
  cases of_triple triple holds with
  | inl returned =>
      obtain ⟨a, w', out, kept⟩ := returned
      rw [out]
      exact weaker a w' kept
  | inr raised =>
      obtain ⟨e, w', out, kept⟩ := raised
      rw [out]
      exact kept

/-- A computation that never returns raises. -/
theorem outcome_raises {m : ExceptT ε (StateM σ) α} {inv : σ → Prop}
    (triple : ⦃fun w => ⌜inv w⌝⦄ m ⦃post⟨fun _ _ => ⌜False⌝, fun _ w => ⌜inv w⌝⟩⦄)
    {w : σ} (holds : inv w) : ∃ e w', outcome m w = (.error e, w') ∧ inv w' := by
  cases of_triple triple holds with
  | inl returned =>
      obtain ⟨_, _, _, impossible⟩ := returned
      cases impossible
  | inr raised => exact raised

end Qiuqiu.Triple
