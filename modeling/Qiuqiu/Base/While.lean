/-!
Loops that go on until a round leaves them. A loop returns when some number of
rounds is enough; a measure that falls with every round bounds this number.
-/
namespace Qiuqiu.While
variable {σ α : Type}

/-- What one round does: it goes on, or leaves the loop. -/
inductive Round (σ α : Type) where
  | next (s : σ)
  | leave (a : α)

def run (round : σ → Round σ α) : Nat → σ → Option α
  | 0, _ => none
  | rounds + 1, s =>
      match round s with
      | .next s' => run round rounds s'
      | .leave a => some a

variable {round : σ → Round σ α} {s s' : σ} {a b : α}

def Returns (round : σ → Round σ α) (s : σ) (a : α) : Prop := ∃ rounds, run round rounds s = some a

theorem returns_leave (left : round s = .leave b) : Returns round s a ↔ a = b := by
  constructor
  · rintro ⟨rounds, done⟩
    cases rounds with
    | zero => cases done
    | succ rounds =>
        rw [run, left] at done
        exact (Option.some.inj done).symm
  · intro same
    refine ⟨1, ?_⟩
    rw [run, left, same]

theorem returns_next (goes : round s = .next s') : Returns round s a ↔ Returns round s' a := by
  constructor
  · rintro ⟨rounds, done⟩
    cases rounds with
    | zero => cases done
    | succ rounds =>
        rw [run, goes] at done
        exact ⟨rounds, done⟩
  · rintro ⟨rounds, done⟩
    refine ⟨rounds + 1, ?_⟩
    rw [run, goes]
    exact done

/-- A loop returns one value. -/
theorem Returns.unique (first : Returns round s a) (second : Returns round s b) : a = b := by
  obtain ⟨rounds, done⟩ := first
  induction rounds generalizing s with
  | zero => cases done
  | succ rounds ih =>
      cases taken : round s with
      | next s' =>
          rw [run, taken] at done
          exact ih ((returns_next taken).mp second) done
      | leave c =>
          rw [run, taken] at done
          rw [(returns_leave taken).mp second]
          exact (Option.some.inj done).symm

end Qiuqiu.While
