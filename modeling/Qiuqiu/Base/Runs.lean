import Mathlib.Data.List.Basic

/-!
The runs of a list: its maximal non-empty parts without a separator. A list
falls apart at each separator, and a list without one is its own only run.
-/
namespace List
variable {α : Type} {sep : α → Bool} {xs ys : List α} {c : α}

def runs (sep : α → Bool) (xs : List α) : List (List α) :=
  (xs.splitOnP sep).filter fun run => !run.isEmpty

theorem runs_append_cons (hc : sep c = true) :
    (xs ++ c :: ys).runs sep = xs.runs sep ++ ys.runs sep := by
  unfold runs
  rw [splitOnP_append_cons xs ys hc, filter_append]

theorem runs_of_free (ne : xs ≠ []) (free : ∀ x ∈ xs, sep x = false) : xs.runs sep = [xs] := by
  unfold runs
  rw [splitOnP_eq_singleton free]
  simp [ne]

theorem splitOnP_free {run : List α} (h : run ∈ xs.splitOnP sep) : ∀ x ∈ run, sep x = false := by
  induction xs generalizing run with
  | nil =>
      rw [splitOnP_nil, mem_singleton] at h
      subst h
      exact forall_mem_nil _
  | cons x xs ih =>
      rw [splitOnP_cons_eq_if_modifyHead] at h
      split at h
      · cases h with
        | head => exact forall_mem_nil _
        | tail _ h => exact ih h
      · rename_i hx
        cases split : xs.splitOnP sep with
        | nil => exact absurd split (splitOnP_ne_nil sep xs)
        | cons first rest =>
            rw [split] at ih h
            cases h with
            | head =>
                intro y hy
                cases hy with
                | head => simpa using hx
                | tail _ hy => exact ih mem_cons_self y hy
            | tail _ h => exact ih (mem_cons_of_mem first h)

theorem runs_free {run : List α} (h : run ∈ xs.runs sep) :
    run ≠ [] ∧ ∀ x ∈ run, sep x = false := by
  rw [runs, mem_filter] at h
  exact ⟨by simpa using h.2, splitOnP_free h.1⟩

theorem head_runs_eq_self : (xs.runs sep).head? = some xs ↔
    xs ≠ [] ∧ ∀ x ∈ xs, sep x = false := by
  constructor
  · intro h
    exact runs_free (mem_of_mem_head? h)
  · intro h
    rw [runs_of_free h.1 h.2]
    rfl

theorem runs_append_singleton_ne_nil (hc : sep c = false) : (xs ++ [c]).runs sep ≠ [] := by
  induction xs with
  | nil => simp [runs, splitOnP_cons_eq_if_modifyHead, splitOnP_nil, hc]
  | cons x xs ih =>
      simp only [runs, cons_append, splitOnP_cons_eq_if_modifyHead] at ih ⊢
      split
      · simpa using ih
      · cases split : (xs ++ [c]).splitOnP sep with
        | nil => exact absurd split (splitOnP_ne_nil sep _)
        | cons first rest => simp

/-- The first separator divides a list in one way. -/
theorem append_cons_inj_of_free {as bs : List α} (ha : c ∉ as) (hb : c ∉ bs)
    (h : as ++ c :: xs = bs ++ c :: ys) : as = bs ∧ xs = ys := by
  induction as generalizing bs with
  | nil =>
      cases bs with
      | nil => exact ⟨rfl, (cons.inj h).2⟩
      | cons b bs => exact absurd ((cons.inj h).1 ▸ mem_cons_self) hb
  | cons a as ih =>
      cases bs with
      | nil => exact absurd ((cons.inj h).1 ▸ mem_cons_self) ha
      | cons b bs =>
          have tails := ih (not_mem_of_not_mem_cons ha) (not_mem_of_not_mem_cons hb) (cons.inj h).2
          exact ⟨by rw [(cons.inj h).1, tails.1], tails.2⟩

end List
