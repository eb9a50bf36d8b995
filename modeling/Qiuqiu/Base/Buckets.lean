import Mathlib.Data.List.Basic
import Mathlib.Logic.Function.Basic

/-!
A list dealt out into buckets. A function says to which bucket an element belongs,
and every bucket has its elements in the order of the list. When the function
changes, emptying one bucket into the others is enough if only its elements belong
elsewhere, and if what it pours into has nothing that came later.
-/
namespace Qiuqiu.Buckets
variable {α κ : Type} [DecidableEq κ]

/-- The buckets hold the list. -/
def Deals (place : α → κ) (l : List α) (buckets : κ → List α) : Prop :=
  ∀ k, buckets k = l.filter fun x => place x = k

/-- One element is put behind those of its bucket. -/
def put (place : α → κ) (buckets : κ → List α) (x : α) : κ → List α :=
  Function.update buckets (place x) (buckets (place x) ++ [x])

def pour (place : α → κ) (buckets : κ → List α) (xs : List α) : κ → List α :=
  xs.foldl (put place) buckets

variable {place place' : α → κ} {l xs : List α} {buckets : κ → List α} {k : κ} {x : α}

theorem put_apply : put place buckets x k = buckets k ++ [x].filter fun x => place x = k := by
  rw [put]
  by_cases here : k = place x
  · subst here
    simp
  · have other : ¬ place x = k := fun same => here same.symm
    simp [Function.update_of_ne here, other]

theorem pour_apply : pour place buckets xs k = buckets k ++ xs.filter fun x => place x = k := by
  induction xs generalizing buckets with
  | nil => simp [pour]
  | cons x xs ih =>
      change pour place (put place buckets x) xs k = _
      rw [ih, put_apply, List.append_assoc, ← List.filter_append, List.singleton_append]

section Map
variable {β : Type} {f : β → α} {placeβ : β → κ} {bucketsβ : κ → List β} {ys : List β}

theorem put_map {y : β} (same : place (f y) = placeβ y) :
    put place (fun k => (bucketsβ k).map f) (f y) =
      fun k => (put placeβ bucketsβ y k).map f := by
  funext k
  rw [put_apply, put_apply, List.map_append, List.filter_singleton, List.filter_singleton, same]
  cases decide (placeβ y = k) with
  | true => rfl
  | false => rfl

/-- Images of elements are poured as the elements are. -/
theorem pour_map (same : ∀ y ∈ ys, place (f y) = placeβ y) :
    pour place (fun k => (bucketsβ k).map f) (ys.map f) =
      fun k => (pour placeβ bucketsβ ys k).map f := by
  induction ys generalizing bucketsβ with
  | nil => rfl
  | cons y ys ih =>
      rw [List.forall_mem_cons] at same
      change pour place (put place (fun k => (bucketsβ k).map f) (f y)) (ys.map f) = _
      rw [put_map same.1, ih same.2]
      rfl

end Map

theorem Deals.put (deals : Deals place l buckets) :
    Deals place (l ++ [x]) (Buckets.put place buckets x) := by
  intro k
  rw [put_apply, deals k, List.filter_append]

/-- Elements of one bucket go away. -/
theorem Deals.clear (deals : Deals place l buckets) :
    Deals place (l.filter fun x => ¬ place x = k) (Function.update buckets k []) := by
  intro k'
  rw [List.filter_filter]
  by_cases same : k' = k
  · subst same
    rw [Function.update_self, eq_comm, List.filter_eq_nil_iff]
    intro x _
    simp
  · rw [Function.update_of_ne same, deals k']
    apply List.filter_congr
    intro x _
    by_cases here : place x = k'
    · simp [here, same]
    · simp [here]

/-- The elements of a bucket are dealt out anew. -/
theorem Deals.pour (deals : Deals place l buckets)
    (others : ∀ x ∈ l, place x ≠ k → place' x = place x)
    (apart : ∀ x ∈ l, ∀ y ∈ l, place x = k → place y ≠ k → place' x ≠ place y) :
    Deals place' l (Buckets.pour place' (Function.update buckets k []) (buckets k)) := by
  intro k'
  rw [pour_apply, deals k, List.filter_filter]
  by_cases moves : ∃ x ∈ l, place x = k ∧ place' x = k'
  · -- nothing stands in this bucket yet
    obtain ⟨x, mem, here, there⟩ := moves
    have empty : Function.update buckets k [] k' = [] := by
      by_cases same : k' = k
      · rw [same, Function.update_self]
      · rw [Function.update_of_ne same, deals k', List.filter_eq_nil_iff]
        intro y mem' stands
        have at_ := of_decide_eq_true stands
        exact apart x mem y mem' here (by rw [at_]; exact same) (there.trans at_.symm)
    rw [empty, List.nil_append]
    apply List.filter_congr
    intro y mem'
    by_cases old : place y = k
    · simp [old]
    · have stays := others y mem' old
      have away : place' y ≠ k' := by
        intro at_
        exact apart x mem y mem' here old (by rw [there, ← stays, at_])
      simp [old, away]
  · -- nothing comes into this bucket
    have none : (l.filter fun x => decide (place' x = k') && decide (place x = k)) = [] := by
      rw [List.filter_eq_nil_iff]
      intro x mem both
      rw [Bool.and_eq_true, decide_eq_true_iff, decide_eq_true_iff] at both
      exact moves ⟨x, mem, both.2, both.1⟩
    rw [none, List.append_nil]
    by_cases same : k' = k
    · rw [same, Function.update_self, eq_comm, List.filter_eq_nil_iff]
      intro x mem at_
      have at_ := of_decide_eq_true at_
      by_cases old : place x = k
      · exact moves ⟨x, mem, old, by rw [at_, same]⟩
      · exact old ((others x mem old).symm.trans at_)
    · rw [Function.update_of_ne same, deals k']
      apply List.filter_congr
      intro x mem
      by_cases old : place x = k
      · have away : place' x ≠ k' := fun at_ => moves ⟨x, mem, old, at_⟩
        have other : k ≠ k' := fun eq => same eq.symm
        simp [old, away, other]
      · rw [others x mem old]

end Qiuqiu.Buckets
