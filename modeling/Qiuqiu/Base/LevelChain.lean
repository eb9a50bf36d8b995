import Mathlib.Data.List.Basic
import Mathlib.Data.List.Nodup

/-!
Sublists selected by a predicate, seen from a position of the full list: the
next selected element with its distance, and the last selected element. These
are the facts a linked structure needs whose links skip unselected elements.
-/
namespace Qiuqiu.LevelChain
universe u
variable {β : Type u} {p q : β → Bool}

/-- The first selected element of the list and the number of steps to it. -/
def hop (p : β → Bool) : List β → Option (β × Nat)
  | [] => none
  | y :: ys => if p y then some (y, 1) else (hop p ys).map fun r => (r.1, r.2 + 1)

theorem hop_eq_none (xs : List β) : hop p xs = none ↔ ∀ y ∈ xs, p y = false := by
  induction xs with
  | nil => simp [hop]
  | cons y ys ih => cases h : p y <;> simp [hop, h, ih]

theorem hop_append (xs ys : List β) :
    hop p (xs ++ ys) =
      (hop p xs).or ((hop p ys).map fun r => (r.1, xs.length + r.2)) := by
  induction xs with
  | nil => simp [hop]
  | cons x xs ih =>
      cases h : p x with
      | true => simp [hop, h]
      | false =>
          simp only [List.cons_append, hop, h, ih, List.length_cons]
          cases hop p xs with
          | some r => simp
          | none =>
              cases hop p ys with
              | none => simp
              | some r => simp; omega

theorem hop_append_of_none {xs : List β} (h : ∀ y ∈ xs, p y = false) (ys : List β) :
    hop p (xs ++ ys) = (hop p ys).map fun r => (r.1, xs.length + r.2) := by
  rw [hop_append, (hop_eq_none xs).mpr h, Option.none_or]

theorem hop_append_of_some {xs : List β} {y : β} (hy : y ∈ xs) (h : p y = true)
    (ys : List β) : hop p (xs ++ ys) = hop p xs := by
  rw [hop_append]
  cases hx : hop p xs with
  | some r => rfl
  | none => simp [(hop_eq_none xs).mp hx y hy] at h

theorem hop_eq_some {xs : List β} {y : β} {d : Nat} (h : hop p xs = some (y, d)) :
    ∃ before after, xs = before ++ y :: after ∧ d = before.length + 1 ∧
      p y = true ∧ ∀ z ∈ before, p z = false := by
  induction xs generalizing d with
  | nil => simp [hop] at h
  | cons x xs ih =>
      cases hx : p x with
      | true =>
          simp only [hop, hx, ite_true, Option.some.injEq, Prod.mk.injEq] at h
          obtain ⟨rfl, rfl⟩ := h
          exact ⟨[], xs, rfl, rfl, hx, by simp⟩
      | false =>
          simp only [hop, hx, Bool.false_eq_true, ite_false, Option.map_eq_some_iff,
            Prod.mk.injEq, Prod.exists] at h
          obtain ⟨a, b, hab, rfl, rfl⟩ := h
          obtain ⟨before, after, rfl, hb, hy, hnone⟩ := ih hab
          refine ⟨x :: before, after, rfl, by simp [hb], hy, ?_⟩
          intro z hz
          cases List.mem_cons.mp hz with
          | inl e => exact e ▸ hx
          | inr hz => exact hnone z hz

theorem hop_congr {xs : List β} (h : ∀ y ∈ xs, p y = q y) : hop p xs = hop q xs := by
  induction xs with
  | nil => rfl
  | cons x xs ih =>
      have hx := h x List.mem_cons_self
      have hxs := ih fun y hy => h y (List.mem_cons_of_mem x hy)
      simp only [hop, hx, hxs]

/-- `u` is the last selected element of the list and has `k` elements before it. -/
def LastWith (p : β → Bool) (xs : List β) (k : Nat) (u : β) : Prop :=
  ∃ before after, xs = before ++ u :: after ∧ before.length = k ∧ p u = true ∧
    ∀ y ∈ after, p y = false

/-- In a list without repetition an element splits the list in one way. -/
theorem split_unique {a b c d : List β} {y : β} (h : a ++ y :: b = c ++ y :: d)
    (nodup : (a ++ y :: b).Nodup) : a = c ∧ b = d := by
  have apart := List.nodup_append.mp nodup
  have ha : y ∉ a := fun hy => apart.2.2 y hy y List.mem_cons_self rfl
  have hb : y ∉ b := (List.nodup_cons.mp apart.2.1).1
  obtain ⟨hac, -, hbd⟩ := (List.append_cons_inj_of_notMem ha hb).mp h
  exact ⟨hac, hbd⟩

/-- What stands behind some element of a list is not its head. -/
theorem mem_tail_of_split {a b xs : List β} {x y z : β} (split : x :: xs = a ++ y :: b)
    (hz : z ∈ b) : z ∈ xs := by
  cases a with
  | nil =>
      simp only [List.nil_append, List.cons.injEq] at split
      exact split.2 ▸ hz
  | cons _ a =>
      simp only [List.cons_append, List.cons.injEq] at split
      rw [split.2]
      simp [hz]

/-- The elements after the last selected one are not selected. -/
theorem LastWith.none_after {xs a b : List β} {k : Nat} {u : β}
    (h : LastWith p xs k u) (nodup : xs.Nodup) (split : xs = a ++ u :: b) :
    a.length = k ∧ ∀ z ∈ b, p z = false := by
  obtain ⟨before, after, rfl, hk, -, hnone⟩ := h
  obtain ⟨rfl, rfl⟩ := split_unique split nodup
  exact ⟨hk, hnone⟩

/-- A split of a concatenation falls into one of its halves. -/
theorem split_append {xs ys a b : List β} {y : β} (split : xs ++ ys = a ++ y :: b) :
    (∃ b', b = b' ++ ys ∧ xs = a ++ y :: b') ∨ ∃ a', a = xs ++ a' ∧ ys = a' ++ y :: b := by
  induction xs generalizing a with
  | nil => exact Or.inr ⟨a, rfl, split⟩
  | cons x xs ih =>
      cases a with
      | nil =>
          simp only [List.cons_append, List.nil_append, List.cons.injEq] at split
          exact Or.inl ⟨xs, split.2.symm, by rw [split.1]; rfl⟩
      | cons z a =>
          simp only [List.cons_append, List.cons.injEq] at split
          cases ih split.2 with
          | inl h =>
              obtain ⟨b', hb, hxs⟩ := h
              exact Or.inl ⟨b', hb, by rw [split.1, hxs]; rfl⟩
          | inr h =>
              obtain ⟨a', ha, hys⟩ := h
              exact Or.inr ⟨a', by rw [split.1, ha]; rfl, hys⟩

theorem LastWith.unique {xs : List β} {k k' : Nat} {u u' : β} (h : LastWith p xs k u)
    (h' : LastWith p xs k' u') : k = k' ∧ u = u' := by
  obtain ⟨before, after, rfl, rfl, hu, none⟩ := h
  obtain ⟨before', after', split, rfl, hu', none'⟩ := h'
  induction before generalizing before' with
  | nil =>
      cases before' with
      | nil =>
          simp only [List.nil_append, List.cons.injEq] at split
          exact ⟨rfl, split.1⟩
      | cons x before' =>
          simp only [List.nil_append, List.cons_append, List.cons.injEq] at split
          have := none u' (split.2 ▸ by simp)
          simp [hu'] at this
  | cons x before ih =>
      cases before' with
      | nil =>
          simp only [List.nil_append, List.cons_append, List.cons.injEq] at split
          have := none' u (split.2 ▸ by simp)
          simp [hu] at this
      | cons y before' =>
          simp only [List.cons_append, List.cons.injEq] at split
          obtain ⟨hlen, he⟩ := ih before' split.2
          exact ⟨by simp [hlen], he⟩

theorem LastWith.mem {xs : List β} {k : Nat} {u : β} (h : LastWith p xs k u) : u ∈ xs := by
  obtain ⟨before, after, rfl, -⟩ := h
  simp

end Qiuqiu.LevelChain
