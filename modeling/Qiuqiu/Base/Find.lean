import Mathlib.Data.List.Infix

/-!
Plain search in lists. The first place of a pattern is searched from a given
place on; a list begins with a pattern when this place is the first one, and
ends with it when it is found among the last elements, as many as it has.
-/
namespace Qiuqiu.Find
variable {α : Type} [DecidableEq α]

/-- The first place where the pattern stands. -/
def find (pat : List α) : List α → Option Nat
  | [] => if pat = [] then some 0 else none
  | c :: s => if pat <+: c :: s then some 0 else (find pat s).map (· + 1)

def beginswith (s pat : List α) : Bool := find pat s = some 0

def endswith (s pat : List α) : Bool := (find pat (s.drop (s.length - pat.length))).isSome

variable {s pat : List α}

theorem find_zero : find pat s = some 0 ↔ pat <+: s := by
  cases s with
  | nil => simp [find]
  | cons c s =>
      by_cases here : pat <+: c :: s
      · simp [find, here]
      · simp [find, here]

theorem find_isSome : (find pat s).isSome = true ↔ pat <:+: s := by
  induction s with
  | nil => simp [find]
  | cons c s ih =>
      rw [List.infix_cons_iff, ← ih]
      by_cases here : pat <+: c :: s
      · simp [find, here]
      · simp [find, here]

theorem beginswith_iff : beginswith s pat = true ↔ pat <+: s := by
  rw [beginswith, decide_eq_true_iff, find_zero]

theorem endswith_iff : endswith s pat = true ↔ pat <:+ s := by
  rw [endswith, find_isSome]
  constructor
  · intro inside
    have short : (s.drop (s.length - pat.length)).length ≤ pat.length := by
      rw [List.length_drop]
      omega
    rw [inside.eq_of_length_le short]
    exact List.drop_suffix _ _
  · intro last
    rw [← List.suffix_iff_eq_drop.mp last]

/-- A pattern that stands only at the end is found there. -/
theorem find_append_of_last {x : List α}
    (last : ∀ pre post, x ++ pat = pre ++ pat ++ post → post = []) :
    find pat (x ++ pat) = some x.length := by
  induction x with
  | nil => exact find_zero.mpr List.prefix_rfl
  | cons c x ih =>
      have later : ¬ pat <+: c :: (x ++ pat) := by
        rintro ⟨post, split⟩
        have nothing := last [] post split.symm
        subst nothing
        have lengths := congrArg List.length split
        simp at lengths
        omega
      have found : find pat (x ++ pat) = some x.length := by
        refine ih fun pre post split => last (c :: pre) post ?_
        rw [List.cons_append, split]
        rfl
      simp only [List.cons_append, find, if_neg later, found]
      rfl

/-- The list falls apart at the first place of a pattern. -/
structure FirstAt (pat s pre post : List α) : Prop where
  split : s = pre ++ (pat ++ post)
  first : ∀ pre' post', s = pre' ++ (pat ++ post') → pre.length ≤ pre'.length

section Splits
omit [DecidableEq α]
variable {pre post x : List α}

theorem exists_firstAt (inside : pat <:+: s) : ∃ pre post, FirstAt pat s pre post := by
  induction s with
  | nil =>
      have empty := List.eq_nil_of_infix_nil inside
      subst empty
      exact ⟨[], [], rfl, fun _ _ _ => Nat.zero_le _⟩
  | cons c s ih =>
      by_cases here : pat <+: c :: s
      · obtain ⟨post, split⟩ := here
        exact ⟨[], post, split.symm, fun _ _ _ => Nat.zero_le _⟩
      · obtain ⟨pre, post, split, first⟩ := ih ((List.infix_cons_iff.mp inside).resolve_left here)
        refine ⟨c :: pre, post, by rw [split, List.cons_append], ?_⟩
        intro pre' post' split'
        cases pre' with
        | nil => exact absurd ⟨post', split'.symm⟩ here
        | cons c' pre' =>
            rw [List.cons_append, List.cons.injEq] at split'
            exact Nat.succ_le_succ (first pre' post' split'.2)

/-- The pattern does not stand further to the left. -/
theorem FirstAt.not_prefix {u : List α} (at_ : FirstAt pat s pre post) (nonempty : u ≠ [])
    (right : u <:+ pre) : ¬ pat <+: u ++ (pat ++ post) := by
  rintro ⟨post', again⟩
  obtain ⟨pre', rfl⟩ := right
  have early := at_.first pre' post' (by rw [at_.split, List.append_assoc, again])
  rw [List.length_append] at early
  exact nonempty (List.length_eq_zero_iff.mp (by omega))

theorem FirstAt.not_infix (at_ : FirstAt pat s pre post) (nonempty : pat ≠ []) :
    ¬ pat <:+: pre := by
  rintro ⟨a, b, rfl⟩
  have early := at_.first a (b ++ (pat ++ post)) (by rw [at_.split]; simp)
  simp only [List.length_append] at early
  exact nonempty (List.length_eq_zero_iff.mp (by omega))

/-- What follows the pattern elsewhere is a part of what follows it first. -/
theorem FirstAt.suffix {pre' post' : List α} (at_ : FirstAt pat s pre post)
    (split : s = pre' ++ (pat ++ post')) : post' <:+ post := by
  have early := at_.first pre' post' split
  have lengths := congrArg List.length (at_.split.symm.trans split)
  simp only [List.length_append] at lengths
  have right : post <:+ s := by
    rw [at_.split, ← List.append_assoc]
    exact List.suffix_append _ _
  have right' : post' <:+ s := by
    rw [split, ← List.append_assoc]
    exact List.suffix_append _ _
  exact List.suffix_of_suffix_length_le right' right (by omega)

/-- No part at the end of the pattern begins it again. -/
def Unbordered (pat : List α) : Prop := ∀ v, v ≠ [] → v <:+ pat → v <+: pat → v = pat

/-- An unbordered pattern behind a list without it stands there first. -/
theorem firstAt_of_unbordered (unbordered : Unbordered pat) (free : ¬ pat <:+: x)
    (post : List α) : FirstAt pat (x ++ (pat ++ post)) x post := by
  refine ⟨rfl, fun pre' post' split => ?_⟩
  by_contra early
  have left : pre' <+: x ++ (pat ++ post) := by
    rw [split]
    exact List.prefix_append _ _
  obtain ⟨y, rfl⟩ : pre' <+: x :=
    List.prefix_of_prefix_length_le left (List.prefix_append x _) (by omega)
  rw [List.append_assoc] at split
  have rest : y ++ (pat ++ post) = pat ++ post' := List.append_cancel_left split
  have some : y ≠ [] := by
    rintro rfl
    simp at early
  by_cases long : pat.length ≤ y.length
  · have inside : pat <+: y :=
      List.prefix_of_prefix_length_le ⟨post', rest.symm⟩ (List.prefix_append y _) long
    exact free (inside.isInfix.trans (List.suffix_append pre' y).isInfix)
  · obtain ⟨v, rfl⟩ : y <+: pat :=
      List.prefix_of_prefix_length_le (List.prefix_append y _) ⟨post', rest.symm⟩ (by omega)
    rw [List.append_assoc y v post'] at rest
    have shifted : y ++ v ++ post = v ++ post' := List.append_cancel_left rest
    have nonempty : v ≠ [] := by
      rintro rfl
      simp at long
    have begins : v <+: y ++ v := by
      refine List.prefix_of_prefix_length_le ⟨post', shifted.symm⟩ (List.prefix_append _ post) ?_
      simp
    have whole := unbordered v nonempty (List.suffix_append y v) begins
    exact some (List.self_eq_append_left.mp whole)

end Splits

end Qiuqiu.Find
