import Mathlib.Data.List.Basic
import Mathlib.Data.List.Nodup

/-!
Binary search in a table sorted by its keys. The search finds the key or the place where it
belongs; an entry put there keeps the table sorted.
-/
namespace Qiuqiu.Bisect

/-- The search between two places, given how the entry at a place compares to what is sought.
The first component counts the rounds that are left. -/
def search (c : Nat → Ordering) : Nat → Nat → Nat → Except Nat Nat
  | 0, first, _ => .error first
  | rounds + 1, first, last =>
      if first < last then
        let mid := (first + last - 1) / 2
        match c mid with
        | .eq => .ok mid
        | .lt => search c rounds (mid + 1) last
        | .gt => search c rounds first mid
      else .error first

/-- The places are ordered up to one: below it entries are smaller, above it greater. -/
def Ordered (c : Nat → Ordering) (last : Nat) : Prop :=
  ∀ i j, i < j → j < last → (c j ≠ .gt → c i = .lt) ∧ (c i ≠ .lt → c j = .gt)

/-- The place of an equal entry, or the one between the smaller and the greater ones. -/
def Finds (c : Nat → Ordering) (first last : Nat) : Except Nat Nat → Prop
  | .ok m => first ≤ m ∧ m < last ∧ c m = .eq
  | .error p => first ≤ p ∧ p ≤ last ∧ (∀ i, first ≤ i → i < p → c i = .lt) ∧
      ∀ i, p ≤ i → i < last → c i = .gt

theorem search_finds {c : Nat → Ordering} {rounds first last : Nat} (ordered : Ordered c last)
    (enough : last ≤ first + rounds) (le : first ≤ last) :
    Finds c first last (search c rounds first last) := by
  induction rounds generalizing first last with
  | zero =>
      refine ⟨Nat.le_refl _, le, ?_, ?_⟩
      · intro i lower upper
        omega
      · intro i lower upper
        omega
  | succ rounds ih =>
      rw [search]
      by_cases more : first < last
      · rw [if_pos more]
        generalize middle : (first + last - 1) / 2 = mid
        have inside : first ≤ mid ∧ mid < last := by omega
        dsimp only
        cases here : c mid with
        | eq => exact ⟨inside.1, inside.2, here⟩
        | lt =>
            have rest := @ih (mid + 1) last ordered (by omega) (by omega)
            cases found : search c rounds (mid + 1) last with
            | ok m =>
                rw [found] at rest
                exact ⟨by have := rest.1; omega, rest.2.1, rest.2.2⟩
            | error p =>
                rw [found] at rest
                obtain ⟨lower, upper, smaller, greater⟩ := rest
                refine ⟨by omega, upper, ?_, greater⟩
                intro i above below
                by_cases late : mid + 1 ≤ i
                · exact smaller i late below
                · by_cases at_mid : i = mid
                  · exact at_mid ▸ here
                  · exact (ordered i mid (by omega) inside.2).1 (by rw [here]; decide)
        | gt =>
            have shorter : Ordered c mid := fun i j lt upper => ordered i j lt (by omega)
            have rest := @ih first mid shorter (by omega) inside.1
            cases found : search c rounds first mid with
            | ok m =>
                rw [found] at rest
                exact ⟨rest.1, by have := rest.2.1; omega, rest.2.2⟩
            | error p =>
                rw [found] at rest
                obtain ⟨lower, upper, smaller, greater⟩ := rest
                refine ⟨lower, by omega, smaller, ?_⟩
                intro i above below
                by_cases early : i < mid
                · exact greater i above early
                · by_cases at_mid : i = mid
                  · exact at_mid ▸ here
                  · exact (ordered mid i (by omega) below).2 (by rw [here]; decide)
      · rw [if_neg more]
        refine ⟨Nat.le_refl _, le, ?_, ?_⟩
        · intro i lower upper
          omega
        · intro i lower upper
          omega

section Table
variable {K D : Type} [Ord K]

def Sorted (t : List (K × D)) : Prop := t.Pairwise fun x y => compare x.1 y.1 = .lt

/-- How the entry at a place compares to a key. -/
def compareAt (t : List (K × D)) (k : K) (i : Nat) : Ordering :=
  match t[i]? with
  | some x => compare x.1 k
  | none => .gt

def position (t : List (K × D)) (k : K) : Except Nat Nat :=
  search (compareAt t k) t.length 0 t.length

/-- The datum of a key. -/
def get (t : List (K × D)) (k : K) : Option D :=
  match position t k with
  | .ok m => t[m]?.map Prod.snd
  | .error _ => none

/-- An entry comes to its place unless its key is there. -/
def insert (t : List (K × D)) (k : K) (d : D) : Option (List (K × D)) :=
  match position t k with
  | .ok _ => none
  | .error p => some (t.take p ++ (k, d) :: t.drop p)

variable {t t' : List (K × D)} {k k' : K} {d : D}

theorem compareAt_eq {i : Nat} (lt : i < t.length) : compareAt t k i = compare t[i].1 k := by
  rw [compareAt, List.getElem?_eq_getElem lt]

variable [Std.TransOrd K]

theorem Sorted.ordered (sorted : Sorted t) (k : K) : Ordered (compareAt t k) t.length := by
  intro i j lt inside
  have less : compare t[i].1 t[j].1 = .lt := List.pairwise_iff_getElem.mp sorted i j _ inside lt
  rw [compareAt_eq inside, compareAt_eq (Nat.lt_trans lt inside)]
  constructor
  · intro low
    exact Std.TransCmp.lt_of_lt_of_isLE less (Ordering.isLE_iff_ne_gt.mpr low)
  · intro high
    exact Std.TransCmp.gt_of_gt_of_isGE (Std.OrientedCmp.gt_of_lt less)
      (Ordering.isGE_iff_ne_lt.mpr high)

theorem Sorted.finds (sorted : Sorted t) (k : K) :
    Finds (compareAt t k) 0 t.length (position t k) :=
  search_finds (sorted.ordered k) (by omega) (Nat.zero_le _)

/-- A key has one place. -/
theorem Sorted.unique (sorted : Sorted t) {x y : K × D} (mem : x ∈ t) (mem' : y ∈ t)
    (same : x.1 = y.1) : x = y := by
  obtain ⟨i, inside, rfl⟩ := List.getElem_of_mem mem
  obtain ⟨j, inside', rfl⟩ := List.getElem_of_mem mem'
  have less := List.pairwise_iff_getElem.mp sorted
  rcases Nat.lt_trichotomy i j with lt | eq | gt
  · have before := less i j inside inside' lt
    rw [same] at before
    cases Std.ReflCmp.compare_self.symm.trans before
  · subst eq
    rfl
  · have before := less j i inside' inside gt
    rw [same] at before
    cases Std.ReflCmp.compare_self.symm.trans before

theorem Sorted.get_eq_some [Std.LawfulEqOrd K] (sorted : Sorted t) :
    get t k = some d ↔ (k, d) ∈ t := by
  have finds := sorted.finds k
  rw [get]
  cases found : position t k with
  | ok m =>
      rw [found] at finds
      obtain ⟨-, inside, equal⟩ := finds
      rw [compareAt_eq inside] at equal
      have here := Std.LawfulEqCmp.eq_of_compare equal
      dsimp only
      rw [List.getElem?_eq_getElem inside, Option.map_some, Option.some.injEq]
      constructor
      · intro datum
        rw [← here, ← datum]
        exact List.getElem_mem inside
      · intro mem
        exact congrArg Prod.snd (sorted.unique (List.getElem_mem inside) mem here)
  | error p =>
      rw [found] at finds
      obtain ⟨-, -, smaller, greater⟩ := finds
      refine ⟨fun absent => (by cases absent), fun mem => ?_⟩
      obtain ⟨i, inside, same⟩ := List.getElem_of_mem mem
      have equal : compareAt t k i = .eq := by
        rw [compareAt_eq inside, same]
        exact Std.ReflCmp.compare_self
      by_cases before : i < p
      · rw [smaller i (Nat.zero_le i) before] at equal
        cases equal
      · rw [greater i (Nat.not_lt.mp before) inside] at equal
        cases equal

theorem Sorted.insert_eq_none (sorted : Sorted t) :
    insert t k d = none ↔ ∃ d', get t k = some d' := by
  have finds := sorted.finds k
  rw [insert, get]
  cases found : position t k with
  | ok m =>
      rw [found] at finds
      dsimp only
      rw [List.getElem?_eq_getElem finds.2.1]
      exact ⟨fun _ => ⟨_, rfl⟩, fun _ => rfl⟩
  | error p => exact ⟨fun absent => (by cases absent), fun ⟨_, absent⟩ => (by cases absent)⟩

theorem Sorted.insert (sorted : Sorted t) (put : insert t k d = some t') :
    Sorted t' ∧ t'.Perm ((k, d) :: t) := by
  have finds := sorted.finds k
  rw [Bisect.insert] at put
  cases found : position t k with
  | ok m =>
      rw [found] at put
      cases put
  | error p =>
      rw [found] at put finds
      cases put
      obtain ⟨-, le, smaller, greater⟩ := finds
      have below : ∀ x ∈ t.take p, compare x.1 k = .lt := by
        intro x mem
        obtain ⟨i, inside, rfl⟩ := List.mem_take_iff_getElem.mp mem
        have here := smaller i (Nat.zero_le i) (by omega)
        rwa [compareAt_eq (by omega)] at here
      have above : ∀ x ∈ t.drop p, compare k x.1 = .lt := by
        intro x mem
        obtain ⟨i, inside, rfl⟩ := List.mem_drop_iff_getElem.mp mem
        have here := greater (p + i) (Nat.le_add_right p i) (by omega)
        rw [compareAt_eq (by omega)] at here
        exact Std.OrientedCmp.lt_of_gt here
      have parts : Sorted (t.take p ++ t.drop p) := by rwa [List.take_append_drop]
      obtain ⟨front, back, across⟩ := List.pairwise_append.mp parts
      refine ⟨List.pairwise_append.mpr ⟨front, List.pairwise_cons.mpr ⟨above, back⟩, ?_⟩, ?_⟩
      · intro x mem y mem'
        cases List.mem_cons.mp mem' with
        | inl here => exact here ▸ below x mem
        | inr later => exact across x mem y later
      · refine List.perm_middle.trans ?_
        rw [List.take_append_drop]

end Table
end Qiuqiu.Bisect
