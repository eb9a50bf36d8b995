import Mathlib.Data.List.Nodup

/-!
Tables as lists of keys and values. A key is looked up at its first place;
writing a key takes out what it held before, so that keys stay without
repetition.
-/
namespace Qiuqiu.Assoc
variable {K D : Type} [DecidableEq K]

def remove (t : List (K × D)) (k : K) : List (K × D) := t.filter fun x => x.1 ≠ k

def put (t : List (K × D)) (k : K) (d : D) : List (K × D) := (k, d) :: remove t k

/-- The order in which a loop visits the keys of a table. -/
structure PairsOrder (K : Type) where
  visit : List K → List K
  perm : ∀ keys, (visit keys).Perm keys

/-- The order in which the table holds its keys. -/
def PairsOrder.asStored {K : Type} : PairsOrder K := ⟨id, fun _ => .rfl⟩

/-- Every key stands once. -/
def Keyed (t : List (K × D)) : Prop := (t.map Prod.fst).Nodup

instance (t : List (K × D)) : Decidable (Keyed t) := inferInstanceAs (Decidable (List.Nodup _))

/-- The order that visits one key before the others. -/
def PairsOrder.keyFirst (k : K) : PairsOrder (K × D) :=
  ⟨fun t => t.filter (fun x => x.1 = k) ++ t.filter (fun x => !decide (x.1 = k)),
    fun t => t.filter_append_perm _⟩

variable {t : List (K × D)} {k : K} {d : D}

theorem mem_remove {x : K × D} : x ∈ remove t k ↔ x ∈ t ∧ x.1 ≠ k := by
  simp [remove]

theorem mem_keys_remove {k' : K} :
    k' ∈ (remove t k).map Prod.fst ↔ k' ∈ t.map Prod.fst ∧ k' ≠ k := by
  constructor
  · intro present
    obtain ⟨x, mem, rfl⟩ := List.mem_map.mp present
    obtain ⟨inside, other⟩ := mem_remove.mp mem
    exact ⟨List.mem_map_of_mem inside, other⟩
  · rintro ⟨present, other⟩
    obtain ⟨x, mem, rfl⟩ := List.mem_map.mp present
    exact List.mem_map_of_mem (mem_remove.mpr ⟨mem, other⟩)

theorem mem_keys_put {k' : K} :
    k' ∈ (put t k d).map Prod.fst ↔ k' = k ∨ k' ∈ t.map Prod.fst := by
  rw [put, List.map_cons, List.mem_cons, mem_keys_remove]
  by_cases here : k' = k <;> simp [here]

theorem remove_absent (absent : k ∉ t.map Prod.fst) : remove t k = t := by
  rw [remove, List.filter_eq_self]
  intro x mem
  rw [decide_eq_true_iff]
  rintro rfl
  exact absent (List.mem_map_of_mem mem)

theorem Keyed.remove (keyed : Keyed t) : Keyed (remove t k) :=
  keyed.sublist (List.filter_sublist.map Prod.fst)

theorem notMem_remove : k ∉ (remove t k).map Prod.fst := by
  simp [remove]

theorem Keyed.put (keyed : Keyed t) : Keyed (put t k d) :=
  List.nodup_cons.mpr ⟨notMem_remove, keyed.remove⟩

/-- The table is the entry of one key and the table without this key. -/
theorem Keyed.perm_remove (keyed : Keyed t) (mem : (k, d) ∈ t) :
    t.Perm ((k, d) :: Assoc.remove t k) := by
  induction t with
  | nil => cases mem
  | cons x t ih =>
      obtain ⟨fresh, keyed⟩ := List.nodup_cons.mp keyed
      cases List.mem_cons.mp mem with
      | inl here =>
          subst here
          rw [Assoc.remove, List.filter_cons_of_neg (by simp)]
          exact (List.Perm.of_eq (remove_absent fresh).symm).cons _
      | inr later =>
          have other : x.1 ≠ k := by
            rintro rfl
            exact fresh (List.mem_map.mpr ⟨_, later, rfl⟩)
          rw [Assoc.remove, List.filter_cons_of_pos (by simpa using other)]
          exact ((ih keyed later).cons x).trans (List.Perm.swap _ _ _)

/-- The key comes first, with its entry. -/
theorem Keyed.visit_keyFirst (keyed : Keyed t) (mem : (k, d) ∈ t) :
    (PairsOrder.keyFirst k).visit t = (k, d) :: Assoc.remove t k := by
  have others : t.filter (fun x => !decide (x.1 = k)) = Assoc.remove t k := by
    simp [Assoc.remove]
  have here : t.filter (fun x => x.1 = k) = [(k, d)] := by
    have perm := (keyed.perm_remove mem).filter fun x => x.1 = k
    rw [List.filter_cons_of_pos (by simp), Assoc.remove, List.filter_filter] at perm
    simpa using perm
  change t.filter (fun x => x.1 = k) ++ t.filter (fun x => !decide (x.1 = k)) = _
  rw [here, others, List.singleton_append]

/-- Entries with different keys that are written one after another. -/
theorem foldl_put_perm {entries t : List (K × D)} (keyed : Keyed (entries ++ t)) :
    (entries.foldl (fun t entry => put t entry.1 entry.2) t).Perm (entries ++ t) := by
  induction entries generalizing t with
  | nil => exact .rfl
  | cons entry entries ih =>
      have middle : (entries ++ entry :: t).Perm (entry :: (entries ++ t)) := List.perm_middle
      have fresh : entry.1 ∉ t.map Prod.fst := by
        intro present
        refine (List.nodup_cons.mp keyed).1 ?_
        obtain ⟨x, mem, same⟩ := List.mem_map.mp present
        exact List.mem_map.mpr ⟨x, List.mem_append_right entries mem, same⟩
      have step : put t entry.1 entry.2 = entry :: t := by rw [put, remove_absent fresh]
      rw [List.foldl_cons, step]
      exact (ih ((middle.map Prod.fst).nodup_iff.mpr keyed)).trans middle

section Lookup
-- The comparison of a lookup is any lawful one.
variable [BEq K] [LawfulBEq K]

omit [DecidableEq K] in
theorem lookup_none : t.lookup k = none ↔ k ∉ t.map Prod.fst := by
  simp only [List.lookup_eq_none_iff, bne_iff_ne, ne_eq, List.mem_map, not_exists, not_and,
    @eq_comm K k]

omit [DecidableEq K] in
theorem mem_of_lookup (found : t.lookup k = some d) : (k, d) ∈ t := by
  obtain ⟨before, rest, split, -⟩ := List.lookup_eq_some_iff.mp found
  rw [split]
  exact List.mem_append_right before List.mem_cons_self

omit [DecidableEq K] in
theorem Keyed.lookup_some (keyed : Keyed t) : t.lookup k = some d ↔ (k, d) ∈ t := by
  induction t with
  | nil => simp
  | cons x t ih =>
      obtain ⟨k', d'⟩ := x
      obtain ⟨fresh, keyed⟩ := List.nodup_cons.mp keyed
      by_cases here : k = k'
      · subst here
        have later : (k, d) ∉ t := fun mem => fresh (List.mem_map.mpr ⟨_, mem, rfl⟩)
        simp [later, eq_comm]
      · have other : (k == k') = false := beq_eq_false_iff_ne.mpr here
        simp [List.lookup_cons, here, other, ih keyed]

theorem lookup_remove (k' : K) :
    (remove t k).lookup k' = if k' = k then none else t.lookup k' := by
  induction t with
  | nil => simp [remove]
  | cons x t ih =>
      obtain ⟨k₁, d₁⟩ := x
      by_cases here : k₁ = k
      · subst here
        have skip : remove ((k₁, d₁) :: t) k₁ = remove t k₁ := by simp [remove]
        rw [skip, ih]
        by_cases same : k' = k₁
        · simp [same]
        · have other : (k' == k₁) = false := beq_eq_false_iff_ne.mpr same
          simp [same, List.lookup_cons, other]
      · have keep : remove ((k₁, d₁) :: t) k = (k₁, d₁) :: remove t k := by simp [remove, here]
        rw [keep, List.lookup_cons, List.lookup_cons, ih]
        by_cases same : k' = k₁
        · subst same
          simp [here]
        · have other : (k' == k₁) = false := beq_eq_false_iff_ne.mpr same
          simp [other]

theorem lookup_put (k' : K) :
    (put t k d).lookup k' = if k' = k then some d else t.lookup k' := by
  rw [put, List.lookup_cons, lookup_remove]
  by_cases same : k' = k
  · simp [same]
  · have other : (k' == k) = false := beq_eq_false_iff_ne.mpr same
    simp [same, other]

end Lookup

end Qiuqiu.Assoc
