import Qiuqiu.Skiplist.Invariant

/-!
The list laid out from its elements and the levels of their nodes, with the
spans at the ends of the chains. Node `n` holds the element at place `n`, so
that every sorted list of elements, whatever the levels, has a list that is laid
out as its chain.
-/
namespace Qiuqiu.Skiplist
open LevelChain
variable {α : Type} (entries : List (α × Level))

/-- The levels of a node; the header has all of them. -/
def height : NodeId → Nat
  | 0 => SKIPLIST_MAXLEVEL
  | n + 1 => (entries[n]?).elim 0 fun entry => entry.2.val

/-- The highest level of a node. -/
def highest : List (α × Level) → Nat
  | [] => 1
  | entry :: entries => max entry.2.val (highest entries)

/-- The nodes behind `n`. -/
def behind (n : NodeId) : List NodeId := List.range' (n + 1) (entries.length - n)

def laidSlot (n : NodeId) (i : Nat) : LvSlot :=
  match hop (fun m => decide (1 ≤ i ∧ i ≤ height entries m)) (behind entries n) with
  | some (f, d) => ⟨some f, d⟩
  | none => ⟨none, (behind entries n).length⟩

def laidNode (n : NodeId) : Node α where
  nData := if n = 0 then none else (entries[n - 1]?).map Prod.fst
  backwardNode := if n ≤ 1 then none else some (n - 1)
  lvData :=
    { slots := fun i => if 1 ≤ i ∧ i ≤ height entries n then some (laidSlot entries n i) else none }

def layOut : SlData α where
  level := highest entries
  length := entries.length + 1
  headerNode := 0
  tailNode := if entries.length = 0 then none else some entries.length
  heap := laidNode entries
  nextId := entries.length + 1

section
variable {entries} {before after : List NodeId} {n i : Nat}

theorem layOut_has : (layOut entries).has i n = decide (1 ≤ i ∧ i ≤ height entries n) := by
  simp only [SlData.has, SlData.lv, layOut, laidNode]
  split
  · simp_all
  · simp_all

theorem highest_pos (entries : List (α × Level)) : 1 ≤ highest entries := by
  induction entries with
  | nil => exact Nat.le_refl 1
  | cons entry entries ih => exact Nat.le_trans ih (Nat.le_max_right _ _)

theorem highest_le (entries : List (α × Level)) : highest entries ≤ SKIPLIST_MAXLEVEL := by
  induction entries with
  | nil => exact show 1 ≤ SKIPLIST_MAXLEVEL by decide
  | cons entry entries ih => exact Nat.max_le.2 ⟨entry.2.le, ih⟩

theorem le_highest {entry : α × Level} (mem : entry ∈ entries) :
    entry.2.val ≤ highest entries := by
  induction entries with
  | nil => cases mem
  | cons first entries ih =>
      cases mem with
      | head => exact Nat.le_max_left _ _
      | tail _ mem => exact Nat.le_trans (ih mem) (Nat.le_max_right _ _)

/-- A node in the chain has its place, and an element there. -/
theorem exists_entry (mem : n ∈ List.range' 1 entries.length) :
    ∃ k, ∃ h : k < entries.length, n = k + 1 ∧ height entries n = (entries[k]).2.val ∧
      ((layOut entries).heap n).nData = some (entries[k]).1 := by
  rw [List.mem_range'_1] at mem
  cases n with
  | zero => omega
  | succ k =>
      have h : k < entries.length := by omega
      refine ⟨k, h, rfl, ?_, ?_⟩
      · simp [height, h]
      · simp [layOut, laidNode, h]

/-- A node of the chain stands between those with smaller and those with greater numbers. -/
theorem split_range' {s len : Nat} (split : List.range' s len = before ++ n :: after) :
    before = List.range' s before.length ∧ n = s + before.length ∧
      after = List.range' (n + 1) (s + len - (n + 1)) := by
  obtain ⟨k, le, rfl, rest⟩ := List.range'_eq_append_iff.1 split
  rw [List.length_range'] at *
  obtain ⟨rfl, -, rfl⟩ := List.range'_eq_cons_iff.1 rest.symm
  refine ⟨rfl, by omega, ?_⟩
  congr 1
  omega

/-- Every sorted list of elements is the chain of a list, whatever the levels. -/
theorem wf_layOut {compDataFunc : α → α → Int}
    (sorted : entries.Pairwise fun a b => compDataFunc a.1 b.1 < 0) :
    Wf compDataFunc True (layOut entries) (List.range' 1 entries.length) := by
  have chain : 0 :: List.range' 1 entries.length = List.range' 0 (entries.length + 1) := rfl
  exact
    { nodup := by
        change (0 :: List.range' 1 entries.length).Nodup
        rw [chain]
        exact List.nodup_range'
      below := by
        intro n mem
        change n ∈ 0 :: List.range' 1 entries.length at mem
        rw [chain, List.mem_range'_1] at mem
        exact Nat.lt_of_lt_of_eq mem.2 (Nat.zero_add _)
      data := by
        intro n mem
        obtain ⟨k, h, -, -, data⟩ := exists_entry mem
        exact ⟨_, data⟩
      sorted := by
        refine List.Pairwise.imp_of_mem ?_ List.pairwise_lt_range'
        intro a b ha hb less da db hda hdb
        obtain ⟨k, hk, rfl, -, data⟩ := exists_entry ha
        obtain ⟨l, hl, rfl, -, data'⟩ := exists_entry hb
        rw [data] at hda
        rw [data'] at hdb
        cases hda
        cases hdb
        exact List.pairwise_iff_getElem.1 sorted k l hk hl (by omega)
      header := by
        intro i
        change (layOut entries).has i 0 = true ↔ _
        rw [layOut_has, decide_eq_true_eq]
        rfl
      base := by
        intro n mem
        obtain ⟨k, h, -, levels, -⟩ := exists_entry mem
        rw [layOut_has, decide_eq_true_eq, levels]
        exact ⟨Nat.le_refl 1, (entries[k]).2.pos⟩
      down := by
        intro n mem i pos up
        rw [layOut_has, decide_eq_true_eq] at up ⊢
        omega
      top := by
        intro n mem i has
        obtain ⟨k, h, -, levels, -⟩ := exists_entry mem
        rw [layOut_has, decide_eq_true_eq, levels] at has
        exact ⟨has.1, Nat.le_trans has.2 (le_highest (List.getElem_mem h))⟩
      level := ⟨highest_pos entries, highest_le entries⟩
      chain := by
        intro before n after split i slot found
        change 0 :: List.range' 1 entries.length = _ at split
        rw [chain] at split
        obtain ⟨-, -, rest⟩ := split_range' split
        have here : after = behind entries n := by
          rw [rest, behind]
          congr 1
          omega
        have has : (layOut entries).has i =
            fun m => decide (1 ≤ i ∧ i ≤ height entries m) := by
          funext m
          exact layOut_has
        simp only [SlData.lv, layOut, laidNode, Option.ite_none_right_eq_some] at found
        obtain ⟨-, found⟩ := found
        cases found
        simp only [SlotOk, has, here, laidSlot]
        cases hop (fun m => decide (1 ≤ i ∧ i ≤ height entries m)) (behind entries n) with
        | some next => exact ⟨rfl, rfl⟩
        | none => exact ⟨rfl, fun _ => rfl⟩
      back := by
        intro before n after split
        obtain ⟨whole, place, -⟩ := split_range' split
        rw [whole, List.getLast?_range', place]
        change (if 1 + before.length ≤ 1 then none else some (1 + before.length - 1)) = _
        by_cases first : before.length = 0
        · rw [if_pos first, if_pos (by omega)]
        · rw [if_neg first, if_neg (by omega)]
      tail := by
        rw [List.getLast?_range', Nat.add_sub_cancel_left]
        rfl
      field := fun n => rfl }

theorem layOut_data :
    (List.range' 1 entries.length).map (fun n => ((layOut entries).heap n).nData) =
      (entries.map Prod.fst).map some := by
  apply List.ext_getElem
  · simp
  · intro k h h'
    simp only [List.getElem_map, List.getElem_range', layOut, laidNode]
    simp at h
    simp [Nat.add_comm 1, h]

end
end Qiuqiu.Skiplist
