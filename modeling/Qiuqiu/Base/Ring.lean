import Mathlib.Data.List.Basic
import Mathlib.Logic.Function.Basic

/-!
Queues in a ring of cells. The cell at the tail is always free; when a push would fill the
ring, its elements move to the front of a larger one. A ring holds a list from its head on.
-/
namespace Qiuqiu

structure Ring (α : Type) where
  cap : Nat
  head : Nat
  tail : Nat
  cells : Nat → α

namespace Ring
variable {α : Type}

def empty [Inhabited α] (cap : Nat) : Ring α := ⟨cap, 0, 0, fun _ => default⟩

/-- The place behind one. -/
def next (r : Ring α) (i : Nat) : Nat := if i + 1 ≥ r.cap then 0 else i + 1

def length (r : Ring α) : Nat :=
  if r.head ≤ r.tail then r.tail - r.head else r.tail + r.cap - r.head

def pop (r : Ring α) : Option (α × Ring α) :=
  if r.head ≠ r.tail then some (r.cells r.head, { r with head := r.next r.head }) else none

def expand (r : Ring α) (cap : Nat) : Ring α where
  cap := cap
  head := 0
  tail := r.cap
  cells := fun i => r.cells ((r.head + i) % r.cap)

def push (grow : Nat → Nat) (r : Ring α) (x : α) : Ring α :=
  let r := { r with cells := Function.update r.cells r.tail x, tail := r.next r.tail }
  if r.head = r.tail then r.expand (grow r.cap) else r

/-- The elements from the head on. -/
structure Holds (r : Ring α) (l : List α) : Prop where
  head_lt : r.head < r.cap
  length_lt : l.length < r.cap
  tail_eq : r.tail = (r.head + l.length) % r.cap
  cells_eq : ∀ i (h : i < l.length), r.cells ((r.head + i) % r.cap) = l[i]

namespace Holds
variable {r : Ring α} {l l' : List α} {x : α}

theorem empty [Inhabited α] {cap : Nat} (pos : 0 < cap) : Holds (Ring.empty cap : Ring α) [] := by
  refine ⟨pos, pos, ?_, ?_⟩
  · exact (Nat.zero_mod cap).symm
  · intro i lt
    cases lt

theorem next_eq (r : Ring α) {i : Nat} (lt : i < r.cap) : r.next i = (i + 1) % r.cap := by
  rw [next]
  split
  · have full : i + 1 = r.cap := by omega
    rw [full, Nat.mod_self]
  · rw [Nat.mod_eq_of_lt (by omega)]

theorem wrap {cap head i : Nat} (head_lt : head < cap) (lt : i ≤ cap) :
    (head + i) % cap = if head + i < cap then head + i else head + i - cap := by
  split
  · rename_i inside
    exact Nat.mod_eq_of_lt inside
  · rw [Nat.mod_eq_sub_mod (by omega), Nat.mod_eq_of_lt (by omega)]

theorem length_eq (holds : Holds r l) : r.length = l.length := by
  obtain ⟨head_lt, length_lt, tail_eq, -⟩ := holds
  rw [length, tail_eq, wrap head_lt (by omega)]
  split <;> split <;> omega

/-- A ring holds one list. -/
theorem unique (holds : Holds r l) (holds' : Holds r l') : l = l' := by
  apply List.ext_getElem (holds.length_eq.symm.trans holds'.length_eq)
  intro i lt lt'
  exact (holds.cells_eq i lt).symm.trans (holds'.cells_eq i lt')

theorem pop_nil (holds : Holds r []) : r.pop = none := by
  have same : r.head = r.tail := by
    rw [holds.tail_eq, List.length_nil, Nat.add_zero, Nat.mod_eq_of_lt holds.head_lt]
  rw [pop, if_neg (not_not_intro same)]

theorem pop_cons (holds : Holds r (x :: l)) : ∃ r', r.pop = some (x, r') ∧ Holds r' l := by
  have length_eq := holds.length_eq
  obtain ⟨head_lt, length_lt, tail_eq, cells_eq⟩ := holds
  have more : r.head ≠ r.tail := by
    intro same
    rw [length, same, if_pos (Nat.le_refl _), Nat.sub_self] at length_eq
    cases length_eq
  have first := cells_eq 0 (Nat.succ_pos _)
  rw [Nat.add_zero, Nat.mod_eq_of_lt head_lt] at first
  refine ⟨_, by rw [pop, if_pos more, first]; rfl, ?_, ?_, ?_, ?_⟩
  · change r.next r.head < r.cap
    rw [next_eq r head_lt]
    exact Nat.mod_lt _ (by omega)
  · exact Nat.lt_of_succ_lt length_lt
  · change r.tail = (r.next r.head + l.length) % r.cap
    rw [next_eq r head_lt, Nat.mod_add_mod, tail_eq, List.length_cons]
    congr 1
    omega
  · intro i lt
    change r.cells ((r.next r.head + i) % r.cap) = l[i]
    rw [next_eq r head_lt, Nat.mod_add_mod, Nat.add_assoc, Nat.add_comm 1 i]
    exact cells_eq (i + 1) (Nat.succ_lt_succ lt)

theorem push {grow : Nat → Nat} (holds : Holds r l) (larger : r.cap < grow r.cap) (x : α) :
    Holds (r.push grow x) (l ++ [x]) := by
  obtain ⟨head_lt, length_lt, tail_eq, cells_eq⟩ := holds
  have tail_lt : r.tail < r.cap := by
    rw [tail_eq]
    exact Nat.mod_lt _ (by omega)
  have next_tail : r.next r.tail = (r.head + (l.length + 1)) % r.cap := by
    rw [next_eq r tail_lt, tail_eq, Nat.mod_add_mod, Nat.add_assoc]
  -- the written cell is the one behind the last
  have cells : ∀ i (h : i < (l ++ [x]).length),
      Function.update r.cells r.tail x ((r.head + i) % r.cap) = (l ++ [x])[i] := by
    intro i lt
    rw [List.length_append, List.length_singleton] at lt
    by_cases last : i = l.length
    · subst last
      rw [← tail_eq, Function.update_self]
      simp
    · have before : i < l.length := by omega
      have apart : (r.head + i) % r.cap ≠ r.tail := by
        rw [tail_eq, wrap head_lt (by omega), wrap head_lt (by omega)]
        split <;> split <;> omega
      rw [Function.update_of_ne apart, cells_eq i before, List.getElem_append_left before]
  rw [Ring.push]
  dsimp only
  split
  · rename_i full
    -- the head would be met: every cell holds an element, the first at the head
    rw [next_tail, wrap head_lt (by omega)] at full
    have filled : (l ++ [x]).length = r.cap := by
      rw [List.length_append, List.length_singleton]
      split at full <;> omega
    refine ⟨by change 0 < grow r.cap; omega, ?_, ?_, ?_⟩
    · change (l ++ [x]).length < grow r.cap
      omega
    · change r.cap = (0 + (l ++ [x]).length) % grow r.cap
      rw [Nat.zero_add, filled, Nat.mod_eq_of_lt larger]
    · intro i lt
      have inside : (0 + i) % grow r.cap = i := by
        rw [Nat.zero_add, Nat.mod_eq_of_lt (by omega)]
      change Function.update r.cells r.tail x ((r.head + (0 + i) % grow r.cap) % r.cap) = _
      rw [inside]
      exact cells i lt
  · rename_i room
    refine ⟨head_lt, ?_, ?_, cells⟩
    · rw [next_tail, wrap head_lt (by omega)] at room
      change (l ++ [x]).length < r.cap
      rw [List.length_append, List.length_singleton]
      split at room <;> omega
    · rw [List.length_append, List.length_singleton]
      exact next_tail

end Holds
end Ring
end Qiuqiu
