import Mathlib.Algebra.GroupWithZero.Nat
import Mathlib.Data.List.Basic
import Mathlib.Data.List.Perm.Basic

/-!
A list of threads, each of which holds some things. When a thread moves, the things of
all change by the things of this one.
-/
namespace Qiuqiu.Holders
variable {α β : Type} {threads : List α} {i : Nat} {before : α}

/-- A thread has a place, and it moves there. -/
theorem exists_place (at_i : threads[i]? = some before) :
    ∃ front back, threads = front ++ before :: back ∧
      ∀ after, threads.set i after = front ++ after :: back := by
  obtain ⟨lt, rfl⟩ := List.getElem?_eq_some_iff.mp at_i
  refine ⟨threads.take i, threads.drop (i + 1), ?_, fun after => ?_⟩
  · rw [List.getElem_cons_drop, List.take_append_drop]
  · exact List.set_eq_take_cons_drop after lt

/-- A number that each thread adds to a sum. -/
theorem sum_map_set (weight : α → Nat) (at_i : threads[i]? = some before) (after : α) :
    ((threads.set i after).map weight).sum + weight before =
      (threads.map weight).sum + weight after := by
  obtain ⟨front, back, eq, set⟩ := exists_place at_i
  rw [set, eq]
  simp only [List.map_append, List.map_cons, List.sum_append, List.sum_cons]
  omega

theorem le_sum (weight : α → Nat) (mem : before ∈ threads) :
    weight before ≤ (threads.map weight).sum := by
  induction threads with
  | nil => cases mem
  | cons x xs ih =>
      rw [List.map_cons, List.sum_cons]
      cases List.mem_cons.mp mem with
      | inl here =>
          rw [here]
          exact Nat.le_add_right ..
      | inr later => exact Nat.le_trans (ih later) (Nat.le_add_left ..)

theorem exists_of_sum (weight : α → Nat) (pos : (threads.map weight).sum ≠ 0) :
    ∃ t ∈ threads, weight t ≠ 0 := by
  induction threads with
  | nil => exact absurd rfl pos
  | cons x xs ih =>
      by_cases zero : weight x = 0
      · rw [List.map_cons, List.sum_cons, zero, Nat.zero_add] at pos
        obtain ⟨t, mem, other⟩ := ih pos
        exact ⟨t, List.mem_cons_of_mem x mem, other⟩
      · exact ⟨x, List.mem_cons_self, zero⟩

variable (hold : α → List β)

theorem perm_flatMap_set (at_i : threads[i]? = some before) (after : α) :
    ((threads.set i after).flatMap hold ++ hold before).Perm
      (threads.flatMap hold ++ hold after) := by
  obtain ⟨front, back, eq, set⟩ := exists_place at_i
  rw [set, eq]
  simp only [List.flatMap_append, List.flatMap_cons, List.append_assoc]
  refine List.Perm.append_left _ ?_
  calc (hold after ++ (back.flatMap hold ++ hold before)).Perm
        ((back.flatMap hold ++ hold before) ++ hold after) := List.perm_append_comm
    List.Perm _ ((hold before ++ back.flatMap hold) ++ hold after) :=
      List.perm_append_comm.append_right _
    _ = hold before ++ (back.flatMap hold ++ hold after) := List.append_assoc ..

end Qiuqiu.Holders
