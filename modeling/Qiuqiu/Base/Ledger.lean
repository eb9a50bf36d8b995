import Mathlib.Data.List.AList
import Mathlib.Data.List.Nodup
import Mathlib.Data.List.Perm.Basic

/-!
Ledgers of tokens. A table owns the tokens of its values, a change of one entry
moves the tokens of this entry only, and what was handed over is at any time what
was given back together with what is owned. A token that was handed over once is
either owned or was given back once.
-/
namespace Ledger
variable {K D τ A : Type} [DecidableEq K]

section Tables
variable (own : D → List τ) (t : AList fun _ : K => D)

/-- The tokens of all values. -/
def owned : List τ := t.entries.flatMap fun x => own x.2

variable {own t} {k : K} {d : D}

theorem entries_perm (held : t.lookup k = some d) :
    t.entries.Perm (⟨k, d⟩ :: (t.erase k).entries) := by
  have mem : (⟨k, d⟩ : Sigma fun _ : K => D) ∈ t.entries := List.of_mem_dlookup held
  obtain ⟨d', before, after, -, whole, erased⟩ := List.exists_of_kerase (List.mem_keys_of_mem mem)
  have mem' : (⟨k, d'⟩ : Sigma fun _ : K => D) ∈ t.entries := by
    rw [whole]
    exact List.mem_append_right _ List.mem_cons_self
  obtain rfl := t.nodupKeys.eq_of_mk_mem mem mem'
  change t.entries.Perm (⟨k, d⟩ :: t.entries.kerase k)
  rw [erased]
  conv_lhs => rw [whole]
  exact List.perm_middle

theorem owned_lookup (held : t.lookup k = some d) :
    (owned own t).Perm (own d ++ owned own (t.erase k)) :=
  (entries_perm held).flatMap_right _

theorem owned_erase_absent (absent : t.lookup k = none) : owned own (t.erase k) = owned own t := by
  have notMem : k ∉ t.entries.keys := AList.lookup_eq_none.mp absent
  change (t.entries.kerase k).flatMap _ = _
  rw [List.kerase_of_notMem_keys notMem]
  rfl

theorem owned_insert : owned own (t.insert k d) = own d ++ owned own (t.erase k) := rfl

end Tables

section Balance
variable {given returned held : List τ} (address : τ → A)

/-- A token that was handed over once is owned, or it was given back once. -/
theorem once_of_balance [DecidableEq A] (balance : given.Perm (returned ++ held)) {x : τ}
    (single : given.filter (fun y => address y = address x) = [x]) :
    if address x ∈ held.map address then address x ∉ returned.map address
    else returned.filter (fun y => address y = address x) = [x] := by
  have parts := balance.filter fun y => address y = address x
  rw [single, List.filter_append] at parts
  split
  · rename_i isHeld
    obtain ⟨y, mem, same⟩ := List.mem_map.mp isHeld
    have length := parts.length_eq
    rw [List.length_append, List.length_singleton] at length
    have found : 0 < (held.filter fun y => address y = address x).length :=
      List.length_pos_of_mem (List.mem_filter.mpr ⟨mem, decide_eq_true same⟩)
    intro isReturned
    obtain ⟨z, mem', same'⟩ := List.mem_map.mp isReturned
    have found' : 0 < (returned.filter fun y => address y = address x).length :=
      List.length_pos_of_mem (List.mem_filter.mpr ⟨mem', decide_eq_true same'⟩)
    omega
  · rename_i notHeld
    have none : held.filter (fun y => address y = address x) = [] := by
      rw [List.filter_eq_nil_iff]
      intro y mem same
      exact notHeld (List.mem_map.mpr ⟨y, mem, of_decide_eq_true same⟩)
    rw [none, List.append_nil] at parts
    exact List.perm_singleton.mp parts.symm

end Balance

end Ledger
