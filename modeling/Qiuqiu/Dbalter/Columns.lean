import Mathlib.Data.List.Induction
import Mathlib.Data.List.Nodup
import Mathlib.Tactic.SplitIfs
import Qiuqiu.Base.Assoc

/-!
The columns of a table of the database, and what the two statements that alter
them do. A server refuses to add a column that exists and to modify one that does
not.
-/
namespace Qiuqiu.Dbalter
variable {Name Ty : Type}

/-- Names of columns with their types, each name once: the answer to `desc`. -/
structure Columns (Name Ty : Type) where
  rows : List (Name × Ty)
  keyed : Assoc.Keyed rows

namespace Columns

def names (table : Columns Name Ty) : List Name := table.rows.map Prod.fst

def single (c : Name) (t : Ty) : Columns Name Ty := ⟨[(c, t)], List.nodup_singleton c⟩

variable [DecidableEq Name] (table : Columns Name Ty)

/-- Writing an entry of a table of Lua, and several one after another. -/
def put (c : Name) (t : Ty) : Columns Name Ty := ⟨Assoc.put table.rows c t, table.keyed.put⟩

def putAll (entries : List (Name × Ty)) : Columns Name Ty :=
  entries.foldl (fun table entry => table.put entry.1 entry.2) table

theorem putAll_ne_nil {table : Columns Name Ty} {entries : List (Name × Ty)}
    (some : table.rows ≠ []) : (table.putAll entries).rows ≠ [] := by
  induction entries generalizing table with
  | nil => exact some
  | cons entry entries ih => exact ih (List.cons_ne_nil _ _)

/-- Every entry is there at the end when no two are for one name. -/
theorem mem_putAll {table : Columns Name Ty} {entries : List (Name × Ty)} {entry : Name × Ty}
    (keyed : Assoc.Keyed entries) (mem : entry ∈ entries) :
    entry ∈ (table.putAll entries).rows := by
  induction entries using List.reverseRecOn with
  | nil => cases mem
  | append_singleton entries last ih =>
      rw [Assoc.Keyed, List.map_append, List.nodup_append] at keyed
      rw [putAll, List.foldl_append, List.foldl_cons, List.foldl_nil]
      refine List.mem_cons.mpr ?_
      cases List.mem_append.mp mem with
      | inr here => exact .inl (List.mem_singleton.mp here)
      | inl earlier =>
          refine .inr (Assoc.mem_remove.mpr ⟨ih keyed.1 earlier, ?_⟩)
          exact keyed.2.2 _ (List.mem_map_of_mem earlier) _ (by simp)

/-- `alter table … add`. -/
def add (c : Name) (t : Ty) : Option (Columns Name Ty) :=
  if present : c ∈ table.names then none
  else some ⟨table.rows ++ [(c, t)], by
    rw [Assoc.Keyed, List.map_append]
    exact table.keyed.append (List.nodup_singleton c) (by simpa [names] using present)⟩

def setType (c : Name) (t : Ty) (row : Name × Ty) : Name × Ty :=
  if row.1 = c then (c, t) else row

theorem setType_fst (c : Name) (t : Ty) (row : Name × Ty) : (setType c t row).1 = row.1 := by
  rw [setType]
  split_ifs with same
  · exact same.symm
  · rfl

/-- `alter table … modify column`. -/
def modify (c : Name) (t : Ty) : Option (Columns Name Ty) :=
  if c ∈ table.names then
    some ⟨table.rows.map (setType c t), by
      simpa [Assoc.Keyed, Function.comp_def, setType_fst] using table.keyed⟩
  else none

variable {table} {after : Columns Name Ty} {c : Name} {t : Ty}

theorem names_add (done : table.add c t = some after) : after.names = table.names ++ [c] := by
  rw [add] at done
  split_ifs at done with present
  cases done
  simp [names]

theorem names_modify (done : table.modify c t = some after) : after.names = table.names := by
  rw [modify] at done
  split_ifs at done with present
  cases done
  simp [names, Function.comp_def, setType_fst]

end Columns
end Qiuqiu.Dbalter
