import Qiuqiu.Dbalter.Columns

/-!
The columns of table `role` that `CreateRoleColumns` adds for the variables of
`GetScmRoleVar` (service/databasecell/dbalter.lua). The `break` of the search stands
behind its `if`, so a declared column is compared with the first column of the table
only: it is added when it is this column with its type, and taken for present when the
first column is another one.
-/
namespace Qiuqiu.Dbalter.Role
variable {Name Ty : Type}

inductive Alter (Name Ty : Type) where
  | modify (c : Name) (t : Ty)
  | add (c : Name) (t : Ty)
  deriving DecidableEq

def Alter.column : Alter Name Ty → Name
  | .modify c _ | .add c _ => c

variable [DecidableEq Name]

def Alter.exec (table : Columns Name Ty) : Alter Name Ty → Option (Columns Name Ty)
  | .modify c t => table.modify c t
  | .add c t => table.add c t

variable {table after : Columns Name Ty}

theorem names_exec {sql : Alter Name Ty} (done : sql.exec table = some after) :
    ∃ extra, after.names = table.names ++ extra ∧ ∀ c ∈ extra, c = sql.column := by
  cases sql with
  | modify c t => exact ⟨[], by rw [Columns.names_modify done, List.append_nil], by simp⟩
  | add c t => exact ⟨[c], Columns.names_add done, fun _ mem => List.mem_singleton.mp mem⟩

variable [DecidableEq Ty]

/-- `hasColumns` and `hasModify` behind the search in `columnsInfo`. -/
def search (columnsName : Name) (filedType : Ty) : List (Name × Ty) → Bool × Bool
  | [] => (false, false)
  | cdata :: _ =>
      if columnsName = cdata.1 then (false, decide (filedType ≠ cdata.2)) else (true, false)

/-- The statement for one declared column. -/
def alterFor (columnsInfo : List (Name × Ty)) (declared : Name × Ty) :
    Option (Alter Name Ty) :=
  match search declared.1 declared.2 columnsInfo with
  | (_, true) => some (.modify declared.1 declared.2)
  | (false, false) => some (.add declared.1 declared.2)
  | (true, false) => none

/-- The loop over the declared columns: the statements it sends, and the table behind it
unless the server refused one and the `assert` raised. -/
def alterAll (columnsInfo : List (Name × Ty)) :
    List (Name × Ty) → Columns Name Ty → List (Alter Name Ty) × Option (Columns Name Ty)
  | [], table => ([], some table)
  | declared :: rest, table =>
      match alterFor columnsInfo declared with
      | none => alterAll columnsInfo rest table
      | some sql =>
          match sql.exec table with
          | none => ([sql], none)
          | some table =>
              let later := alterAll columnsInfo rest table
              (sql :: later.1, later.2)

/-- The part of `CreateRoleColumns` from `desc role` on. The declared columns come in the
order of `pairs`. -/
def createRoleColumns (order : Assoc.PairsOrder (Name × Ty)) (scmRoleVar table : Columns Name Ty) :
    List (Alter Name Ty) × Option (Columns Name Ty) :=
  alterAll table.rows (order.visit scmRoleVar.rows) table

/-- The migration reaches its target: it ends with every declared column of the declared
type and the other columns as they were, and a later run sends nothing. -/
def Reaches (scmRoleVar table : Columns Name Ty) : Prop :=
  ∀ order, ∃ after, (createRoleColumns order scmRoleVar table).2 = some after ∧
    (∀ d ∈ scmRoleVar.rows, d ∈ after.rows) ∧
    (after.rows.filter fun row => row.1 ∉ scmRoleVar.names) =
      (table.rows.filter fun row => row.1 ∉ scmRoleVar.names) ∧
    ∀ later, (createRoleColumns later scmRoleVar after).1 = []

variable {columnsInfo rows : List (Name × Ty)} {declared : Name × Ty}

/-- Nothing is sent exactly when the first column is another one. -/
theorem alterFor_none : alterFor columnsInfo declared = none ↔
    ∃ first rest, columnsInfo = first :: rest ∧ first.1 ≠ declared.1 := by
  cases columnsInfo with
  | nil => simp [alterFor, search]
  | cons first rest =>
      by_cases same : declared.1 = first.1
      · by_cases typed : declared.2 = first.2 <;> simp [alterFor, search, same, typed]
      · simp [alterFor, search, same, Ne.symm same]

theorem alterAll_quiet (quiet : ∀ d ∈ rows, alterFor columnsInfo d = none) :
    alterAll columnsInfo rows table = ([], some table) := by
  induction rows with
  | nil => rfl
  | cons d rows ih =>
      rw [alterAll, quiet d (by simp)]
      exact ih fun d mem => quiet d (List.mem_cons_of_mem _ mem)

theorem quiet_of_alterAll (sent : (alterAll columnsInfo rows table).1 = []) :
    ∀ d ∈ rows, alterFor columnsInfo d = none := by
  induction rows with
  | nil => simp
  | cons d rows ih =>
      rw [alterAll] at sent
      cases found : alterFor columnsInfo d with
      | none =>
          rw [found] at sent
          exact List.forall_mem_cons.mpr ⟨found, ih sent⟩
      | some sql =>
          rw [found] at sent
          cases done : sql.exec table <;> simp [done] at sent

theorem alterFor_column {sql : Alter Name Ty} (found : alterFor columnsInfo declared = some sql) :
    sql.column = declared.1 := by
  rw [alterFor] at found
  split at found <;> cases found <;> rfl

/-- The loop puts declared columns behind those of the table and nothing else. -/
theorem names_alterAll (done : (alterAll columnsInfo rows table).2 = some after) :
    ∃ extra, after.names = table.names ++ extra ∧ ∀ c ∈ extra, c ∈ rows.map Prod.fst := by
  induction rows generalizing table with
  | nil =>
      cases done
      exact ⟨[], by rw [List.append_nil], by simp⟩
  | cons d rows ih =>
      rw [alterAll] at done
      cases found : alterFor columnsInfo d with
      | none =>
          rw [found] at done
          obtain ⟨extra, names, declared⟩ := ih done
          exact ⟨extra, names, fun c mem => List.mem_cons_of_mem _ (declared c mem)⟩
      | some sql =>
          cases executed : sql.exec table with
          | none => simp [found, executed] at done
          | some next =>
              simp only [found, executed] at done
              obtain ⟨here, namesNext, column⟩ := names_exec executed
              obtain ⟨extra, names, declared⟩ := ih done
              refine ⟨here ++ extra, by rw [names, namesNext, List.append_assoc], ?_⟩
              intro c mem
              cases List.mem_append.mp mem with
              | inl mem =>
                  rw [column c mem, alterFor_column found]
                  exact List.mem_cons_self
              | inr mem => exact List.mem_cons_of_mem _ (declared c mem)

variable {scmRoleVar : Columns Name Ty}

/-- The first column of the table is there and is not declared. -/
def FirstOther (scmRoleVar table : Columns Name Ty) : Prop :=
  ∃ first rest, table.rows = first :: rest ∧ first.1 ∉ scmRoleVar.names

theorem quiet_iff (order : Assoc.PairsOrder (Name × Ty)) :
    (∀ d ∈ order.visit scmRoleVar.rows, alterFor table.rows d = none) ↔
      scmRoleVar.rows = [] ∨ FirstOther scmRoleVar table := by
  simp only [(order.perm _).mem_iff, alterFor_none]
  constructor
  · intro quiet
    cases rows : scmRoleVar.rows with
    | nil => exact .inl rfl
    | cons d ds =>
        obtain ⟨first, rest, eq, -⟩ := quiet d (by rw [rows]; exact List.mem_cons_self)
        refine .inr ⟨first, rest, eq, fun present => ?_⟩
        obtain ⟨d', mem, same⟩ := List.mem_map.mp present
        obtain ⟨_, _, eq', other⟩ := quiet d' mem
        rw [eq] at eq'
        cases eq'
        exact other same.symm
  · rintro (none | ⟨first, rest, eq, other⟩) d mem
    · rw [none] at mem
      cases mem
    · exact ⟨first, rest, eq, fun same => other (same ▸ List.mem_map_of_mem mem)⟩

/-- When the first column is not declared behind a run, it was not before. -/
theorem FirstOther.before {order : Assoc.PairsOrder (Name × Ty)}
    (done : (createRoleColumns order scmRoleVar table).2 = some after)
    (other : FirstOther scmRoleVar after) : FirstOther scmRoleVar table := by
  obtain ⟨extra, names, declared⟩ := names_alterAll done
  obtain ⟨first, rest, eq, other⟩ := other
  rw [Columns.names, eq, Columns.names] at names
  cases rows : table.rows with
  | nil =>
      have mem : first.1 ∈ extra := by
        rw [rows, List.map_nil, List.nil_append] at names
        rw [← names]
        exact List.mem_cons_self
      have visited := declared _ mem
      rw [((order.perm _).map Prod.fst).mem_iff] at visited
      exact absurd visited other
  | cons first' rest' =>
      rw [rows, List.map_cons, List.map_cons, List.cons_append] at names
      exact ⟨first', rest', rows, (List.cons.inj names).1 ▸ other⟩

/-- The code reaches the target exactly when it has nothing to do: nothing is declared, or
every declared column stands, with its type, behind a first column that is not declared. -/
theorem reaches_iff_nothing_to_do (scmRoleVar table : Columns Name Ty) :
    Reaches scmRoleVar table ↔
      scmRoleVar.rows = [] ∨
        (∃ first rest, table.rows = first :: rest ∧ first.1 ∉ scmRoleVar.names) ∧
          ∀ d ∈ scmRoleVar.rows, d ∈ table.rows := by
  constructor
  · intro reaches
    obtain ⟨after, done, present, -, silent⟩ := reaches .asStored
    have quiet := (quiet_iff .asStored).mp (quiet_of_alterAll (silent .asStored))
    cases quiet with
    | inl none => exact .inl none
    | inr other =>
        have before : FirstOther scmRoleVar table := other.before done
        have unchanged : createRoleColumns .asStored scmRoleVar table = ([], some table) :=
          alterAll_quiet ((quiet_iff .asStored).mpr (.inr before))
        rw [unchanged] at done
        cases done
        exact .inr ⟨before, present⟩
  · intro nothing order
    have quiet (order) : createRoleColumns order scmRoleVar table = ([], some table) :=
      alterAll_quiet ((quiet_iff order).mpr (nothing.imp_right And.left))
    refine ⟨table, by rw [quiet], ?_, rfl, fun later => by rw [quiet]⟩
    cases nothing with
    | inl none => simp [none]
    | inr behind => exact behind.2

/-- A table without the declared column keeps going without it. -/
theorem declared_column_missing :
    ¬ Reaches (Columns.single "Grade" "int(11)") (Columns.single "uid" "varchar(32)") := by
  intro reaches
  obtain ⟨after, done, present, -⟩ := reaches .asStored
  have unchanged : createRoleColumns .asStored (Columns.single "Grade" "int(11)")
      (Columns.single "uid" "varchar(32)") = ([], some (Columns.single "uid" "varchar(32)")) := rfl
  rw [unchanged] at done
  cases done
  exact absurd (present _ List.mem_cons_self) (by decide)

end Qiuqiu.Dbalter.Role
