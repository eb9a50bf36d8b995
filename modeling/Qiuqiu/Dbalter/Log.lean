import Mathlib.Logic.Function.Basic
import Qiuqiu.Dbalter.Columns

/-!
The tables of the log database (`CreateGameLogTable` in service/databasecell/dbalter.lua,
`_ExchangeLogData` in service/loadxls/exchange.lua). A missing table is created with the
types `FieldType` of its columns; the columns of an existing one are compared with
`fieldType`, which only the entry of `timestamp` has. So the second run alters or refuses
every table that declares a column, whatever the server accepts. Neither run comes to its
second table: the turn of a table ends in the query of its partitions, whose `from` is
spelled `form`.
-/
namespace Qiuqiu.Dbalter.Log

/-- A column in the configuration. -/
structure Field where
  FieldType : String
  FieldDes : String
  deriving DecidableEq

/-- A column as the comparison reads it: the type under its own name for it. -/
structure Entry where
  fieldType : Option String
  FieldDes : String

/-- An entry of the configuration has the key `FieldType` and no key `fieldType`. -/
def Field.entry (field : Field) : Entry := ⟨none, field.FieldDes⟩

/-- `log_xls`, `log_partition_xls` with the partitions of the day, `log_indexs_xls` and the
name of the database. -/
structure Config where
  tables : List (String × Columns String Field)
  keyed : Assoc.Keyed tables
  isPartition : String → Bool
  partitionSql : String
  indexs : String → Option (List (List String))
  dbname : String

/-- The types that `MYSQL_FIELDTYPE_MAP` knows (lualib/macros/macros_common.lua). -/
def mysqlFieldtypes : List String :=
  ["int(11)", "double(16,2)", "bigint(20)", "varchar(32)", "varchar(64)", "varchar(128)",
    "varchar(256)", "text"]

/-- A table of the sheet of logs: its fields with `FieldType` and `FieldDesc`. -/
structure RowData where
  field : List (String × String × Option String)
  isRoleInfo : Option Nat

def roleInfo : List (String × Field) :=
  [("acct", ⟨"varchar(64)", "后台账号"⟩), ("urs", ⟨"varchar(64)", "账号urs"⟩),
    ("uid", ⟨"varchar(32)", "角色唯一id"⟩), ("name", ⟨"varchar(64)", "角色名字"⟩),
    ("grade", ⟨"int(11)", "角色等级"⟩), ("serverid", ⟨"int(11)", "角色区服"⟩)]

/-- The columns `_ExchangeLogData` makes of one table, or that it raised. -/
def exchangeTable (rowdata : RowData) : Option (Columns String Field) :=
  let hostid := Columns.single "hostid" ⟨"int(11)", "服务器编号"⟩
  if rowdata.field.all fun data => data.2.1 ∈ mysqlFieldtypes then
    let fields := rowdata.field.map fun data => (data.1, Field.mk data.2.1 (data.2.2.getD ""))
    some (hostid.putAll (fields ++ if rowdata.isRoleInfo = some 1 then roleInfo else []))
  else none

/-- `exData` of `_ExchangeLogData`. -/
def exchangeLogData :
    List (String × RowData) → Option (List (String × Columns String Field))
  | [] => some []
  | (tableName, rowdata) :: data => do
      let columns ← exchangeTable rowdata
      let tables ← exchangeLogData data
      some ((tableName, columns) :: tables)

theorem exchangeTable_declares {rowdata : RowData} {columns : Columns String Field}
    (done : exchangeTable rowdata = some columns) : columns.rows ≠ [] := by
  rw [exchangeTable, Option.ite_none_right_eq_some] at done
  obtain ⟨-, eq⟩ := done
  cases eq
  exact Columns.putAll_ne_nil (List.cons_ne_nil _ _)

/-- Every table that comes out of the sheet declares a column. -/
theorem exchangeLogData_declares {data : List (String × RowData)}
    {tables : List (String × Columns String Field)} (done : exchangeLogData data = some tables) :
    ∀ kv ∈ tables, kv.2.rows ≠ [] := by
  induction data generalizing tables with
  | nil =>
      cases done
      simp
  | cons row data ih =>
      simp only [exchangeLogData, bind, Option.bind_eq_some_iff] at done
      obtain ⟨columns, made, rest, doneRest, eq⟩ := done
      cases eq
      exact List.forall_mem_cons.mpr ⟨exchangeTable_declares made, ih doneRest⟩

/-- The `%s` of `string.format`. -/
def luaText : Option String → String
  | none => "nil"
  | some s => s

inductive Statement where
  | create (table : String) (columns : List (String × Field)) (partition : Option String)
  | modify (table c : String) (fieldType : Option String) (fieldDesc : String)
  | add (table c : String) (fieldType : Option String) (fieldDesc : String)
  | addIndex (table : String) (keyData : List String)

namespace Statement

def columnSql (column : String × Field) : String :=
  "`" ++ column.1 ++ "` " ++ column.2.FieldType ++ " comment `" ++ column.2.FieldDes ++ "`"

def sql : Statement → String
  | .create table columns partition =>
      "CREATE TABLE `" ++ table ++ "` (\n" ++
        "\t`timestamp` datetime not null default current_timestamp,\n\t" ++
        ",\n\t".intercalate (columns.map columnSql) ++
        "\n) ENGINE = InnoDB DEFAULT CHARSET = utf8" ++
        match partition with
        | none => ";\n"
        | some parts => "\npartition by range columns(timestamp) (\n\t" ++ parts ++ "\n);\n"
  | .modify table c fieldType fieldDesc =>
      "alter table " ++ table ++ " modify column " ++ c ++ " " ++ luaText fieldType ++
        " comment '" ++ fieldDesc ++ "';"
  | .add table c fieldType fieldDesc =>
      "alter table " ++ table ++ " add '" ++ c ++ "' " ++ luaText fieldType ++
        " comment '" ++ fieldDesc ++ "';"
  | .addIndex table keyData =>
      "alter table " ++ table ++ " add index " ++ "_".intercalate keyData ++ "(`" ++
        "`, `".intercalate keyData ++ "`);"

/-- The statement alters a column. -/
def IsAlter : Statement → Prop
  | .create _ _ _ | .addIndex _ _ => False
  | .modify _ _ _ _ | .add _ _ _ _ => True

end Statement

/-- A table of the log database, with the names of its indexes and their columns. -/
structure Table where
  columns : Columns String String
  indexs : List (String × List String)

abbrev Database := String → Option Table

def timestamp : String × String := ("timestamp", "datetime")

/-- The columns a create statement names, with their types. -/
def created (columns : List (String × Field)) : List (String × String) :=
  timestamp :: columns.map fun column => (column.1, column.2.FieldType)

/-- `alter table … add index`. -/
def Table.addIndex (table : Table) (name : String) (keyData : List String) : Option Table :=
  if name ∉ table.indexs.map Prod.fst ∧ keyData.all (· ∈ table.columns.names) then
    some { table with indexs := table.indexs ++ [(name, keyData)] }
  else none

/-- What a statement does to tables that allow it. -/
def Statement.apply (db : Database) : Statement → Option Database
  | .create table columns _ =>
      if keyed : Assoc.Keyed (created columns) then
        if (db table).isNone then some (Function.update db table (some ⟨⟨_, keyed⟩, []⟩)) else none
      else none
  | .modify table c fieldType _ => do
      let old ← db table
      let columns ← old.columns.modify c (luaText fieldType)
      some (Function.update db table (some { old with columns := columns }))
  | .add table c fieldType _ => do
      let old ← db table
      let columns ← old.columns.add c (luaText fieldType)
      some (Function.update db table (some { old with columns := columns }))
  | .addIndex table keyData => do
      let new ← (← db table).addIndex ("_".intercalate keyData) keyData
      some (Function.update db table (some new))

def showIndexSql (table : String) : String := "show index from " ++ table ++ ";"

def selectForm : String := "select partition_name, partition_description form "

/-- The query of the partitions as the source spells it. -/
def selectPartitionSql (dbname table : String) : String :=
  selectForm ++ ("INFORMATION_SCHEMA.PARTITIONS where TABLE_SCHEMA='" ++ dbname ++
    "' and TABLE_NAME='" ++ table ++ "'")

/-- A server: the texts that its parser takes. Behind the alias `form` its grammar has no place
for the name of a table. -/
structure Server where
  takes : String → Bool
  noForm : ∀ dbname table, takes (selectPartitionSql dbname table) = false

/-- The database runs what its parser takes. -/
def Statement.exec (server : Server) (db : Database) (s : Statement) : Option Database :=
  if server.takes s.sql then s.apply db else none

/-- Why a run ended early: an `assert` or an `error` on an answer of the database, the `error`
of the comparison, or the call of `table.equal`, which no module defines. -/
inductive Stop where
  | refused (sql : String)
  | compared (msg : String)
  | noEqual

structure Run where
  sent : List Statement
  db : Database
  stop : Option Stop

def Run.andThen (r : Run) (next : Database → Run) : Run :=
  match r.stop with
  | some _ => r
  | none => { next r.db with sent := r.sent ++ (next r.db).sent }

/-- `LOG_MODIFY_COLUMN` in lualib/macros/macros_common.lua. -/
def logModifyColumn : List (String × List (String × String)) :=
  [("heroexp_change",
      [("old_heroexp", "int(11)"), ("new_heroexp", "int(11)"), ("amount", "int(11)")]),
    ("reward_cash", [("cash", "int(11)")]),
    ("*", [("timestamp", "timestamp")])]

def modifiable (key field type : String) : Bool :=
  (logModifyColumn.lookup key).bind (·.lookup field) = some type

section
variable (server : Server)

def send (db : Database) (s : Statement) : Run :=
  match s.exec server db with
  | none => ⟨[s], db, some (.refused s.sql)⟩
  | some db => ⟨[s], db, none⟩

/-- One column of `ldata` against the answer to `desc`. -/
def compareColumn (table : String) (columnsInfo : List (String × String))
    (column : String × Entry) (db : Database) : Run :=
  let fieldType := column.2.fieldType
  let fieldDesc := column.2.FieldDes
  match columnsInfo.lookup column.1 with
  | none => send server db (.add table column.1 fieldType fieldDesc)
  | some type =>
      if fieldType = some type then ⟨[], db, none⟩
      else if modifiable table column.1 type then
        send server db (.modify table column.1 fieldType fieldDesc)
      else if modifiable "*" column.1 type then
        send server db (.modify table column.1 fieldType fieldDesc)
      else
        ⟨[], db, some (.compared ("mysql table:" ++ table ++ " field:" ++ column.1 ++ " type:" ++
          type ++ " xls type:" ++ luaText fieldType))⟩

def compareAll (table : String) (columnsInfo : List (String × String)) :
    List (String × Entry) → Database → Run
  | [], db => ⟨[], db, none⟩
  | column :: columns, db =>
      (compareColumn server table columnsInfo column db).andThen
        (compareAll table columnsInfo columns)

def ldata (data : List (String × Field)) : List (String × Entry) :=
  ((Columns.single "timestamp" ⟨some "datetime", "timestamp"⟩).putAll
    (data.map fun column => (column.1, column.2.entry))).rows

/-- The orders of the loops over `pairs`. -/
structure Orders where
  tables : Assoc.PairsOrder (String × Columns String Field)
  data : Assoc.PairsOrder (String × Field)
  ldata : Assoc.PairsOrder (String × Entry)
  indexs : Assoc.PairsOrder (List String)

variable (cfg : Config) (orders : Orders)

/-- The statement that creates a table. -/
def createStatement (table : String) (columns : List (String × Field)) : Statement :=
  .create table columns (if cfg.isPartition table then some cfg.partitionSql else none)

/-- The columns of one table of `log_xls`: the table is created, or compared with what it has. -/
def createColumns (kv : String × Columns String Field) (db : Database) : Run :=
  match db kv.1 with
  | none => send server db (createStatement cfg kv.1 (orders.data.visit kv.2.rows))
  | some table =>
      compareAll server kv.1 table.columns.rows (orders.ldata.visit (ldata kv.2.rows)) db

def addIndexs (table : String) : List (List String) → Database → Run
  | [], db => ⟨[], db, none⟩
  | keyData :: keys, db => (send server db (.addIndex table keyData)).andThen (addIndexs table keys)

/-- The indexes of one table. The first comparison of a configured index with one of the table
raises, so that only a table without indexes gets here, and there is none to drop. -/
def createIndexs (table : String) (db : Database) : Run :=
  match cfg.indexs table with
  | none => ⟨[], db, none⟩
  | some keys =>
      if server.takes (showIndexSql table) then
        if keys = [] then ⟨[], db, none⟩
        else if ((db table).elim [] Table.indexs).isEmpty then
          addIndexs server table (orders.indexs.visit keys) db
        else ⟨[], db, some .noEqual⟩
      else ⟨[], db, some (.refused (showIndexSql table))⟩

/-- The query of the partitions, to which no server has an answer. -/
def selectPartitions (table : String) (db : Database) : Run :=
  ⟨[], db, some (.refused (selectPartitionSql cfg.dbname table))⟩

/-- One table of `log_xls`. -/
def createTable (kv : String × Columns String Field) (db : Database) : Run :=
  ((createColumns server cfg orders kv db).andThen (createIndexs server cfg orders kv.1)).andThen
    (selectPartitions cfg kv.1)

def createTables : List (String × Columns String Field) → Database → Run
  | [], db => ⟨[], db, none⟩
  | kv :: tables, db =>
      (createTable server cfg orders kv db).andThen (createTables tables)

def createGameLogTable (db : Database) : Run :=
  createTables server cfg orders (orders.tables.visit cfg.tables) db

end

/-- Every configured table has its declared columns and the timestamp. -/
def Created (cfg : Config) (db : Database) : Prop :=
  ∀ kv ∈ cfg.tables, ∃ table, db kv.1 = some table ∧
    table.columns.rows.Perm (created kv.2.rows)

/-- The run altered a column or raised in the comparison. -/
def Run.Altered (r : Run) : Prop :=
  (∃ s ∈ r.sent, s.IsAlter) ∨ ∃ msg, r.stop = some (.compared msg)

/-- From an empty database the first run creates every table, and the second one, with
the same configuration, leaves the columns alone. -/
def Idempotent (server : Server) (cfg : Config) : Prop :=
  ∀ orders, Created cfg (createGameLogTable server cfg orders fun _ => none).db ∧
    ∀ orders', ¬ (createGameLogTable server cfg orders'
      (createGameLogTable server cfg orders fun _ => none).db).Altered

section Runs
variable {r : Run} {next : Database → Run}

theorem Run.Altered.andThen (altered : r.Altered) : (r.andThen next).Altered := by
  rw [Run.andThen]
  split
  · exact altered
  next ran =>
    obtain ⟨s, mem, alter⟩ | ⟨msg, stopped⟩ := altered
    · exact .inl ⟨s, List.mem_append_left _ mem, alter⟩
    · rw [ran] at stopped
      cases stopped

theorem Run.not_altered_andThen (quiet : ¬ r.Altered) (quietNext : ∀ db, ¬ (next db).Altered) :
    ¬ (r.andThen next).Altered := by
  rw [Run.andThen]
  split
  · exact quiet
  · rintro (⟨s, mem, alter⟩ | stopped)
    · cases List.mem_append.mp mem with
      | inl first => exact quiet (.inl ⟨s, first, alter⟩)
      | inr second => exact quietNext _ (.inl ⟨s, second, alter⟩)
    · exact quietNext _ (.inr stopped)

theorem Run.andThen_stops (stops : ∀ db, (next db).stop ≠ none) : (r.andThen next).stop ≠ none := by
  rw [Run.andThen]
  split
  next ended => simp [ended]
  · exact stops _

/-- The columns of all tables. -/
def columnsOf (db : Database) (table : String) : Option (Columns String String) :=
  (db table).map Table.columns

theorem Run.andThen_columns (keeps : ∀ db, columnsOf (next db).db = columnsOf db) :
    columnsOf (r.andThen next).db = columnsOf r.db := by
  rw [Run.andThen]
  split
  · rfl
  · exact keeps _

end Runs

variable {server : Server} {db : Database}

theorem send_sent (s : Statement) : (send server db s).sent = [s] := by
  rw [send]
  split <;> rfl

theorem send_altered {s : Statement} (alter : s.IsAlter) : (send server db s).Altered :=
  .inl ⟨s, by rw [send_sent]; exact List.mem_singleton_self s, alter⟩

section Indexs
variable {cfg : Config} {orders : Orders} {table : String} {keyData : List String}

/-- Adding an index leaves the columns. -/
theorem send_addIndex_columns :
    columnsOf (send server db (.addIndex table keyData)).db = columnsOf db := by
  rw [send]
  split
  · rfl
  next after done =>
    rw [Statement.exec, Option.ite_none_right_eq_some] at done
    simp only [Statement.apply, bind, Option.bind_eq_some_iff] at done
    obtain ⟨-, old, here, new, added, done⟩ := done
    cases done
    rw [Table.addIndex, Option.ite_none_right_eq_some] at added
    obtain ⟨-, added⟩ := added
    cases added
    funext name
    by_cases same : name = table
    · simp [columnsOf, same, here]
    · simp [columnsOf, same]

theorem send_addIndex_quiet : ¬ (send server db (.addIndex table keyData)).Altered := by
  rintro (⟨s, mem, alter⟩ | ⟨msg, stopped⟩)
  · rw [send_sent] at mem
    rw [List.mem_singleton.mp mem] at alter
    exact alter
  · rw [send] at stopped
    split at stopped <;> cases stopped

theorem addIndexs_columns (keys : List (List String)) :
    columnsOf (addIndexs server table keys db).db = columnsOf db := by
  induction keys generalizing db with
  | nil => rfl
  | cons keyData keys ih =>
      rw [addIndexs, Run.andThen_columns fun db => ih]
      exact send_addIndex_columns

theorem addIndexs_quiet (keys : List (List String)) :
    ¬ (addIndexs server table keys db).Altered := by
  induction keys generalizing db with
  | nil =>
      rintro (⟨s, mem, -⟩ | ⟨msg, stopped⟩)
      · cases mem
      · cases stopped
  | cons keyData keys ih => exact Run.not_altered_andThen send_addIndex_quiet fun db => ih

theorem createIndexs_columns :
    columnsOf (createIndexs server cfg orders table db).db = columnsOf db := by
  rw [createIndexs]
  split
  · rfl
  · split_ifs
    · rfl
    · exact addIndexs_columns _
    · rfl
    · rfl

theorem not_altered_stop {stop : Option Stop} (other : ∀ msg, stop ≠ some (.compared msg)) :
    ¬ (Run.mk [] db stop).Altered := by
  rintro (⟨s, mem, -⟩ | ⟨msg, stopped⟩)
  · cases mem
  · exact other msg stopped

theorem createIndexs_quiet : ¬ (createIndexs server cfg orders table db).Altered := by
  rw [createIndexs]
  split
  · exact not_altered_stop nofun
  · split_ifs
    · exact not_altered_stop nofun
    · exact addIndexs_quiet _
    · exact not_altered_stop nofun
    · exact not_altered_stop nofun

theorem selectPartitions_quiet : ¬ (selectPartitions cfg table db).Altered :=
  not_altered_stop nofun

end Indexs

section Compare
variable {table : String} {columnsInfo : List (String × String)} {column : String × Entry}
  {columns : List (String × Entry)}

/-- A column passes the comparison only with the type of the table. -/
theorem compareColumn_quiet_or_altered (column : String × Entry) :
    (∃ type, columnsInfo.lookup column.1 = some type ∧ column.2.fieldType = some type) ∧
        compareColumn server table columnsInfo column db = ⟨[], db, none⟩ ∨
      (compareColumn server table columnsInfo column db).Altered := by
  rw [compareColumn]
  split
  · exact .inr (send_altered trivial)
  next type found =>
    split_ifs with same
    · exact .inl ⟨⟨type, found, same⟩, rfl⟩
    · exact .inr (send_altered trivial)
    · exact .inr (send_altered trivial)
    · exact .inr (.inr ⟨_, rfl⟩)

/-- A column without a type does not pass, in whatever order the columns come. -/
theorem compareAll_altered (mem : column ∈ columns) (untyped : column.2.fieldType = none) :
    (compareAll server table columnsInfo columns db).Altered := by
  induction columns with
  | nil => cases mem
  | cons first columns ih =>
      rw [compareAll]
      obtain ⟨⟨type, -, typed⟩, quiet⟩ | altered := compareColumn_quiet_or_altered first
      · have later : column ∈ columns := by
          refine (List.mem_cons.mp mem).resolve_left ?_
          rintro rfl
          rw [untyped] at typed
          cases typed
        rw [quiet]
        exact ih later
      · exact altered.andThen

end Compare

/-- A declared column comes to the comparison without a type. -/
theorem mem_ldata {column : String × Field} {data : List (String × Field)}
    (keyed : Assoc.Keyed data) (mem : column ∈ data) :
    (column.1, column.2.entry) ∈ ldata data := by
  refine Columns.mem_putAll ?_ (List.mem_map_of_mem mem)
  simpa [Assoc.Keyed, Function.comp_def] using keyed

variable {cfg : Config} {orders : Orders}
  {kv : String × Columns String Field} {tables : List (String × Columns String Field)}

/-- No turn is followed by another one. -/
theorem createTables_cons :
    createTables server cfg orders (kv :: tables) db = createTable server cfg orders kv db := by
  have stops : (createTable server cfg orders kv db).stop ≠ none :=
    Run.andThen_stops fun _ => Option.some_ne_none _
  rw [createTables, Run.andThen]
  split
  · rfl
  · contradiction

/-- What a turn leaves of the columns comes from its first part. -/
theorem createTable_columns :
    columnsOf (createTable server cfg orders kv db).db =
      columnsOf (createColumns server cfg orders kv db).db := by
  rw [createTable, Run.andThen_columns fun _ => rfl]
  exact Run.andThen_columns fun _ => createIndexs_columns

/-- A table that exists and declares a column is altered or refused. -/
theorem createTable_altered {table : Table} (present : db kv.1 = some table)
    (declares : kv.2.rows ≠ []) : (createTable server cfg orders kv db).Altered := by
  obtain ⟨column, mem⟩ := List.exists_mem_of_ne_nil _ declares
  have visited := (orders.ldata.perm _).mem_iff.mpr (mem_ldata kv.2.keyed mem)
  have altered : (createColumns server cfg orders kv db).Altered := by
    rw [createColumns, present]
    exact compareAll_altered visited rfl
  exact altered.andThen.andThen

/-- The columns of a table that declares none. -/
def stamped : Columns String String := Columns.single "timestamp" "datetime"

/-- A turn changes nothing for a table without declared columns. -/
theorem createTable_quiet (present : columnsOf db kv.1 = some stamped) (bare : kv.2.rows = []) :
    ¬ (createTable server cfg orders kv db).Altered := by
  obtain ⟨table, here, same⟩ := Option.map_eq_some_iff.mp present
  have visited : orders.ldata.visit (ldata kv.2.rows) =
      [("timestamp", ⟨some "datetime", "timestamp"⟩)] := by
    rw [bare]
    exact List.perm_singleton.mp (orders.ldata.perm _)
  have quiet : ¬ (createColumns server cfg orders kv db).Altered := by
    rw [createColumns, here]
    simp only [same, visited]
    exact not_altered_stop nofun
  refine Run.not_altered_andThen (Run.not_altered_andThen quiet fun _ => ?_) fun _ => ?_
  · exact createIndexs_quiet
  · exact selectPartitions_quiet

/-- The create statement of a new table leaves the others, and is taken when it makes one. -/
theorem createColumns_absent {columns : Columns String String} {name : String}
    (absent : ∀ name, db name = none)
    (made : columnsOf (createColumns server cfg orders kv db).db name = some columns) :
    name = kv.1 ∧
      server.takes (createStatement cfg kv.1 (orders.data.visit kv.2.rows)).sql = true := by
  simp only [createColumns, absent, send] at made
  split at made
  · simp [columnsOf, absent] at made
  next after done =>
    rw [Statement.exec, Option.ite_none_right_eq_some, createStatement, Statement.apply] at done
    obtain ⟨takes, done⟩ := done
    split_ifs at done
    cases done
    refine ⟨?_, takes⟩
    by_contra other
    simp [columnsOf, other, absent] at made

theorem createColumns_bare (absent : db kv.1 = none) (bare : kv.2.rows = [])
    (takes : server.takes (createStatement cfg kv.1 []).sql = true) :
    columnsOf (createColumns server cfg orders kv db).db kv.1 = some stamped := by
  have visited : orders.data.visit kv.2.rows = [] := by
    rw [bare]
    exact List.perm_nil.mp (orders.data.perm _)
  have keyed : Assoc.Keyed (created []) := List.nodup_singleton _
  have done : (createStatement cfg kv.1 []).exec server db =
      some (Function.update db kv.1 (some ⟨stamped, []⟩)) := by
    rw [Statement.exec, if_pos takes, createStatement, Statement.apply, dif_pos keyed, absent]
    rfl
  simp [createColumns, absent, visited, send, done, columnsOf]

/-- The orders that take one table first. -/
def Orders.first (table : String) : Orders := ⟨.keyFirst table, .asStored, .asStored, .asStored⟩

theorem createGameLogTable_first (mem : kv ∈ cfg.tables) :
    createGameLogTable server cfg (.first kv.1) db =
      createTable server cfg (.first kv.1) kv db := by
  have visited : (Orders.first kv.1).tables.visit cfg.tables =
      kv :: Assoc.remove cfg.tables kv.1 := cfg.keyed.visit_keyFirst mem
  rw [createGameLogTable, visited, createTables_cons]

/-- A configured table declares no column: it would not pass the second run. -/
theorem Idempotent.bare (idempotent : Idempotent server cfg) (mem : kv ∈ cfg.tables) :
    kv.2.rows = [] := by
  by_contra declares
  obtain ⟨made, second⟩ := idempotent (.first kv.1)
  obtain ⟨table, present, -⟩ := made kv mem
  refine second (.first kv.1) ?_
  rw [createGameLogTable_first mem]
  exact createTable_altered present declares

/-- A configuration from the sheet passes only without tables. -/
theorem Idempotent.no_tables {data : List (String × RowData)}
    (exchanged : exchangeLogData data = some cfg.tables)
    (idempotent : Idempotent server cfg) : cfg.tables = [] := by
  rw [List.eq_nil_iff_forall_not_mem]
  intro kv mem
  exact exchangeLogData_declares exchanged kv mem (idempotent.bare mem)

/-- A first run that starts with a table makes no other one, and this one when the server
takes its statement. -/
theorem Idempotent.only (idempotent : Idempotent server cfg) (mem : kv ∈ cfg.tables)
    {kv' : String × Columns String Field} (mem' : kv' ∈ cfg.tables) :
    kv'.1 = kv.1 ∧ server.takes (createStatement cfg kv.1 []).sql = true := by
  obtain ⟨made, -⟩ := idempotent (.first kv.1)
  obtain ⟨table, present, -⟩ := made kv' mem'
  have columns : columnsOf (createColumns server cfg (.first kv.1) kv fun _ => none).db kv'.1 =
      some table.columns := by
    rw [← createTable_columns, ← createGameLogTable_first mem, columnsOf, present]
    rfl
  have only := createColumns_absent (fun _ => rfl) columns
  rwa [idempotent.bare mem] at only

/-- The two runs do what they should exactly when at most one table is configured, it declares
no column and the server takes its create statement. -/
theorem idempotent_iff_no_columns (server : Server) (cfg : Config) :
    Idempotent server cfg ↔ cfg.tables.length ≤ 1 ∧
      ∀ kv ∈ cfg.tables, kv.2.rows = [] ∧
        server.takes (createStatement cfg kv.1 []).sql = true := by
  constructor
  · intro idempotent
    refine ⟨?_, fun kv mem => ⟨idempotent.bare mem, (idempotent.only mem mem).2⟩⟩
    cases tables : cfg.tables with
    | nil => exact Nat.zero_le 1
    | cons kv rest =>
        have mem : kv ∈ cfg.tables := tables ▸ List.mem_cons_self
        have none : rest = [] := by
          rw [List.eq_nil_iff_forall_not_mem]
          intro kv' later
          have keyed := cfg.keyed
          rw [tables, Assoc.Keyed, List.map_cons, List.nodup_cons] at keyed
          have same := (idempotent.only mem (tables ▸ List.mem_cons_of_mem _ later)).1
          exact keyed.1 (same ▸ List.mem_map_of_mem later)
        rw [none]
        exact Nat.le_refl 1
  · rintro ⟨few, all⟩ orders
    cases tables : cfg.tables with
    | nil =>
        have empty : ∀ orders : Orders, orders.tables.visit cfg.tables = [] := by
          intro orders
          rw [tables]
          exact List.perm_nil.mp (orders.tables.perm _)
        refine ⟨fun kv mem => ?_, fun orders' => ?_⟩
        · rw [tables] at mem
          cases mem
        · rw [createGameLogTable, empty]
          exact not_altered_stop nofun
    | cons kv rest =>
        have none : rest = [] := by
          rw [tables, List.length_cons] at few
          exact List.eq_nil_of_length_eq_zero (by omega)
        subst none
        have alone : ∀ (orders : Orders) (db : Database), createGameLogTable server cfg orders db =
            createTable server cfg orders kv db := by
          intro orders db
          have visited : orders.tables.visit cfg.tables = [kv] := by
            rw [tables]
            exact List.perm_singleton.mp (orders.tables.perm _)
          rw [createGameLogTable, visited, createTables_cons]
        obtain ⟨bare, takes⟩ := all kv (tables ▸ List.mem_cons_self)
        have made : columnsOf (createGameLogTable server cfg orders fun _ => none).db kv.1 =
            some stamped := by
          rw [alone, createTable_columns]
          exact createColumns_bare rfl bare takes
        refine ⟨fun kv' mem => ?_, fun orders' => ?_⟩
        · rw [tables] at mem
          rw [List.mem_singleton.mp mem]
          obtain ⟨table, present, same⟩ := Option.map_eq_some_iff.mp made
          refine ⟨table, present, ?_⟩
          rw [same, bare]
          exact .rfl
        · rw [alone orders']
          exact createTable_quiet made bare

/-- One table with the column that every table has, and no partitions or indexes. -/
def loginConfig : Config where
  tables := [("login", .single "hostid" ⟨"int(11)", "服务器编号"⟩)]
  keyed := List.nodup_singleton _
  isPartition := fun _ => false
  partitionSql := ""
  indexs := fun _ => none
  dbname := "log"

/-- A server that takes every statement but the queries with `form`. -/
def lenient : Server where
  takes := fun sql => !selectForm.toList.isPrefixOf sql.toList
  noForm := by
    intro dbname table
    rw [selectPartitionSql, String.toList_append, Bool.not_eq_false', List.isPrefixOf_iff_prefix]
    exact List.prefix_append _ _

/-- Even such a server does not save the second run. -/
theorem second_run_refuses_hostid : ¬ Idempotent lenient loginConfig := by
  intro idempotent
  have configured : ("login", .single "hostid" ⟨"int(11)", "服务器编号"⟩) ∈ loginConfig.tables :=
    List.mem_cons_self
  cases idempotent.bare configured

end Qiuqiu.Dbalter.Log
