import Mathlib.Logic.Function.Basic
import Qiuqiu.Database.Cache
import Qiuqiu.Database.Requests

/-!
The save functions of service/databasecell/dbsave.lua. The four copies of the
save body are one definition over what each copy has of its own. What the
repository calls but does not contain is a parameter: the digest
`UTIL.Sumhexa`, and the answers of `DBObj:query_ptr_ex`; the LOG functions
return. `rows` is what the database holds, by the two pieces of statement text
that name a column of a row.
-/
namespace Qiuqiu.Database

def THRESHOLD_DATALEN : Nat := 4 * 1024 * 1024
def E_THRESHOLD_DATALEN : Nat := 16 * 1024 * 1024

def DATABASE_ERRFILE : String := "database_err.log"
def DATABASE_FILE : String := "database.log"

/-- `_SAVE_LISTDB_DATA_FORMAT` with its place holder filled in. -/
def saveListdbData (where_ : String) : String × String :=
  ("update list set list_data='", "' where acct_id=" ++ where_ ++ ";")

def saveRoledbActdata (column where_ : String) : String × String :=
  ("update role_data set " ++ column ++ "='", "' where uid='" ++ where_ ++ "';")

def saveModdbData (where_ : String) : String × String :=
  ("update module set data='", "' where mod_name=" ++ where_ ++ ";")

/-- `escape_map` of skynet.db.mysql. -/
def escapeChar (c : Char) : String :=
  match c.toNat with
  | 0 => "\\0"
  | 8 => "\\b"
  | 10 => "\\n"
  | 13 => "\\r"
  | 9 => "\\t"
  | 26 => "\\Z"
  | 92 => "\\\\"
  | 39 => "\\'"
  | 34 => "\\\""
  | _ => c.toString

def quoteSqlStr (str : String) : String :=
  "'" ++ String.join (str.toList.map escapeChar) ++ "'"

/-- An update sent by `query_ptr_ex`: the text before and after the data. -/
structure Statement where
  target : String × String
  data : Bytes
  quotedsz : Nat
  deriving DecidableEq

/-- What `pcall(DBObj.query_ptr_ex, …)` gives back, and whether the update
took effect. `text` is what `dump(res)` prints. -/
structure Reply where
  isOk : Bool
  badresult : Bool
  affectedRows : Option Int
  effective : Bool
  text : String

inductive LogLine where
  | event (file : String) (parts : List String) (data : Bytes)
  | warn (msg : String)
  | error (msg : String)
  | alarm (msg : String)

structure World (Md5 : Type) where
  cache : Dbcache Md5
  req : Requests
  invalid : Bool
  issued : List Statement
  rows : String × String → Option Bytes
  files : String → Option Bytes
  log : List LogLine

/-- The service as it starts, over a database. -/
def World.start {Md5 : Type} (rows : String × String → Option Bytes) : World Md5 where
  cache := .empty
  req := .init
  invalid := false
  issued := []
  rows := rows
  files := fun _ => none
  log := []

structure Env (Md5 : Type) where
  sumhexa : Bytes → Md5
  reply : Nat → Statement → Reply

inductive Result where
  | returned (value : Option Bool)
  | raised (msg : String)
  deriving DecidableEq

/-- What one copy of the save function has of its own. -/
structure Saver (Md5 : Type) where
  entry : Dbcache Md5 → Option Entry
  missing : String
  isSave : Dbcache Md5 → Bool
  del : Dbcache Md5 → Dbcache Md5
  warnText : Nat → String
  errorText : Nat → String
  omd5 : Dbcache Md5 → Option Md5
  setSave : Dbcache Md5 → Dbcache Md5
  sameTag : String
  target : String × String
  accepts : Reply → Bool
  setSaveDone : Dbcache Md5 → Dbcache Md5
  refresMd5 : Md5 → Dbcache Md5 → Dbcache Md5
  doneTag : String
  key : List String
  failText : Nat → String → String
  failFile : String

section
variable {Md5 : Type}

namespace World
variable (w : World Md5)

def logLine (line : LogLine) : World Md5 := { w with log := w.log ++ [line] }

def mapCache (f : Dbcache Md5 → Dbcache Md5) : World Md5 := { w with cache := f w.cache }

/-- The two size warnings. -/
def warnSize (k : Saver Md5) (sz : Nat) : World Md5 :=
  { w with log := w.log ++
      (if sz > THRESHOLD_DATALEN then [.warn (k.warnText sz)] else []) ++
      (if sz > E_THRESHOLD_DATALEN then [.error (k.errorText sz)] else []) }

def send (env : Env Md5) (st : Statement) : Reply × World Md5 :=
  let r := env.reply w.issued.length st
  (r, { w with
    issued := w.issued ++ [st]
    rows := if r.effective then Function.update w.rows st.target (some st.data) else w.rows })

end World

variable [DecidableEq Md5]

def csSetdata (env : Env Md5) (k : Saver Md5) (isdelCache : Bool) (w : World Md5) :
    Result × World Md5 :=
  match k.entry w.cache with
  | none => (.returned none, w.logLine (.event DATABASE_ERRFILE [k.missing] []))
  | some d =>
      if k.isSave w.cache then
        (.returned none, if isdelCache then w.mapCache k.del else w)
      else
        let w := w.warnSize k d.sz
        let nmd5 := env.sumhexa d.bytes
        let sizes := [toString d.sz, toString d.quotedsz]
        if k.omd5 w.cache = some nmd5 then
          let w := if isdelCache then w.mapCache k.del else w.mapCache k.setSave
          (.returned (some true),
            w.logLine (.event DATABASE_FILE (k.sameTag :: k.key ++ sizes) []))
        else
          let sent := w.send env ⟨k.target, d.bytes, d.quotedsz⟩
          let w := sent.2
          if k.accepts sent.1 then
            let w := if isdelCache then w.mapCache k.del else w.mapCache k.setSaveDone
            let w := w.mapCache (k.refresMd5 nmd5)
            (.returned (some true),
              w.logLine (.event DATABASE_FILE (k.doneTag :: k.key ++ sizes) []))
          else
            let msg := k.failText d.sz sent.1.text
            (.raised msg,
              (w.logLine (.event k.failFile [msg] d.bytes)).logLine (.alarm msg))

end

section
variable {Md5 : Type}

def csListSetdata (urs : Value) : Saver Md5 where
  entry := fun c => c.getCacheUrs urs
  missing := "not urs:" ++ urs.tostring ++ " data but save"
  isSave := fun c => c.isSaveCacheUrs urs
  del := fun c => c.delCacheUrs urs
  warnText := fun sz => "urs:" ++ urs.tostring ++ " data sz:" ++ toString sz ++
    " >= threshold sz:" ++ toString THRESHOLD_DATALEN
  errorText := fun sz => "urs:" ++ urs.tostring ++ " data sz:" ++ toString sz ++
    " >= threshold sz:" ++ toString E_THRESHOLD_DATALEN
  omd5 := fun c => c.getUrsMd5 urs
  setSave := fun c => c.setSaveCacheUrs urs true
  sameTag := "list(same save data)"
  target := saveListdbData (quoteSqlStr urs.tostring)
  accepts := fun r => r.isOk && !r.badresult && r.affectedRows == some 1
  setSaveDone := fun c => c.setSaveCacheUrs urs true
  refresMd5 := fun md5 c => c.refresUrsMd5 urs md5
  doneTag := "list"
  key := [urs.tostring]
  failText := fun _ res => "_cs_list_setdata error, urs:" ++ urs.tostring ++ ", res:" ++ res
  failFile := DATABASE_ERRFILE

/-- The lookup is `GetCacheUid(uid)`: its second argument is nil. -/
def csRoleSetactdata (uid actName : String) : Saver Md5 where
  entry := fun c => c.getCacheUid (.string uid) .nil
  missing := "not uid:" ++ uid ++ " actName:" ++ actName ++ " data but save"
  isSave := fun c => c.isSaveCacheUid (.string uid) (.string actName)
  del := fun c => c.delCacheUid (.string uid) (.string actName)
  warnText := fun sz => "uid:" ++ uid ++ " actName:" ++ actName ++ " data sz:" ++ toString sz ++
    " >= threshold sz:" ++ toString THRESHOLD_DATALEN
  errorText := fun sz => "uid:" ++ uid ++ " actName:" ++ actName ++ " data sz:" ++ toString sz ++
    " >= threshold sz:" ++ toString THRESHOLD_DATALEN
  omd5 := fun c => c.getUidMd5 (.string uid) (.string actName)
  setSave := fun c => c.setSaveCacheUid (.string uid) (.string actName) true
  sameTag := "role_data(same save data)"
  target := saveRoledbActdata actName uid
  accepts := fun r => r.isOk && !r.badresult && r.affectedRows == some 1
  setSaveDone := fun c => c.setSaveCacheUid (.string uid) (.string actName) true
  refresMd5 := fun md5 c => c.refresUidMd5 (.string uid) (.string actName) md5
  doneTag := "role_data"
  key := [uid, actName]
  failText := fun sz res => "_cs_role_setactdata error, uid:" ++ uid ++ ", actName:" ++ actName ++
    " sz:" ++ toString sz ++ " res:" ++ res
  failFile := DATABASE_ERRFILE

/-- The first `_cs_mod_setdata`, which `mod_setdata_ptrq` calls with `isimm`.
Its statement ends in the list template, and it asks for `badresult`. -/
def csModSetdataImm (modname : String) : Saver Md5 where
  entry := fun c => c.getCacheMod (.string modname)
  missing := "not mod:" ++ modname ++ " data but save"
  isSave := fun c => c.isSaveCacheMod (.string modname)
  del := fun c => c.delCacheMod (.string modname)
  warnText := fun sz => "modname:" ++ modname ++ " data sz:" ++ toString sz ++
    " >= threshold sz:" ++ toString THRESHOLD_DATALEN
  errorText := fun sz => "modname:" ++ modname ++ " data sz:" ++ toString sz ++
    " >= e_threshold sz:" ++ toString E_THRESHOLD_DATALEN
  omd5 := fun c => c.getModMd5 (.string modname)
  setSave := fun c => c.setSaveCacheMod (.string modname) true
  sameTag := "module(same save data)"
  target := ((saveModdbData (quoteSqlStr modname)).1, (saveListdbData (quoteSqlStr modname)).2)
  accepts := fun r => r.isOk && r.badresult && r.affectedRows == some 1
  setSaveDone := fun c => c.setSaveCacheMod (.string modname) true
  refresMd5 := fun md5 c => c.refresModMd5 (.string modname) md5
  doneTag := "module"
  key := [modname]
  failText := fun sz res => "_cs_mod_setdata error, mod:" ++ modname ++ ", sz:" ++ toString sz ++
    " res:" ++ res
  failFile := DATABASE_FILE

/-- The second `_cs_mod_setdata`, which hides the first from there on. After
an accepted update it calls `SetSaveCacheUid(modname, true)`. -/
def csModSetdata (modname : String) : Saver Md5 where
  entry := fun c => c.getCacheMod (.string modname)
  missing := "not mod:" ++ modname ++ " data but save"
  isSave := fun c => c.isSaveCacheMod (.string modname)
  del := fun c => c.delCacheMod (.string modname)
  warnText := fun sz => "modname:" ++ modname ++ " data sz:" ++ toString sz ++
    " >= threshold sz:" ++ toString THRESHOLD_DATALEN
  errorText := fun sz => "modname:" ++ modname ++ " data sz:" ++ toString sz ++
    " >= threshold sz:" ++ toString THRESHOLD_DATALEN
  omd5 := fun c => c.getModMd5 (.string modname)
  setSave := fun c => c.setSaveCacheMod (.string modname) true
  sameTag := "modname(same save data)"
  target := saveModdbData (quoteSqlStr modname)
  accepts := fun r => r.isOk && !r.badresult && r.affectedRows == some 1
  setSaveDone := fun c => c.setSaveCacheUid (.string modname) (.boolean true) false
  refresMd5 := fun md5 c => c.refresModMd5 (.string modname) md5
  doneTag := "module"
  key := [modname]
  failText := fun sz res => "_cs_mod_setdata error, mod:" ++ modname ++ ", sz:" ++ toString sz ++
    " res:" ++ res
  failFile := DATABASE_ERRFILE

/-- The frame of a request: refused when `Invalid` is set, else the body runs
between entering its index and clearing it, whether it returns or raises. The
queue of the key runs the body when its turn comes. -/
def bracket {α : Type} (refused : α) (body : World Md5 → α × World Md5) (w : World Md5) :
    α × World Md5 :=
  if w.invalid then (refused, w)
  else
    let entered := w.req.enter
    let done := body { w with req := entered.2 }
    (done.1, { done.2 with req := done.2.req.leave entered.1 })

variable [DecidableEq Md5] (env : Env Md5)

/-- `TryCall` takes whatever the body raises. -/
def tryCall (body : World Md5 → Result × World Md5) (w : World Md5) : Unit × World Md5 :=
  ((), (body w).2)

def realListSetdataPtrq (urs : String) (isdelCache : Bool) (w : World Md5) : World Md5 :=
  (bracket () (tryCall (csSetdata env (csListSetdata (.string urs)) isdelCache)) w).2

def realRoleSetdataPtrq (uid actName : String) (isdelCache : Bool) (w : World Md5) : World Md5 :=
  (bracket () (tryCall (csSetdata env (csRoleSetactdata uid actName) isdelCache)) w).2

def realModSetdataPtrq (modname : String) (isdelCache : Bool) (w : World Md5) : World Md5 :=
  (bracket () (tryCall (csSetdata env (csModSetdata modname) isdelCache)) w).2

def csModCache (modname : String) (dataPtr : Ptr) (sz quotedsz : Nat) (isimm : Bool)
    (w : World Md5) : Result × World Md5 :=
  let w := w.mapCache fun c =>
    (c.delCacheMod (.string modname)).addCacheMod modname dataPtr sz quotedsz
  if isimm then
    let saved := csSetdata env (csModSetdataImm modname) false w
    match saved.1 with
    | .returned _ => (.returned none, saved.2)
    | .raised msg => (.raised msg, saved.2)
  else (.returned none, w)

def modSetdataPtrq (modname : String) (dataPtr : Ptr) (sz quotedsz : Nat) (isimm : Bool)
    (w : World Md5) : World Md5 :=
  (bracket () (tryCall (csModCache env modname dataPtr sz quotedsz isimm)) w).2

/-- How `DBObj:query` ends for a select. -/
inductive SelectReply where
  | raised
  | badresult
  | rows

/-- The data, or nil; nil also when the select raised, since `mod_getdata`
treats the two alike. -/
def csModGetdata (modname : String) (reply : SelectReply) (w : World Md5) :
    Option Bytes × World Md5 :=
  match w.cache.getCacheMod (.string modname) with
  | some d => (some d.bytes, w)
  | none =>
      match reply with
      | .rows => (w.rows (saveModdbData (quoteSqlStr modname)), w)
      | _ => (none, w)

/-- `true, data` is `some data`, and `false` is `none`. -/
def modGetdata (modname : String) (reply : SelectReply) (w : World Md5) :
    Option Bytes × World Md5 :=
  bracket none (csModGetdata modname reply) w

end

/-! One equation for each way through the save body. -/

section
variable {Md5 : Type} [DecidableEq Md5] (env : Env Md5) (k : Saver Md5) (isdelCache : Bool)
  {w : World Md5} {d : Entry}

theorem csSetdata_absent (absent : k.entry w.cache = none) :
    csSetdata env k isdelCache w =
      (.returned none, w.logLine (.event DATABASE_ERRFILE [k.missing] [])) := by
  simp only [csSetdata, absent]

theorem csSetdata_saved (entry : k.entry w.cache = some d) (saved : k.isSave w.cache = true) :
    csSetdata env k isdelCache w =
      (.returned none, if isdelCache then w.mapCache k.del else w) := by
  simp only [csSetdata, entry, saved, if_true]

/-- The entry is taken to be saved because its digest is the remembered one. -/
theorem csSetdata_same (entry : k.entry w.cache = some d) (unsaved : k.isSave w.cache = false)
    (same : k.omd5 w.cache = some (env.sumhexa d.bytes)) :
    ∃ log, csSetdata env k isdelCache w = (.returned (some true),
      { w with cache := if isdelCache then k.del w.cache else k.setSave w.cache, log := log }) := by
  have same' : k.omd5 (w.warnSize k d.sz).cache = some (env.sumhexa d.bytes) := same
  simp only [csSetdata, entry, unsaved, if_pos same', Bool.false_eq_true, if_false]
  cases isdelCache with
  | true => exact ⟨_, rfl⟩
  | false => exact ⟨_, rfl⟩

/-- The update the save sends. -/
def Saver.statement (k : Saver Md5) (d : Entry) : Statement := ⟨k.target, d.bytes, d.quotedsz⟩

theorem csSetdata_accepted (entry : k.entry w.cache = some d)
    (unsaved : k.isSave w.cache = false)
    (differs : k.omd5 w.cache ≠ some (env.sumhexa d.bytes))
    (accepted : k.accepts (env.reply w.issued.length (k.statement d)) = true) :
    ∃ log, csSetdata env k isdelCache w = (.returned (some true),
      { (w.send env (k.statement d)).2 with
        cache := k.refresMd5 (env.sumhexa d.bytes)
          (if isdelCache then k.del w.cache else k.setSaveDone w.cache)
        log := log }) := by
  have differs' : ¬ k.omd5 (w.warnSize k d.sz).cache = some (env.sumhexa d.bytes) := differs
  have accepted' : k.accepts ((w.warnSize k d.sz).send env (k.statement d)).1 = true := accepted
  simp only [csSetdata, entry, unsaved, if_neg differs', Bool.false_eq_true, if_false]
  rw [Saver.statement] at accepted'
  simp only [accepted', if_true]
  cases isdelCache with
  | true => exact ⟨_, rfl⟩
  | false => exact ⟨_, rfl⟩

theorem csSetdata_rejected (entry : k.entry w.cache = some d)
    (unsaved : k.isSave w.cache = false)
    (differs : k.omd5 w.cache ≠ some (env.sumhexa d.bytes))
    (rejected : k.accepts (env.reply w.issued.length (k.statement d)) = false) :
    ∃ msg log, csSetdata env k isdelCache w = (.raised msg,
      { (w.send env (k.statement d)).2 with log := log }) := by
  have differs' : ¬ k.omd5 (w.warnSize k d.sz).cache = some (env.sumhexa d.bytes) := differs
  have rejected' : k.accepts ((w.warnSize k d.sz).send env (k.statement d)).1 = false := rejected
  simp only [csSetdata, entry, unsaved, if_neg differs', Bool.false_eq_true, if_false]
  rw [Saver.statement] at rejected'
  simp only [rejected', Bool.false_eq_true, if_false]
  exact ⟨_, _, rfl⟩

/-- A save leaves the request table, the flag and the files alone. -/
theorem csSetdata_frame (w : World Md5) :
    (csSetdata env k isdelCache w).2.req = w.req ∧
      (csSetdata env k isdelCache w).2.invalid = w.invalid ∧
      (csSetdata env k isdelCache w).2.files = w.files := by
  cases entry : k.entry w.cache with
  | none =>
      rw [csSetdata_absent env k isdelCache entry]
      exact ⟨rfl, rfl, rfl⟩
  | some d =>
      cases saved : k.isSave w.cache with
      | true =>
          rw [csSetdata_saved env k isdelCache entry saved]
          cases isdelCache with
          | true => exact ⟨rfl, rfl, rfl⟩
          | false => exact ⟨rfl, rfl, rfl⟩
      | false =>
          by_cases same : k.omd5 w.cache = some (env.sumhexa d.bytes)
          · obtain ⟨log, eq⟩ := csSetdata_same env k isdelCache entry saved same
            rw [eq]
            exact ⟨rfl, rfl, rfl⟩
          · cases accepted : k.accepts (env.reply w.issued.length (k.statement d)) with
            | true =>
                obtain ⟨log, eq⟩ := csSetdata_accepted env k isdelCache entry saved same accepted
                rw [eq]
                exact ⟨rfl, rfl, rfl⟩
            | false =>
                obtain ⟨msg, log, eq⟩ :=
                  csSetdata_rejected env k isdelCache entry saved same accepted
                rw [eq]
                exact ⟨rfl, rfl, rfl⟩

omit [DecidableEq Md5] in
theorem bracket_valid {α : Type} {refused : α} {body : World Md5 → α × World Md5}
    (valid : w.invalid = false) :
    bracket refused body w =
      ((body { w with req := w.req.enter.2 }).1,
        { (body { w with req := w.req.enter.2 }).2 with
          req := (body { w with req := w.req.enter.2 }).2.req.leave w.req.enter.1 }) := by
  simp only [bracket, valid, Bool.false_eq_true, if_false]

end

end Qiuqiu.Database
