import Qiuqiu.Database.Save

/-!
The final flush of service/databasecell/dbsave.lua: `CloseAllCache` with the
fallback files it writes when a save fails, and the end of `closedb`. A
function of another module is called by its name in that module's table, as
the code does it: calling a name that is not there raises.
-/
namespace Qiuqiu.Database
variable {Md5 : Type}

/-- A computation on the world that returns or raises; what it did before it
raised stays done. -/
abbrev Lua (Md5 α : Type) := ExceptT String (StateM (World Md5)) α

theorem lua_bind_ok {α β : Type} {x : Lua Md5 α} {f : α → Lua Md5 β} {w w' : World Md5} {a : α}
    (h : x w = (.ok a, w')) : (x >>= f) w = f a w' := by
  change ExceptT.bindCont f (x w).1 (x w).2 = f a w'
  rw [h]
  rfl

theorem lua_bind_error {α β : Type} {x : Lua Md5 α} {f : α → Lua Md5 β} {w w' : World Md5}
    {msg : String} (h : x w = (.error msg, w')) : (x >>= f) w = (.error msg, w') := by
  change ExceptT.bindCont f (x w).1 (x w).2 = (.error msg, w')
  rw [h]
  rfl

/-- What the configuration and the process determine. -/
structure Host where
  baseDir : String
  databaseCachecnt : Nat
  /-- How `%s` prints the function `string.sub`. -/
  stringSub : String

/-- The ids of the records whose deletion is delayed. -/
structure Records where
  fIdListF : List String
  fIdListS : List String
  rIdListF : List String
  rIdListS : List String

/-- `string.sub(s, i, j)` on a key of single byte characters. -/
def sub (s : String) (i j : Nat) : String := String.ofList ((s.toList.take j).drop (i - 1))

def isUnUrs (urs : String) : Bool := urs.toList.any fun c => c.toNat > 127

section Paths
variable (host : Host)

def getRecordSavePath (fId : String) : String :=
  host.baseDir ++ "record/" ++ sub fId 1 2 ++ "/" ++ sub fId 3 11 ++ "/" ++ fId ++ ".dat"

def getListSavePath (urs : String) : String :=
  if isUnUrs urs then
    let l := toString urs.utf8ByteSize
    host.baseDir ++ "list/un/" ++ l ++ "/" ++ l ++ "/" ++ urs ++ ".dat"
  else
    host.baseDir ++ "list/" ++ sub urs 1 1 ++ "/" ++ sub urs 2 2 ++ "/" ++ sub urs 3 3 ++ "/" ++
      urs ++ ".dat"

/-- The fourth place holder gets `string.sub` itself, the uid is left over. -/
def getRoleSavePath (uid : String) : String :=
  host.baseDir ++ "role/" ++ sub uid 1 5 ++ "/" ++ sub uid 6 7 ++ "/" ++ host.stringSub ++ ".dat"

def getRoleActSavePath (uid actName : String) : String :=
  host.baseDir ++ "roleact/" ++ sub uid 1 5 ++ "/" ++ sub uid 6 7 ++ "/" ++ uid ++ "/" ++
    actName ++ ".dat"

def getModuleSavePath (modname : String) : String := host.baseDir ++ "dat/" ++ modname ++ ".dat"

end Paths

/-- The functions of dbcache.lua that list the cached keys, by name. -/
def dbcacheField (host : Host) (name : String) : Option (Dbcache Md5 → List String) :=
  if name = "GetAllCacheUrs" then some fun c => (c.getAllCacheUrs host.databaseCachecnt).1
  else if name = "GetAllCacheUid" then some fun c => (c.getAllCacheUid host.databaseCachecnt).1
  else if name = "GetAllCacheMod" then some fun c => c.getAllCacheMod.1
  else none

def callDbcache (host : Host) (name : String) : Lua Md5 (List String) := do
  match dbcacheField host name with
  | some f => return f (← get).cache
  | none => throw ("attempt to call a nil value (field '" ++ name ++ "')")

/-- `touch` and the writing of `SaveToFile`, where creating and writing files
succeed. Writing nil raises once the files are there. -/
def saveToFile (fileName : String) (data : Option Bytes) : Lua Md5 Unit := do
  let tmpFile := fileName ++ ".tmp"
  modify fun w => { w with
    files := Function.update (Function.update w.files fileName
      (some ((w.files fileName).getD []))) tmpFile (some []) }
  match data with
  | some bytes =>
      modify fun w => { w with
        files := Function.update (Function.update w.files tmpFile none) fileName (some bytes) }
  | none => throw "bad argument #1 to 'write' (string expected, got nil)"

def tryLua (body : Lua Md5 Unit) : Lua Md5 Unit := fun w => (.ok (), (body w).2)

def logAlarm (msg : String) : Lua Md5 Unit := modify fun w => w.logLine (.alarm msg)

variable [DecidableEq Md5] (env : Env Md5) (host : Host)

/-- `xpcall(cs, traceback, …)` around a save: its error message, if it raised. -/
def xpcallSave (k : Saver Md5) (isdelCache : Bool) : Lua Md5 (Option String) := fun w =>
  match csSetdata env k isdelCache w with
  | (.returned _, w) => (.ok none, w)
  | (.raised msg, w) => (.ok (some msg), w)

/-- The save is called without the urs, and the file is written from a
variable that is never set. -/
def closeUrs (urs : String) : Lua Md5 Unit := do
  match ← xpcallSave env (csListSetdata .nil) false with
  | none => return
  | some emsg =>
      let fileName := ((← get).cache.getCacheUrs (.string urs)).map fun _ =>
        getListSavePath host urs
      match fileName with
      | some fileName => tryLua (saveToFile fileName none)
      | none => pure ()
      logAlarm ("shuntdown save urs:" ++ urs ++ " emsg:" ++ emsg ++ " filePath:" ++
        fileName.getD "")

/-- The entry is looked up again in a statement of its own, so the variables
the file would be written from stay nil. -/
def closeUidAct (uid actName : String) : Lua Md5 Unit := do
  match ← xpcallSave env (csRoleSetactdata uid actName) true with
  | none => return
  | some emsg =>
      logAlarm ("shuntdown save uid:" ++ uid ++ " actName:" ++ actName ++ " emsg:" ++ emsg ++
        " filePath")

def closeUid (uid : String) : Lua Md5 Unit := do
  match (← get).cache.getCacheUidActList (.string uid) with
  | none => return
  | some alist =>
      for actName in alist do
        closeUidAct env uid actName

def closeMod (modname : String) : Lua Md5 Unit := do
  match ← xpcallSave env (csModSetdata modname) true with
  | none => return
  | some emsg =>
      match (← get).cache.getCacheMod (.string modname) with
      | some d => tryLua (saveToFile (getModuleSavePath host modname) (some d.bytes))
      | none => pure ()
      logAlarm ("shuntdown save mod:" ++ modname ++ " emsg:" ++ emsg ++ " filePath")

/-- `os.remove` of one record; an error is logged under the name `id`. -/
def removeRecord (id : String) (recordId : String) : Lua Md5 Unit := do
  let fileName := getRecordSavePath host recordId
  match (← get).files fileName with
  | some _ => modify fun w => { w with files := Function.update w.files fileName none }
  | none => modify fun w => w.logLine (.error ("CloseAllCache delete record error, " ++ id ++ ":" ++
      recordId ++ " err:" ++ fileName ++ ": No such file or directory"))

def closeAllCache (records : Records) : Lua Md5 Unit := do
  let tmpUrs ← callDbcache host "GetAllCacheUrs"
  let tmpUid ← callDbcache host "GetAllCaCheUid"
  let tmpMod ← callDbcache host "GetAllCaCheMod"
  for urs in tmpUrs do
    closeUrs env host urs
  for uid in tmpUid do
    closeUid env uid
  for modname in tmpMod do
    closeMod env host modname
  for fId in records.fIdListF ++ records.fIdListS do
    removeRecord host "fId" fId
  for rId in records.rIdListF ++ records.rIdListS do
    removeRecord host "rId" rId

/-- `closedb` from `CloseAllCache` on. -/
def closedbEnd (records : Records) : Lua Md5 Bool := do
  closeAllCache env host records
  return true

/-- `closedb` returned true, and the data of every entry not yet saved is in
its row or in its fallback file. -/
structure NothingLost (w : World Md5) (out : Except String Bool × World Md5) : Prop where
  returns : out.1 = .ok true
  urs : ∀ urs d, w.cache.getCacheUrs (.string urs) = some d → d.hsave = false →
    out.2.rows (saveListdbData (quoteSqlStr urs)) = some d.bytes ∨
      out.2.files (getListSavePath host urs) = some d.bytes
  uid : ∀ uid actName d, w.cache.getCacheUid (.string uid) (.string actName) = some d →
    d.hsave = false →
    out.2.rows (saveRoledbActdata actName uid) = some d.bytes ∨
      out.2.files (if actName = "data" then getRoleSavePath host uid
        else getRoleActSavePath host uid actName) = some d.bytes
  mod : ∀ modname d, w.cache.getCacheMod (.string modname) = some d → d.hsave = false →
    out.2.rows (saveModdbData (quoteSqlStr modname)) = some d.bytes ∨
      out.2.files (getModuleSavePath host modname) = some d.bytes

omit [DecidableEq Md5] in
theorem callDbcache_eq (name : String) (w : World Md5) :
    (callDbcache host name : Lua Md5 (List String)) w =
      match dbcacheField host name with
      | some f => (.ok (f w.cache), w)
      | none => (.error ("attempt to call a nil value (field '" ++ name ++ "')"), w) := by
  cases field : (dbcacheField host name : Option (Dbcache Md5 → List String)) with
  | some f =>
      simp only [callDbcache, field]
      rfl
  | none =>
      simp only [callDbcache, field]
      rfl

theorem xpcallSave_absent {k : Saver Md5} {w : World Md5} (absent : k.entry w.cache = none)
    (isdelCache : Bool) :
    xpcallSave env k isdelCache w =
      (.ok none, w.logLine (.event DATABASE_ERRFILE [k.missing] [])) := by
  simp only [xpcallSave, csSetdata_absent env k isdelCache absent]

/-- Called without its urs, the save finds nothing and reports no error, so the
fallback file is not written either. -/
theorem closeUrs_saves_nothing (urs : String) (w : World Md5) :
    closeUrs env host urs w =
      (.ok (), w.logLine (.event DATABASE_ERRFILE ["not urs:nil data but save"] [])) := by
  have absent : (csListSetdata .nil : Saver Md5).entry w.cache = none := rfl
  exact lua_bind_ok (xpcallSave_absent env absent false)

theorem closeUidAct_saves_nothing (uid actName : String) (w : World Md5) :
    closeUidAct env uid actName w = (.ok (), w.logLine (.event DATABASE_ERRFILE
      ["not uid:" ++ uid ++ " actName:" ++ actName ++ " data but save"] [])) := by
  have absent : (csRoleSetactdata uid actName : Saver Md5).entry w.cache = none :=
    w.cache.getCacheUid_nil (.string uid)
  exact lua_bind_ok (xpcallSave_absent env absent true)

/-- dbcache.lua has no function of that spelling. -/
theorem closeAllCache_raises (records : Records) (w : World Md5) :
    closeAllCache env host records w =
      (.error "attempt to call a nil value (field 'GetAllCaCheUid')", w) := by
  refine (lua_bind_ok (callDbcache_eq host "GetAllCacheUrs" w)).trans ?_
  exact lua_bind_error (callDbcache_eq host "GetAllCaCheUid" w)

/-- Whatever is cached and whatever the database answers, `closedb` raises. -/
theorem closedb_never_keeps (records : Records) (w : World Md5) :
    ¬ NothingLost host w (closedbEnd env host records w) := by
  intro kept
  have returns := kept.returns
  rw [closedbEnd, lua_bind_error (closeAllCache_raises env host records w)] at returns
  cases returns

/-- The module that is cached when `closedb` raises is in no row and no file. -/
theorem closedb_loses_module :
    ¬ NothingLost ⟨"../data/unknow/", 100, "function"⟩
      ((World.start fun _ => none : World Bytes).mapCache fun c =>
        c.addCacheMod "m" ⟨0, [7]⟩ 1 1)
      (closedbEnd ⟨id, fun _ _ => ⟨true, false, some 1, true, ""⟩⟩
        ⟨"../data/unknow/", 100, "function"⟩ ⟨[], [], [], []⟩
        ((World.start fun _ => none : World Bytes).mapCache fun c =>
          c.addCacheMod "m" ⟨0, [7]⟩ 1 1)) := by
  intro kept
  have returns := kept.returns
  rw [closedbEnd, lua_bind_error (closeAllCache_raises _ _ _ _)] at returns
  cases returns

end Qiuqiu.Database
