import Mathlib.Data.List.Basic
import Mathlib.Logic.Function.Basic
import Qiuqiu.Base.Assoc
import Qiuqiu.Base.Machine

/-!
The saving of modules (lualib/module_db.lua). A module is registered with the
names of its variables once its data is restored from the database, which takes
a yield. `SaveAll` notes all registered modules in `ModuleCache`, the frame timer
saves some of them a second, and what is left is flushed before the next time.
What the program itself does to a module is an assignment to its fields.
-/
namespace Qiuqiu.ModuleDb
variable {M Val : Type} [DecidableEq M]

def saveTime : Nat := 8 * 60

/-- An argument of `RegisterByEnv` that is not nil. -/
inductive Arg where
  | string (name : String)
  | other

/-- What comes of the call for the data of a module. -/
inductive Restore (Val : Type) where
  /-- The call raised, or gave no result, or no data. -/
  | failed
  /-- The text does not load, raises, or gives neither a table nor nil or false. -/
  | unloadable
  /-- The text gives nil or false. -/
  | nothing
  | table (data : List (String × Val))

/-- The values that `ipairs` visits. -/
def ipairs {α : Type} : List (Option α) → List α
  | some x :: rest => x :: ipairs rest
  | _ => []

structure State (M Val : Type) where
  /-- The fields of the modules. -/
  fields : M → String → Option Val
  saveRegTbl : List (M × List (Option String))
  moduleCache : List M
  saveNormalcnt : Nat
  isShutdown : Bool
  /-- The calls of `RegisterByEnv` that wait for the data of their module, by their numbers. -/
  restoring : List (Nat × M × List (Option Arg))
  /-- How many calls have waited. -/
  calls : Nat

/-- Who calls `SaveOneModule`. -/
inductive Via where
  | frame
  | direct
  | shutdown
  deriving DecidableEq

/-- A call of `Send_ModSave`. -/
structure Attempt (M Val : Type) where
  via : Via
  mod : M
  saveName : Option Val
  tmp : String → Option Val
  isTmm : Bool
  raised : Bool

inductive Action (M Val : Type) where
  | restoring (m : M)
  | raised (m : M)
  | registered (m : M) (varList : List (Option String))
  | attempt (a : Attempt M Val)
  /-- `SaveAllModule` has noted these modules. -/
  | snapshot (modules : List M)

section Code
variable (s : State M Val)

/-- The names of `arg`; none when `assert(type(v) == "string")` fails. -/
def varListOf : List (Option Arg) → Option (List (Option String))
  | [] => some []
  | none :: rest => (varListOf rest).map (none :: ·)
  | some (.string name) :: rest => (varListOf rest).map (some name :: ·)
  | some .other :: _ => none

/-- `RegisterByEnv` after the restore. -/
def finishRegister (m : M) (arg : List (Option Arg)) : State M Val × List (Action M Val) :=
  match varListOf arg with
  | none => (s, [.raised m])
  | some varList =>
      ({ s with saveRegTbl := Assoc.put s.saveRegTbl m varList }, [.registered m varList])

/-- `RegisterByEnv` up to the call for the data; a module that is registered has its
data. -/
def registerByEnv (m : M) (arg : List (Option Arg)) : State M Val × List (Action M Val) :=
  match s.saveRegTbl.lookup m with
  | none =>
      ({ s with restoring := (s.calls, m, arg) :: s.restoring, calls := s.calls + 1 },
        [.restoring m])
  | some _ =>
      match varListOf arg with
      | none => (s, [])
      | some _ => finishRegister s m arg

/-- `for k, v in pairs(tblData) do module[k] = v end`. -/
def assignAll (fields : String → Option Val) (data : List (String × Val)) : String → Option Val :=
  data.foldl (fun fields x => Function.update fields x.1 (some x.2)) fields

/-- `RegisterByEnv` from the answer on. Another call may have registered the module meanwhile. -/
def restored (call : Nat) (m : M) (arg : List (Option Arg)) (answer : Restore Val) :
    State M Val × List (Action M Val) :=
  let s := { s with restoring := Assoc.remove s.restoring call }
  match answer with
  | .failed => (s, [.raised m])
  | .unloadable => (s, [.raised m])
  | .nothing => finishRegister s m arg
  | .table data =>
      let s := { s with fields := Function.update s.fields m (assignAll (s.fields m) data) }
      finishRegister s m arg

/-- The table that `_DoModuleRegTblSave` fills. -/
def tmpOf (fields : String → Option Val) (varList : List (Option String)) : String → Option Val :=
  (ipairs varList).foldl (fun tmp var => Function.update tmp var (fields var)) fun _ => none

/-- `_DoModuleRegTblSave`. Whether it raises is up to `raises`. -/
def doModuleRegTblSave (raises : M → Bool) (via : Via) (isTmm : Bool) (m : M)
    (varList : List (Option String)) : Attempt M Val where
  via := via
  mod := m
  saveName := s.fields m "__SAVE_NAME"
  tmp := tmpOf (s.fields m) varList
  isTmm := isTmm
  raised := raises m

def attempts (raises : M → Bool) (via : Via) (isTmm : Bool) (m : M) : List (Action M Val) :=
  match s.saveRegTbl.lookup m with
  | none => []
  | some varList => [.attempt (doModuleRegTblSave s raises via isTmm m varList)]

/-- `SaveOneModule`; what the save raises is caught. -/
def saveOneModule (raises : M → Bool) (via : Via) (isTmm : Bool) (m : M) :
    State M Val × List (Action M Val) :=
  ({ s with moduleCache := s.moduleCache.filter (· ≠ m) }, attempts s raises via isTmm m)

def saveEach (raises : M → Bool) (via : Via) (s : State M Val) :
    List M → State M Val × List (Action M Val)
  | [] => (s, [])
  | m :: rest =>
      let one := saveOneModule s raises via false m
      let more := saveEach raises via one.1 rest
      (more.1, one.2 ++ more.2)

def saveModuleOnFrame (raises : M → Bool) (order : Assoc.PairsOrder M) (isFull : Bool) :
    State M Val × List (Action M Val) :=
  if s.isShutdown then (s, [])
  else
    let keys := order.visit s.moduleCache
    saveEach raises .frame s (if isFull then keys else keys.take s.saveNormalcnt)

def saveAllModule : State M Val × List (Action M Val) :=
  let keys := s.saveRegTbl.map Prod.fst
  ({ s with
      moduleCache := keys ++ s.moduleCache.filter (· ∉ keys)
      saveNormalcnt := (keys.length + (saveTime - 1)) / saveTime },
    [.snapshot keys])

def saveAll (raises : M → Bool) (order : Assoc.PairsOrder M) : State M Val × List (Action M Val) :=
  let flushed := saveModuleOnFrame s raises order true
  let noted := saveAllModule flushed.1
  (noted.1, flushed.2 ++ noted.2)

def shutdownSaveModule (raises : M → Bool) (order : Assoc.PairsOrder M) :
    State M Val × List (Action M Val) :=
  let noted := saveAllModule { s with isShutdown := true }
  let saved := saveEach raises .shutdown noted.1 (order.visit noted.1.moduleCache)
  (saved.1, noted.2 ++ saved.2)

end Code

inductive Event (M Val : Type) where
  | assign (m : M) (key : String) (value : Option Val)
  | registerByEnv (m : M) (arg : List (Option Arg))
  | restored (call : Nat) (answer : Restore Val)
  /-- The keys of `SaveRegTbl` are weak. -/
  | collect (m : M)
  | saveModuleOnFrame (order : Assoc.PairsOrder M) (raises : M → Bool)
  | saveOneModule (m : M) (isTmm : Bool) (raises : M → Bool)
  | saveAll (order : Assoc.PairsOrder M) (raises : M → Bool)
  | shutdownSaveModule (order : Assoc.PairsOrder M) (raises : M → Bool)

/-- A module is not collected while `ModuleCache` or a call that waits refers to it. -/
def step (s : State M Val) : Event M Val → Option (State M Val × List (Action M Val))
  | .assign m key value =>
      let fields := Function.update (s.fields m) key value
      some ({ s with fields := Function.update s.fields m fields }, [])
  | .registerByEnv m arg => some (registerByEnv s m arg)
  | .restored call answer =>
      match s.restoring.lookup call with
      | none => none
      | some (m, arg) => some (restored s call m arg answer)
  | .collect m =>
      if m ∈ s.moduleCache ∨ m ∈ s.restoring.map (·.2.1) then none
      else some ({ s with saveRegTbl := Assoc.remove s.saveRegTbl m }, [])
  | .saveModuleOnFrame order raises => some (saveModuleOnFrame s raises order false)
  | .saveOneModule m isTmm raises => some (saveOneModule s raises .direct isTmm m)
  | .saveAll order raises => some (saveAll s raises order)
  | .shutdownSaveModule order raises => some (shutdownSaveModule s raises order)

def machine (fields : M → String → Option Val) :
    Machine (State M Val) (Event M Val) (List (Action M Val)) where
  init := ⟨fields, [], [], 5, false, [], 0⟩
  step := step

end Qiuqiu.ModuleDb
