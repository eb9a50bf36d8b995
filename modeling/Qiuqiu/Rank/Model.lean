import Mathlib.Order.Compare
import Mathlib.Order.Lattice
import Qiuqiu.Base.Assoc
import Qiuqiu.Skiplist.Ranks

/-!
The leaderboard of lualib/clscmprank.lua. Its entries stand in a table by their
unique, and in a skip list in the order of the rank keys, the time of birth and
the unique. The values of a record are of a linear order `V`; nil and false are
absent. `none` as the result of an operation is a Lua error of another kind than
the three that `Insert` raises on purpose.
-/
namespace Qiuqiu.Rank
variable {V : Type}

def firstkeyBirth : String := "fkey_birth"

abbrev Data (V : Type) := String → Option V

/-- The second argument of `UTIL.HashNo`. -/
inductive HashMod where
  | cnt (n : Int)
  | name (saveName : String)

/-- The arguments of `clsCmpRank:__init__`. `rankCmp` gives -1, nil and 1 as the
three orderings. `hashNo` is `UTIL.HashNo`. -/
structure Config (V : Type) where
  uniqueKey : String
  rankKeyList : List String
  rankCmp : Data V → Data V → Ordering
  maxNum : Int
  hashNo : V → HashMod → Int

/-- `self._rankKeyList`. -/
def Config.keys (cfg : Config V) : List String :=
  cfg.rankKeyList ++ [firstkeyBirth, cfg.uniqueKey]

/-- A record that has all rank keys. -/
def Entry (cfg : Config V) : Type :=
  { d : Data V // ∀ key ∈ cfg.keys, (d key).isSome = true }

def Entry.field {cfg : Config V} (e : Entry cfg) (key : { k // k ∈ cfg.keys }) : V :=
  (e.val key.val).get (e.property key.val key.property)

theorem Config.uniqueKey_mem (cfg : Config V) : cfg.uniqueKey ∈ cfg.keys := by
  simp [Config.keys]

def Entry.unique {cfg : Config V} (e : Entry cfg) : V :=
  e.field ⟨cfg.uniqueKey, cfg.uniqueKey_mem⟩

section Order
variable [LinearOrder V] {cfg : Config V}

/-- One round of `_CompDataFunc`; `.eq` goes on to the next key. -/
def compKey (key : { k // k ∈ cfg.keys }) (elem1 elem2 : Entry cfg) : Ordering :=
  if key.val = firstkeyBirth ∨ key.val = cfg.uniqueKey then
    if elem1.field key > elem2.field key then .gt
    else if elem1.field key < elem2.field key then .lt
    else .eq
  else cfg.rankCmp elem1.val elem2.val

def compKeys (elem1 elem2 : Entry cfg) : List { k // k ∈ cfg.keys } → Ordering
  | [] => .eq
  | key :: keys => (compKey key elem1 elem2).then (compKeys elem1 elem2 keys)

def compDataFunc (elem1 elem2 : Entry cfg) : Int :=
  match compKeys elem1 elem2 cfg.keys.attach with
  | .lt => -1
  | .eq => 0
  | .gt => 1

def sameDataFunc (elem1 elem2 : Entry cfg) : Bool :=
  elem1.val cfg.uniqueKey = elem2.val cfg.uniqueKey

end Order

abbrev Table (cfg : Config V) := List (V × Entry cfg)

/-- A bucket of a board that is saved: `__SAVE_NAME` and `_SaveData`. -/
structure Bucket (cfg : Config V) where
  saveName : String
  saveData : Table cfg

/-- `_saveData`: the entries, or the buckets once `__SAVE_NAME` is set. -/
inductive SaveData (cfg : Config V) where
  | entries (t : Table cfg)
  | buckets (saveName : String) (t : List (Int × Bucket cfg))

structure Board (cfg : Config V) where
  slData : Skiplist.SlData (Entry cfg)
  saveData : SaveData cfg
  kickData : List V

def init (cfg : Config V) : Board cfg :=
  ⟨Skiplist.create, .entries [], []⟩

inductive Error (V : Type) where
  /-- not include uniqueKey -/
  | notIncludeUniqueKey
  /-- double insert unique: -/
  | doubleInsert (unique : V)
  /-- rank key:%s must has value -/
  | mustHasValue (key : String)

inductive Answer (cfg : Config V) where
  | nothing
  | error (err : Error V)
  | rank (rank : Int) (delData : Option (Entry cfg))
  | deleted (retData : Entry cfg)
  /-- `complains` when `ClearRank` finds a length other than 0. -/
  | cleared (complains : Bool)

section Operations
variable [LinearOrder V] {cfg : Config V}

/-- `_GetSaveData`. -/
def getSaveData (r : Board cfg) (unique : V) : Option (Entry cfg) :=
  match r.saveData with
  | .entries t => t.lookup unique
  | .buckets saveName t =>
      (t.lookup (cfg.hashNo unique (.name saveName))).bind fun b => b.saveData.lookup unique

/-- Write to the table that holds the unique, an error when there is no such bucket. -/
def onSaveData (r : Board cfg) (unique : V) (f : Table cfg → Table cfg) : Option (Board cfg) :=
  match r.saveData with
  | .entries t => some { r with saveData := .entries (f t) }
  | .buckets saveName t =>
      let hNo := cfg.hashNo unique (.name saveName)
      match t.lookup hNo with
      | none => none
      | some b => some { r with
          saveData := .buckets saveName
            (Assoc.put t hNo { b with saveData := f b.saveData }) }

/-- `_SetSaveData`. -/
def setSaveData (r : Board cfg) (unique : V) (nData : Entry cfg) : Option (Board cfg) :=
  onSaveData r unique fun t => Assoc.put t unique nData

/-- `_ClearSaveData`. -/
def clearSaveData (r : Board cfg) (unique : V) : Option (Board cfg) :=
  onSaveData r unique fun t => Assoc.remove t unique

/-- The uniques of all entries. -/
def uniques (r : Board cfg) : List V :=
  match r.saveData with
  | .entries t => t.map Prod.fst
  | .buckets _ t => t.flatMap fun x => x.2.saveData.map Prod.fst

/-- `_KickRole`. -/
def kickRole (r : Board cfg) (unique : V) : Bool := unique ∈ r.kickData

def delete (r : Board cfg) (unique : V) : Option (Board cfg × Option (Entry cfg)) :=
  match getSaveData r unique with
  | none => some (r, none)
  | some nData => do
      let (slData, retData) ← Skiplist.delete compDataFunc sameDataFunc r.slData nData
      let r := { r with slData := slData }
      match retData with
      | none => some (r, none)
      | some retData => do
          let r ← clearSaveData r unique
          some (r, some retData)

/-- `GetMinRank`: an error when `GetElementList` gives nil, a table without
fields when the list is empty. -/
def getMinRank (r : Board cfg) : Option (Data V) := do
  match ← Skiplist.getElementList r.slData r.slData.length 1 with
  | none => none
  | some [] => some fun _ => none
  | some (e :: _) => some e.val

/-- `nData` in `Insert`: a copy with the time of birth. -/
def withBirth (data : Data V) (now : V) : Data V :=
  if (data firstkeyBirth).isSome then data
  else Function.update data firstkeyBirth (some now)

/-- The first of the rank keys that a record does not have. -/
def missingKey (cfg : Config V) (nData : Data V) : String :=
  (cfg.keys.find? fun key => (nData key).isNone).getD ""

/-- The end of `Insert`. -/
def add (r : Board cfg) (unique : V) (nData : Entry cfg) (level : Skiplist.Level)
    (delData : Option (Entry cfg)) : Option (Board cfg × Answer cfg) := do
  let (slData, _, rank) ← Skiplist.insert compDataFunc r.slData nData level
  let r ← setSaveData { r with slData := slData } unique nData
  some (r, .rank rank delData)

/-- `Insert`; `now` is the clock and `level` the random level of the new node. -/
def insert (r : Board cfg) (data : Data V) (now : V) (level : Skiplist.Level) :
    Option (Board cfg × Answer cfg) :=
  match data cfg.uniqueKey with
  | none => some (r, .error .notIncludeUniqueKey)
  | some unique =>
      if kickRole r unique then some (r, .nothing)
      else if (getSaveData r unique).isSome then some (r, .error (.doubleInsert unique))
      else
        if all : ∀ key ∈ cfg.keys, (withBirth data now key).isSome = true then
          let nData : Entry cfg := ⟨withBirth data now, all⟩
          if r.slData.length ≥ cfg.maxNum then do
            let rData ← getMinRank r
            if cfg.rankCmp data rData = .lt then
              match rData cfg.uniqueKey with
              | none => add r unique nData level none
              | some last => do
                  let (r, delData) ← delete r last
                  add r unique nData level delData
            else some (r, .nothing)
          else add r unique nData level none
        else some (r, .error (.mustHasValue (missingKey cfg (withBirth data now))))

/-- `KickUnique`. -/
def kickUnique (r : Board cfg) (unique : V) : Option (Board cfg) := do
  let (r, _) ← delete r unique
  if kickRole r unique then some r
  else some { r with kickData := unique :: r.kickData }

def deleteAll (r : Board cfg) : List V → Option (Board cfg)
  | [] => some r
  | unique :: rest => do
      let (r, _) ← delete r unique
      deleteAll r rest

/-- `ClearRank`. -/
def clearRank (r : Board cfg) (order : Assoc.PairsOrder V) : Option (Board cfg × Answer cfg) := do
  let r ← deleteAll r (order.visit (uniques r))
  some (r, .cleared (r.slData.length ≠ 0))

inductive Op (V : Type) where
  | insert (data : Data V) (now : V) (level : Skiplist.Level)
  | delete (unique : V)
  | kickUnique (unique : V)
  | clearRank (order : Assoc.PairsOrder V)

def step (r : Board cfg) : Op V → Option (Board cfg × Answer cfg)
  | .insert data now level => insert r data now level
  | .delete unique => (delete r unique).map fun (r, retData) =>
      (r, match retData with
        | none => .nothing
        | some retData => .deleted retData)
  | .kickUnique unique => (kickUnique r unique).map fun r => (r, .nothing)
  | .clearRank order => clearRank r order

def run (r : Board cfg) : List (Op V) → Option (Board cfg)
  | [] => some r
  | op :: ops => do
      let (r, _) ← step r op
      run r ops

end Operations

end Qiuqiu.Rank
