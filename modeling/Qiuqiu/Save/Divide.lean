import Qiuqiu.Base.Assoc
import Qiuqiu.Save.Split

/-!
`clsDivideSave` (lualib/clssave.lua): data by keys, saved in buckets that the hash
of the key selects. The assertion in `__init__` asks for a table where the number
of buckets is expected, so that no object is ever made: a number and nil fail it,
and a table cannot be compared with the saved count. Past the comparison the first
bucket would raise on the global `MOUDLE_DB`, which nothing sets.
-/
namespace Qiuqiu.Save.Divide
variable {K D : Type} [DecidableEq K]

/-- The argument `__SAVE_CNT`, and the field before the restore. -/
inductive Value where
  | nil
  | number (n : Int)
  | table

def Value.type : Value → String
  | .nil => "nil"
  | .number _ => "number"
  | .table => "table"

inductive Error where
  | assertion
  /-- attempt to compare -/
  | compare
  /-- attempt to index a nil value -/
  | indexNil

structure Bucket (K D : Type) where
  saveName : String
  saveData : List (K × D)

structure Object (K D : Type) where
  saveCnt : Int
  saveData : List (Int × Bucket K D)

/-- `v or 1`. -/
def Value.orOne : Value → Value
  | .nil => .number 1
  | v => v

/-- `a < b` on the two counts, with the numbers they are. -/
def lessThan : Value → Value → Except Error (Int × Int)
  | .number a, .number b => .ok (a, b)
  | _, _ => .error .compare

section Code
variable (hashNo : K → Int → Int)

def getData (self : Object K D) (uniqueKey : K) : Option D :=
  (self.saveData.lookup (hashNo uniqueKey self.saveCnt)).bind fun aData =>
    aData.saveData.lookup uniqueKey

def setData (self : Object K D) (uniqueKey : K) (sData : D) : Except Error (Object K D) :=
  let hNo := hashNo uniqueKey self.saveCnt
  match self.saveData.lookup hNo with
  | none => .error .indexNil
  | some aData => .ok { self with
      saveData := Assoc.put self.saveData hNo
        { aData with saveData := Assoc.put aData.saveData uniqueKey sData } }

/-- The pairs that `Foreach` visits. -/
def visited (self : Object K D) : List (K × D) :=
  self.saveData.flatMap fun x => x.2.saveData

def setAll (self : Object K D) : List (K × D) → Except Error (Object K D)
  | [] => .ok self
  | (uniqueKey, nData) :: rest => do
      let self ← setData hashNo self uniqueKey nData
      setAll self rest

/-- The loop that restores the old buckets, through the value of a global. -/
def restoreOld (moduleDb : Option (Int → Found K D)) : List Int → Except Error (List (K × D))
  | [] => .ok []
  | i :: rest =>
      match moduleDb with
      | none => .error .indexNil
      | some restore => do
          let later ← restoreOld moduleDb rest
          return (restore i).saveData ++ later

/-- The global that the loop names; it is `MODULE_DB` everywhere else. -/
def moudleDb : Option (Int → Found K D) := none

/-- `__init__` after the comparison of the counts: the object, and the buckets that
are forced to save. -/
def resplit (stored : Stored K D) (limits : Limits) (saveName : String)
    (saveCnt oldSplitCnt : Int) : Except Error (Object K D × List (Bucket K D)) := do
  let tSaveData ← restoreOld moudleDb (indices oldSplitCnt)
  let nowSplitCnt := stored.nowSplitCnt limits saveCnt
  let empty := (indices nowSplitCnt).map fun i => (i, Bucket.mk (bucketName saveName i) [])
  let self ← setAll hashNo ⟨nowSplitCnt, empty⟩ tSaveData
  if nowSplitCnt ≠ oldSplitCnt ∨ stored.isMerge.getD false then
    return (self, self.saveData.map Prod.snd)
  return (self, [])

/-- `clsDivideSave:__init__` of a new object. -/
def init (stored : Stored K D) (limits : Limits) (saveName : String) (saveCnt : Value) :
    Except Error (Object K D × List (Bucket K D)) := do
  if saveCnt.type ≠ "table" then throw .assertion
  let saveCnt := saveCnt.orOne
  let restored : Value := (stored.saveCnt.map .number).getD saveCnt
  let (saveCnt, oldSplitCnt) ← lessThan saveCnt restored
  resplit hashNo stored limits saveName saveCnt oldSplitCnt

/-- The requested count as it is passed. -/
def requested : Option Int → Value
  | none => .nil
  | some n => .number n

/-- The object has the data that was saved before: under every key, in `Foreach`, and
in the buckets that are forced to save, if there are any. -/
structure KeepsData (stored : Stored K D) (saveCnt : Int) (self : Object K D)
    (forced : List (Bucket K D)) : Prop where
  get : ∀ uniqueKey, getData hashNo self uniqueKey = (stored.entries saveCnt).lookup uniqueKey
  visits : (visited self).Perm (stored.entries saveCnt)
  saves : forced ≠ [] → (forced.flatMap (·.saveData)).Perm (stored.entries saveCnt)

end Code

variable {hashNo : K → Int → Int}

/-- `__init__` raises on every argument. -/
theorem init_raises (hashNo : K → Int → Int) (stored : Stored K D) (limits : Limits)
    (saveName : String) (saveCnt : Value) :
    ∃ err, init hashNo stored limits saveName saveCnt = .error err := by
  cases saveCnt with
  | nil => exact ⟨.assertion, rfl⟩
  | number n => exact ⟨.assertion, rfl⟩
  | table => exact ⟨.compare, rfl⟩

/-- For no saved state and no requested count does `__init__` return an object with
the data saved before. -/
theorem init_never_keeps (stored : Stored K D) (limits : Limits) (saveName : String)
    (saveCnt : Option Int) :
    ¬ ∃ self forced,
      init hashNo stored limits saveName (requested saveCnt) = .ok (self, forced) ∧
        KeepsData hashNo stored (saveCnt.getD 1) self forced := by
  rintro ⟨self, forced, made, -⟩
  obtain ⟨err, raised⟩ := init_raises hashNo stored limits saveName (requested saveCnt)
  rw [raised] at made
  cases made

/-- The first start of an object, with the default count and nothing saved. -/
theorem init_default_raises :
    ¬ ∃ self forced,
      init (fun (_ : Nat) _ => 1) (⟨none, none, fun _ => ⟨[], 0⟩⟩ : Stored Nat Nat) ⟨4, 8⟩ "a"
          (requested none) = .ok (self, forced) ∧
        KeepsData (fun _ _ => 1) ⟨none, none, fun _ => ⟨[], 0⟩⟩ 1 self forced := by
  rintro ⟨self, forced, made, -⟩
  cases made

end Qiuqiu.Save.Divide
