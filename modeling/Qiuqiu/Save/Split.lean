import Mathlib.Data.List.Basic

/-!
What lualib/clscmprank.lua and lualib/clssave.lua share: data that is saved in
several buckets, each a module of its own under the name of the whole and a
number. The number of buckets is saved too; at a restart it is raised to the
requested one, or doubled when the text of a bucket has become too long.
-/
namespace Qiuqiu.Save

/-- `THRESHOLD_DATALEN` and `SAVE_SPLIT_MAXCNT`. -/
structure Limits where
  thresholdDatalen : Int
  saveSplitMaxcnt : Int

/-- What a restore of a bucket finds: its `_SaveData` and the length of the text. -/
structure Found (K D : Type) where
  saveData : List (K × D)
  dsz : Int

/-- What the database holds: `__SAVE_CNT` and `__IS_MERGE` under the name of the
whole, where they were saved before, and the buckets. -/
structure Stored (K D : Type) where
  saveCnt : Option Int
  isMerge : Option Bool
  bucket : Int → Found K D

/-- The numbers of `for i = 1, n`. -/
def indices (n : Int) : List Int := (List.range n.toNat).map fun (k : Nat) => (k : Int) + 1

/-- The name of a bucket. -/
def bucketName (saveName : String) (i : Int) : String := saveName ++ "_" ++ toString i

/-- `nowSplitCnt` after the restore of one bucket; the other branches only log. -/
def growSplitCnt {K D : Type} (limits : Limits) (oldSplitCnt nowSplitCnt : Int)
    (found : Found K D) : Int :=
  if found.dsz ≥ limits.thresholdDatalen ∧ found.saveData.length > 1 ∧
      oldSplitCnt * 2 > nowSplitCnt ∧ oldSplitCnt * 2 ≤ limits.saveSplitMaxcnt then
    oldSplitCnt * 2
  else nowSplitCnt

section Counts
variable {K D : Type} (stored : Stored K D) (limits : Limits) (saveCnt : Int)

/-- `oldSplitCnt`: the saved count overwrites the requested one. -/
def Stored.oldSplitCnt : Int := stored.saveCnt.getD saveCnt

/-- `nowSplitCnt` after the loop over the old buckets. -/
def Stored.nowSplitCnt : Int :=
  let oldSplitCnt := stored.oldSplitCnt saveCnt
  (indices oldSplitCnt).foldl
    (fun nowSplitCnt i => growSplitCnt limits oldSplitCnt nowSplitCnt (stored.bucket i))
    (if saveCnt < oldSplitCnt then oldSplitCnt else saveCnt)

/-- The entries of the old buckets. -/
def Stored.entries : List (K × D) :=
  (indices (stored.oldSplitCnt saveCnt)).flatMap fun i => (stored.bucket i).saveData

end Counts

theorem indices_eq_nil {n : Int} : indices n = [] ↔ n < 1 := by
  rw [← List.length_eq_zero_iff, indices, List.length_map, List.length_range]
  omega

end Qiuqiu.Save
