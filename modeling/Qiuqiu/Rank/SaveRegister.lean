import Mathlib.Data.Int.Order.Basic
import Qiuqiu.Rank.Model
import Qiuqiu.Save.Split

/-!
The restore of a saved leaderboard (lualib/clscmprank.lua, `Call_SaveRegister`).
The loop that backs up the restored buckets writes to `tSaveData[i]`, where `i` is
no variable of it but a global that is nil, so that it raises at the first bucket.
The function returns only when there is no bucket, which is when the count in
force is less than 1.
-/
namespace Qiuqiu.Rank
open Save
variable {V : Type} [LinearOrder V] {cfg : Config V}

/-- What is saved of a leaderboard, the kicked uniques under the name of the whole. -/
structure Persisted (V : Type) extends Stored V (Data V) where
  kickData : Option (List V)

/-- The global `i`. -/
def globalI : Option Int := none

/-- The loop that fills `tSaveData`; none is the error of an index that is nil. -/
def backup (i : Option Int) (tSaveData : List (Int × List (V × Data V))) :
    List (Int × List (V × Data V)) → Option (List (Int × List (V × Data V)))
  | [] => some tSaveData
  | (_, data) :: rest =>
      match i with
      | none => none
      | some i => backup (some i) (Assoc.put tSaveData i data) rest

/-- What the calls of `Insert` take from outside: the clock and the random levels. -/
structure Supply (V : Type) where
  now : Nat → V
  level : Nat → Skiplist.Level

/-- The refill; an error that `Insert` raises is not caught. -/
def insertAll (supply : Supply V) (initFunc : Data V → Data V) (r : Board cfg) :
    List (V × Data V) → Option (Board cfg)
  | [] => some r
  | (_, nData) :: rest => do
      let (r, answer) ← insert r (initFunc nData) (supply.now rest.length)
        (supply.level rest.length)
      match answer with
      | .error _ => none
      | _ => insertAll supply initFunc r rest

/-- The board after `Call_SaveRegister`, its count, and the buckets forced to save. -/
structure Registered (cfg : Config V) where
  board : Board cfg
  saveCnt : Int
  forced : List (Bucket cfg)

/-- The buckets of a board. -/
def Registered.buckets (out : Registered cfg) : List (Int × Bucket cfg) :=
  match out.board.saveData with
  | .entries _ => []
  | .buckets _ t => t

/-- `Call_SaveRegister` on a new board. The number of buckets does not become smaller,
and all of them, kept or new, are cleared before the refill. -/
def callSaveRegister (cfg : Config V) (stored : Persisted V) (limits : Limits) (supply : Supply V)
    (initFunc : Data V → Data V) (saveName : String) (saveCnt : Int) :
    Option (Registered cfg) := do
  let oldSplitCnt := stored.oldSplitCnt saveCnt
  let restored := (indices oldSplitCnt).map fun i => (i, (stored.bucket i).saveData)
  let nowSplitCnt := stored.nowSplitCnt limits saveCnt
  let tSaveData ← backup globalI [] restored
  let empty := (indices nowSplitCnt).map fun i => (i, Bucket.mk (bucketName saveName i) [])
  let r : Board cfg := ⟨Skiplist.create, .buckets saveName empty, stored.kickData.getD []⟩
  let r ← insertAll supply initFunc r (tSaveData.flatMap Prod.snd)
  let out : Registered cfg := ⟨r, nowSplitCnt, []⟩
  if nowSplitCnt ≠ oldSplitCnt ∨ stored.isMerge.getD false then
    some { out with forced := out.buckets.map Prod.snd }
  else some out

/-- The saved entries that are not kicked. -/
def Persisted.kept (stored : Persisted V) (saveCnt : Int) : List (V × Data V) :=
  (stored.entries saveCnt).filter fun x => !(stored.kickData.getD []).contains x.1

/-- The entries of a list of buckets. -/
def entriesOf (buckets : List (Bucket cfg)) : Table cfg := buckets.flatMap (·.saveData)

/-- The board has the saved entries that are not kicked, as many as it may, each in the
bucket of its hash, the skip list has them in rank order, and a forced save has them
too. -/
structure KeepsEntries (stored : Persisted V) (saveCnt : Int) (initFunc : Data V → Data V)
    (out : Registered cfg) : Prop where
  saved : ∀ x ∈ entriesOf (out.buckets.map Prod.snd),
    ∃ d now, (x.1, d) ∈ stored.kept saveCnt ∧ x.2.val = withBirth (initFunc d) now
  nodup : ((entriesOf (out.buckets.map Prod.snd)).map Prod.fst).Nodup
  count : (entriesOf (out.buckets.map Prod.snd)).length =
    min (stored.kept saveCnt).length cfg.maxNum.toNat
  placed : ∀ y ∈ out.buckets, ∀ x ∈ y.2.saveData, y.1 = cfg.hashNo x.1 (.cnt out.saveCnt)
  ranked : ∃ (ids : List Skiplist.NodeId) (elems : List (Entry cfg)),
    Skiplist.Path out.board.slData 1 out.board.slData.headerNode ids ∧
    ids.map (fun n => (out.board.slData.heap n).nData) = elems.map some ∧
    elems.Pairwise (fun a b => compDataFunc a b ≤ 0) ∧
    elems.Perm ((entriesOf (out.buckets.map Prod.snd)).map Prod.snd)
  forced : out.forced ≠ [] → out.forced = out.buckets.map Prod.snd

section Restore
variable {stored : Persisted V} {limits : Limits} {supply : Supply V}
  {initFunc : Data V → Data V} {saveName : String} {saveCnt : Int}

omit [LinearOrder V] in
theorem backup_cons (tSaveData : List (Int × List (V × Data V))) (x : Int × List (V × Data V))
    (rest : List (Int × List (V × Data V))) : backup globalI tSaveData (x :: rest) = none := rfl

theorem callSaveRegister_raises (some : 1 ≤ stored.oldSplitCnt saveCnt) :
    callSaveRegister cfg stored limits supply initFunc saveName saveCnt = none := by
  cases shape : indices (stored.oldSplitCnt saveCnt) with
  | nil =>
      have := indices_eq_nil.mp shape
      omega
  | cons i rest =>
      simp only [callSaveRegister, shape, List.map_cons, backup_cons, Option.bind_eq_bind,
        Option.bind_none]

omit [LinearOrder V] in
theorem entries_eq_nil (none : stored.oldSplitCnt saveCnt < 1) : stored.entries saveCnt = [] := by
  rw [Stored.entries, indices_eq_nil.mpr none, List.flatMap_nil]

/-- A board whose buckets are empty. -/
theorem keepsEntries_empty {out : Registered cfg} (none : stored.entries saveCnt = [])
    (list : out.board.slData = Skiplist.create) (empty : ∀ y ∈ out.buckets, y.2.saveData = [])
    (forced : out.forced ≠ [] → out.forced = out.buckets.map Prod.snd) :
    KeepsEntries stored saveCnt initFunc out := by
  have entries : entriesOf (out.buckets.map Prod.snd) = [] := by
    rw [entriesOf, List.flatMap_eq_nil_iff]
    intro b present
    obtain ⟨y, mem, rfl⟩ := List.mem_map.mp present
    exact empty y mem
  have kept : stored.kept saveCnt = [] := by
    rw [Persisted.kept, none, List.filter_nil]
  refine ⟨?_, ?_, ?_, ?_, ⟨[], [], ?_, rfl, List.Pairwise.nil, ?_⟩, forced⟩
  · simp [entries]
  · simp [entries]
  · simp [entries, kept]
  · intro y mem x inside
    rw [empty y mem] at inside
    cases inside
  · rw [list]
    exact .stop rfl rfl
  · simp [entries]

theorem callSaveRegister_empty (none : stored.oldSplitCnt saveCnt < 1) :
    ∃ out, callSaveRegister cfg stored limits supply initFunc saveName saveCnt = some out ∧
      KeepsEntries stored saveCnt initFunc out := by
  have empty : ∀ y ∈ (indices (stored.nowSplitCnt limits saveCnt)).map
      (fun i => (i, (⟨bucketName saveName i, []⟩ : Bucket cfg))), y.2.saveData = [] := by
    intro y mem
    obtain ⟨i, -, rfl⟩ := List.mem_map.mp mem
    rfl
  simp only [callSaveRegister, indices_eq_nil.mpr none, List.map_nil, backup, Option.bind_eq_bind,
    Option.bind_some, List.flatMap_nil, insertAll]
  split
  · exact ⟨_, rfl, keepsEntries_empty (entries_eq_nil none) rfl empty fun _ => rfl⟩
  · exact ⟨_, rfl, keepsEntries_empty (entries_eq_nil none) rfl empty fun some => absurd rfl some⟩

/-- `Call_SaveRegister` keeps the saved entries exactly when the count in force is less
than 1, so that there are no buckets. -/
theorem callSaveRegister_keeps_iff :
    (∃ out, callSaveRegister cfg stored limits supply initFunc saveName saveCnt = some out ∧
      KeepsEntries stored saveCnt initFunc out) ↔ stored.oldSplitCnt saveCnt < 1 := by
  constructor
  · rintro ⟨out, run, -⟩
    by_contra some
    rw [callSaveRegister_raises (Int.not_lt.mp some)] at run
    cases run
  · exact callSaveRegister_empty

/-- A board with one bucket, which holds one entry. -/
def oneBucket : Persisted Int where
  saveCnt := some 1
  isMerge := none
  bucket := fun _ => ⟨[(7, fun key => if key = "uid" then some 7 else some 30)], 40⟩
  kickData := none

theorem callSaveRegister_one_bucket :
    ¬ ∃ out, callSaveRegister (⟨"uid", ["score"], fun _ _ => .eq, 10, fun _ _ => 1⟩ : Config Int)
        oneBucket ⟨4000000, 16⟩ ⟨fun _ => 0, fun _ => .one⟩ id "rank" 1 = some out ∧
      KeepsEntries oneBucket 1 id out := by
  rintro ⟨out, run, -⟩
  cases run

end Restore

end Qiuqiu.Rank
