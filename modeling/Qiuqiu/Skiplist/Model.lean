import Mathlib.Data.List.Basic
import Mathlib.Logic.Function.Basic

/-!
The ranked skip list of lualib/skiplist.lua. Lua tables are mutable objects,
so nodes live in a heap and are named by identifiers; a `forwardNode` or
`backwardNode` field holds an identifier or nil. `none` as the result of an
operation is a Lua error (indexing nil) or an exhausted loop bound: the
operations are total once that bound is shown to suffice.
-/
namespace Qiuqiu.Skiplist
variable {α : Type}

def RANDOM_MAX : Nat := 10000
def SKIPLIST_P : Nat := 2500
def SKIPLIST_MAXLEVEL : Nat := 32

abbrev NodeId := Nat

/-- One entry `lvData[i]`. A fresh entry is `{}`; its span is assigned before
it is ever read. -/
structure LvSlot where
  forwardNode : Option NodeId := none
  span : Int := 0
  deriving DecidableEq, Inhabited

/-- The table `lvData`: its integer part, and the string field of the same
table that `lvData.forwardNode` reads. -/
structure LvData where
  slots : Nat → Option LvSlot
  forwardNode : Option NodeId := none

structure Node (α : Type) where
  nData : Option α
  backwardNode : Option NodeId := none
  lvData : LvData

structure SlData (α : Type) where
  level : Nat
  length : Int
  headerNode : NodeId
  tailNode : Option NodeId
  heap : NodeId → Node α
  nextId : NodeId

/-- A number of levels a node may have. -/
structure Level where
  val : Nat
  pos : 1 ≤ val
  le : val ≤ SKIPLIST_MAXLEVEL

/-- `draws k` is the result of the k-th call `mrandom(RANDOM_MAX)`. -/
def slRandomLevelFrom (draws : Nat → Nat) (level : Nat) : Nat :=
  if level < SKIPLIST_MAXLEVEL ∧ draws level < SKIPLIST_P then
    slRandomLevelFrom draws (level + 1)
  else level
termination_by SKIPLIST_MAXLEVEL - level

theorem slRandomLevelFrom_range (draws : Nat → Nat) (level : Nat)
    (h : level ≤ SKIPLIST_MAXLEVEL) :
    level ≤ slRandomLevelFrom draws level ∧
      slRandomLevelFrom draws level ≤ SKIPLIST_MAXLEVEL := by
  induction level using slRandomLevelFrom.induct draws with
  | case1 level go ih =>
      rw [slRandomLevelFrom, if_pos go]
      have := ih go.1
      omega
  | case2 level stop =>
      rw [slRandomLevelFrom, if_neg stop]
      exact ⟨Nat.le_refl _, h⟩

def slRandomLevel (draws : Nat → Nat) : Level :=
  ⟨slRandomLevelFrom draws 1,
    (slRandomLevelFrom_range draws 1 (by decide)).1,
    (slRandomLevelFrom_range draws 1 (by decide)).2⟩

/-- Every level of a node can be drawn. -/
theorem slRandomLevel_surjective (level : Level) :
    ∃ draws : Nat → Nat, (∀ k, 1 ≤ draws k ∧ draws k ≤ RANDOM_MAX) ∧
      slRandomLevel draws = level := by
  obtain ⟨top, pos, le⟩ := level
  refine ⟨fun k => if k < top then 1 else RANDOM_MAX, ?_, ?_⟩
  · intro k
    simp only [RANDOM_MAX]
    split <;> omega
  · have drawn : ∀ l, l ≤ top →
        slRandomLevelFrom (fun k => if k < top then 1 else RANDOM_MAX) l = top := by
      intro l
      induction l using slRandomLevelFrom.induct (fun k => if k < top then 1 else RANDOM_MAX) with
      | case1 l go ih =>
          intro below
          rw [slRandomLevelFrom, if_pos go]
          have high : l < top := by
            by_contra reached
            simp [if_neg reached, RANDOM_MAX, SKIPLIST_P] at go
          exact ih high
      | case2 l stop =>
          intro below
          rw [slRandomLevelFrom, if_neg stop]
          by_contra short
          have high : l < top := by omega
          exact stop ⟨by omega, by simp [high, SKIPLIST_P]⟩
    simp only [slRandomLevel, drawn 1 pos]

def slCreateNode (level : Nat) (nData : Option α) : Node α where
  nData := nData
  lvData := { slots := fun i => if 1 ≤ i ∧ i ≤ level then some {} else none }

namespace SlData

/-- The read `n.lvData[i]`. -/
def lv (s : SlData α) (n : NodeId) (i : Nat) : Option LvSlot :=
  (s.heap n).lvData.slots i

/-- The write `n.lvData[i] = f(n.lvData[i])`, an error when the entry is nil. -/
def modifyLv (s : SlData α) (n : NodeId) (i : Nat) (f : LvSlot → LvSlot) :
    Option (SlData α) := do
  let slot ← s.lv n i
  let node := s.heap n
  some { s with
    heap := Function.update s.heap n { node with
      lvData := { node.lvData with
        slots := Function.update node.lvData.slots i (some (f slot)) } } }

def setBackward (s : SlData α) (n : NodeId) (b : Option NodeId) : SlData α :=
  { s with heap := Function.update s.heap n { s.heap n with backwardNode := b } }

/-- Allocation of a table, the identifier being a fresh one. -/
def alloc (s : SlData α) (node : Node α) : NodeId × SlData α :=
  (s.nextId, { s with
    heap := Function.update s.heap s.nextId node
    nextId := s.nextId + 1 })

end SlData

/-- Identifier 0 is the header. Create gives every header entry the span 0 and
the list the length 1. -/
def create : SlData α where
  level := 1
  length := 1
  headerNode := 0
  tailNode := none
  heap := fun _ => slCreateNode SKIPLIST_MAXLEVEL none
  nextId := 1

/-- The inner `while` of every search: from `x`, go right at level `i` as long
as there is a successor and `test` accepts it, accumulating spans by `add`. -/
def walkLevel {β : Type} (s : SlData α) (test : β → LvSlot → NodeId → Option Bool)
    (add : Int → β → β) (i : Nat) : Nat → NodeId → β → Option (NodeId × β)
  | 0, _, _ => none
  | fuel + 1, x, acc => do
      let slot ← s.lv x i
      match slot.forwardNode with
      | none => some (x, acc)
      | some f =>
          if ← test acc slot f then
            walkLevel s test add i fuel f (add slot.span acc)
          else some (x, acc)

/-- A numeric `for` over levels: `todo` rounds from level `i` up. -/
def forLevels (body : SlData α → Nat → Option (SlData α)) (s : SlData α) (i : Nat) :
    Nat → Option (SlData α)
  | 0 => some s
  | todo + 1 => do
      let s' ← body s i
      forLevels body s' (i + 1) todo

section Operations
variable (compDataFunc : α → α → Int) (sameDataFunc : α → α → Bool)

/-- `slData.compDataFunc(forwardNode.nData, nData) < 0`. -/
def beforeTest {β : Type} (s : SlData α) (nData : α) (_ : β) (_ : LvSlot)
    (f : NodeId) : Option Bool := do
  let d ← (s.heap f).nData
  some (decide (compDataFunc d nData < 0))

/-- The variables the descending loop of `M.Insert` assigns. -/
structure InsertSearch where
  x : NodeId
  update : Nat → Option NodeId
  rank : Nat → Option Int
  ro : Int

/-- `for i = slData.level, 1, -1`: the argument counts the levels left. -/
def insertSearch (s : SlData α) (nData : α) :
    Nat → InsertSearch → Option InsertSearch
  | 0, v => some v
  | i + 1, v => do
      let start ← (if i + 1 = s.level then some 0 else v.rank (i + 2) : Option Int)
      let r ← walkLevel s (beforeTest compDataFunc s nData)
        (fun span (acc : Int × Int) => (acc.1 + span, acc.2 + span))
        (i + 1) s.nextId v.x (start, v.ro)
      insertSearch s nData i {
        x := r.1
        update := Function.update v.update (i + 1) (some r.1)
        rank := Function.update v.rank (i + 1) (some r.2.1)
        ro := r.2.2 }

/-- `for i = slData.level + 1, level`: the header spans the whole list. -/
def raiseLevel (s : SlData α) (v : InsertSearch) (i : Nat) :
    Nat → Option (SlData α × InsertSearch)
  | 0 => some (s, v)
  | todo + 1 => do
      let s' ← s.modifyLv s.headerNode i fun slot => { slot with span := s.length }
      raiseLevel s' { v with
        rank := Function.update v.rank i (some 0)
        update := Function.update v.update i (some s.headerNode) } (i + 1) todo

/-- One round of the splicing loop of `M.Insert`, with `update[i].lvData.forwardNode`
read as the source has it. -/
def spliceAt (v : InsertSearch) (x : NodeId) (s : SlData α) (i : Nat) :
    Option (SlData α) := do
  let u ← v.update i
  let r1 ← v.rank 1
  let ri ← v.rank i
  let s ← s.modifyLv x i fun slot =>
    { slot with forwardNode := (s.heap u).lvData.forwardNode }
  let s ← s.modifyLv u i fun slot => { slot with forwardNode := some x }
  let us ← s.lv u i
  let s ← s.modifyLv x i fun slot => { slot with span := us.span - (r1 - ri) }
  s.modifyLv u i fun slot => { slot with span := (r1 - ri) + 1 }

/-- One round of `for i = level + 1, slData.level`: a level above the new node. -/
def widenAt (v : InsertSearch) (s : SlData α) (i : Nat) : Option (SlData α) := do
  let u ← v.update i
  s.modifyLv u i fun slot => { slot with span := slot.span + 1 }

/-- The level test of `M.Insert` around the raising loop. -/
def raiseTo (s : SlData α) (v : InsertSearch) (level : Nat) :
    Option (SlData α × InsertSearch) :=
  if s.level < level then do
    let r ← raiseLevel s v (s.level + 1) (level - s.level)
    some ({ r.1 with level := level }, r.2)
  else some (s, v)

/-- The back pointers, the tail and the length, once `x` is spliced in after
`u1` on level 1. -/
def linkBack (s : SlData α) (x u1 : NodeId) : Option (SlData α) := do
  let s := if u1 = s.headerNode then s.setBackward x none else s.setBackward x (some u1)
  let first ← s.lv x 1
  let s := match first.forwardNode with
    | some f => s.setBackward f (some x)
    | none => { s with tailNode := some x }
  some { s with length := s.length + 1 }

/-- `M.Insert`, given the level that `_SLRandomLevel()` (`slRandomLevel`) returned. The
result is the new node and the returned rank. -/
def insert (s : SlData α) (nData : α) (level : Level) :
    Option (SlData α × NodeId × Int) := do
  let v ← insertSearch compDataFunc s nData s.level
    { x := s.headerNode, update := fun _ => none, rank := fun _ => none, ro := 0 }
  let raised ← raiseTo s v level.val
  let new := raised.1.alloc (slCreateNode level.val (some nData))
  let s ← forLevels (spliceAt raised.2 new.1) new.2 1 level.val
  let s ← forLevels (widenAt raised.2) s (level.val + 1) (s.level - level.val)
  let u1 ← raised.2.update 1
  let s ← linkBack s new.1 u1
  some (s, new.1, v.ro + 1)

/-- The descending loop of `M.Delete`. -/
def deleteSearch (s : SlData α) (nData : α) :
    Nat → NodeId → (Nat → Option NodeId) → Option (NodeId × (Nat → Option NodeId))
  | 0, x, update => some (x, update)
  | i + 1, x, update => do
      let r ← walkLevel s (beforeTest compDataFunc s nData) (fun _ (acc : Unit) => acc)
        (i + 1) s.nextId x ()
      deleteSearch s nData i r.1 (Function.update update (i + 1) (some r.1))

/-- One round of the first loop of `_SLDeleteNode`. -/
def unlinkAt (x : NodeId) (update : Nat → Option NodeId) (s : SlData α) (i : Nat) :
    Option (SlData α) := do
  let u ← update i
  let us ← s.lv u i
  if us.forwardNode = some x then do
    let xs ← s.lv x i
    s.modifyLv u i fun slot =>
      { slot with span := slot.span + xs.span - 1, forwardNode := xs.forwardNode }
  else
    s.modifyLv u i fun slot => { slot with span := slot.span - 1 }

/-- `while slData.level > 1 and not headerNode.lvData[level].forwardNode`. -/
def shrinkLevel (s : SlData α) : Nat → Option Nat
  | 0 => some 0
  | 1 => some 1
  | l + 2 => do
      let slot ← s.lv s.headerNode (l + 2)
      match slot.forwardNode with
      | none => shrinkLevel s (l + 1)
      | some _ => some (l + 2)

/-- The back pointer or the tail, once `x` is out of the level 1 chain. -/
def unlinkBack (s : SlData α) (x : NodeId) : Option (SlData α) := do
  let first ← s.lv x 1
  match first.forwardNode with
  | some f => some (s.setBackward f (s.heap x).backwardNode)
  | none => some { s with tailNode := (s.heap x).backwardNode }

def slDeleteNode (s : SlData α) (x : NodeId) (update : Nat → Option NodeId) :
    Option (SlData α) := do
  let s ← forLevels (unlinkAt x update) s 1 s.level
  let s ← unlinkBack s x
  let level ← shrinkLevel s s.level
  some { s with level := level, length := s.length - 1 }

/-- `M.Delete`; the second component is the returned data, nil when no stored
element matches. -/
def delete (s : SlData α) (nData : α) : Option (SlData α × Option α) := do
  let found ← deleteSearch compDataFunc s nData s.level s.headerNode fun _ => none
  let first ← s.lv found.1 1
  match first.forwardNode with
  | none => some (s, none)
  | some x =>
      match (s.heap x).nData with
      | none => some (s, none)
      | some d =>
          if sameDataFunc d nData then do
            let s' ← slDeleteNode s x found.2
            some (s', (s'.heap x).nData)
          else some (s, none)

end Operations
end Qiuqiu.Skiplist
