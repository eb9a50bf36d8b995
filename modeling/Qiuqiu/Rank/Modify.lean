import Qiuqiu.Base.Outcome
import Qiuqiu.Rank.Contract
import Qiuqiu.Skiplist.Queries

/-!
`clsCmpRank:ModifyValue` (lualib/clscmprank.lua). Its first loop is to look at the
update, but it calls `pairs` without an argument, and that raises. So no entry of
a board is ever modified, whatever the update holds; only the updates that it has
to reject come out as they should.
-/
namespace Qiuqiu.Rank
open Triple
variable {V : Type}

/-- The table `data`: some fields and their new values. -/
structure Update (V : Type) where
  fields : List (String × V)
  keyed : Assoc.Keyed fields

inductive ModifyError (V : Type) where
  /-- not unique: -/
  | notUnique (unique : V)
  /-- can`t modify key: -/
  | cantModify (key : String)
  /-- bad argument #1 to 'pairs' (value expected) -/
  | badArgument
  /-- An error of another function that is called. -/
  | inner

/-- `nil`, or `true` with the rank of an entry that was moved. -/
inductive Modified where
  | nothing
  | modified (rank : Option Int)

abbrev ModifyRun (cfg : Config V) (α : Type) :=
  ExceptT (ModifyError V) (StateM (Board cfg)) α

section Entries
variable {cfg : Config V}

/-- `nData[key] = value`. -/
def Entry.set (e : Entry cfg) (key : String) (value : V) : Entry cfg :=
  ⟨Function.update e.val key (some value), by
    intro k mem
    by_cases same : k = key
    · rw [same, Function.update_self]
      rfl
    · rw [Function.update_of_ne same]
      exact e.property k mem⟩

def Entry.setAll (e : Entry cfg) (fields : List (String × V)) : Entry cfg :=
  fields.foldl (fun e x => e.set x.1 x.2) e

end Entries

section Functions
variable [LinearOrder V] {cfg : Config V}

/-- The body of the first loop; `true` is `needDelete`, after which it breaks. -/
def needDelete (nData : Entry cfg) : List (String × V) → Except (ModifyError V) Bool
  | [] => .ok false
  | (key, value) :: rest =>
      if key = cfg.uniqueKey ∨ key = firstkeyBirth then .error (.cantModify key)
      else if key ∈ cfg.keys ∧ nData.val key ≠ some value then .ok true
      else needDelete nData rest

/-- `pairs(t)`; without an argument it raises. -/
def luaPairs (order : Assoc.PairsOrder (String × V)) :
    Option (Update V) → ModifyRun cfg (List (String × V))
  | none => throw .badArgument
  | some t => return order.visit t.fields

/-- A function of the board. -/
def onBoard {α : Type} (f : Board cfg → Option (Board cfg × α)) : ModifyRun cfg α := do
  match f (← get) with
  | none => throw .inner
  | some (r, a) =>
      set r
      return a

/-- The fields of an entry that stays where it is: the table and the skip list hold
the same object. -/
def overwrite (unique : V) (nData : Entry cfg) (r : Board cfg) : Option (Board cfg × Unit) := do
  let heap := fun n =>
    if (r.slData.heap n).nData.map Entry.unique = some unique then
      { r.slData.heap n with nData := some nData }
    else r.slData.heap n
  let r ← setSaveData { r with slData := { r.slData with heap := heap } } unique nData
  some (r, ())

/-- The end of `ModifyValue` for an entry that was deleted. -/
def putBack (unique : V) (nData : Entry cfg) (level : Skiplist.Level) (r : Board cfg) :
    Option (Board cfg × Int) := do
  let (slData, _, rank) ← Skiplist.insert compDataFunc r.slData nData level
  let r ← setSaveData { r with slData := slData } unique nData
  some (r, rank)

/-- `order` is that of the loops over `data`, and `now` the clock. -/
def modifyValue (unique : V) (data : Update V) (order : Assoc.PairsOrder (String × V)) (now : V)
    (level : Skiplist.Level) : ModifyRun cfg Modified := do
  if kickRole (← get) unique then return .nothing
  match getSaveData (← get) unique with
  | none => throw (.notUnique unique)
  | some nData =>
      -- The source has `pairs()`.
      let checked ← luaPairs order none
      if ← liftExcept (needDelete nData checked) then
        match ← onBoard fun r => delete r unique with
        | none => return .nothing
        | some _ =>
            let nData := (nData.setAll (← luaPairs order (some data))).set firstkeyBirth now
            let rank ← onBoard (putBack unique nData level)
            return .modified (some rank)
      else
        let nData := nData.setAll (← luaPairs order (some data))
        onBoard (overwrite unique nData)
        return .modified none

def getRank (r : Board cfg) (unique : V) : Option Int :=
  match getSaveData r unique with
  | none => some 0
  | some nData => Skiplist.getRank compDataFunc sameDataFunc r.slData nData

end Functions

section Spec
variable {cfg : Config V}

/-- The update holds a field that must not be changed. -/
def Update.Forbidden (cfg : Config V) (data : Update V) : Prop :=
  cfg.uniqueKey ∈ data.fields.map Prod.fst ∨ firstkeyBirth ∈ data.fields.map Prod.fst

/-- The update changes a field that the order looks at. -/
def Update.Reranks (data : Update V) (nData : Entry cfg) : Prop :=
  ∃ x ∈ data.fields, x.1 ∈ cfg.keys ∧ nData.val x.1 ≠ some x.2

variable [LinearOrder V]

/-- What a modification of the entry `nData` has to leave. An entry that moves gets a
new time of birth. -/
structure Rewritten (r : Board cfg) (unique : V) (nData : Entry cfg) (data : Update V)
    (rank : Option Int) (r' : Board cfg) (nData' : Entry cfg) : Prop where
  entry : getSaveData r' unique = some nData'
  updated : ∀ x ∈ data.fields, nData'.val x.1 = some x.2
  rest : ∀ key ∉ data.fields.map Prod.fst, (key = firstkeyBirth → ¬ data.Reranks nData) →
    nData'.val key = nData.val key
  others : ∀ other ≠ unique, getSaveData r' other = getSaveData r other
  kept : ¬ data.Reranks nData → getRank r' unique = getRank r unique
  moved : data.Reranks nData → ∃ n, rank = some n ∧ getRank r' unique = some n ∧
    ∀ other ≠ unique, ∀ e, getSaveData r' other = some e →
      ∃ m, getRank r' other = some m ∧ (m < n ↔ compDataFunc e nData' < 0)

/-- What `ModifyValue` has to do for an entry of the board. -/
structure Modifies (r : Board cfg) (unique : V) (nData : Entry cfg) (data : Update V)
    (out : Except (ModifyError V) Modified × Board cfg) : Prop where
  rejects : data.Forbidden cfg → ∃ err, out = (.error err, r)
  rewrites : ¬ data.Forbidden cfg → ∃ rank r' nData', out = (.ok (.modified rank), r') ∧
    Rewritten r unique nData data rank r' nData'

/-- The first loop raises before anything is changed. -/
theorem modifyValue_raises {r : Board cfg} {unique : V} {nData : Entry cfg}
    (kicked : kickRole r unique = false) (present : getSaveData r unique = some nData)
    (data : Update V) (order : Assoc.PairsOrder (String × V)) (now : V) (level : Skiplist.Level) :
    outcome (modifyValue unique data order now level) r = (.error .badArgument, r) := by
  rw [modifyValue, outcome_bind_ok (outcome_get r), kicked]
  simp only [Bool.false_eq_true, if_false]
  rw [outcome_bind_ok (outcome_get r), present]
  rfl

theorem kickRole_of_present {r : Board cfg} (kicked : ∀ u ∈ r.kickData, getSaveData r u = none)
    {unique : V} {nData : Entry cfg} (present : getSaveData r unique = some nData) :
    kickRole r unique = false := by
  rw [kickRole, decide_eq_false_iff_not]
  intro kick
  rw [kicked unique kick] at present
  cases present

/-- On a board without kicked entries, an entry is treated as it should exactly when
the update must be rejected. -/
theorem modifies_iff {r : Board cfg} (kicked : ∀ u ∈ r.kickData, getSaveData r u = none)
    {unique : V} {nData : Entry cfg} (present : getSaveData r unique = some nData)
    (data : Update V) (order : Assoc.PairsOrder (String × V)) (now : V) (level : Skiplist.Level) :
    Modifies r unique nData data (outcome (modifyValue unique data order now level) r) ↔
      data.Forbidden cfg := by
  rw [modifyValue_raises (kickRole_of_present kicked present) present]
  constructor
  · intro meets
    by_contra allowed
    obtain ⟨rank, r', nData', out, -⟩ := meets.rewrites allowed
    cases out
  · intro forbidden
    exact ⟨fun _ => ⟨_, rfl⟩, fun allowed => absurd forbidden allowed⟩

theorem Exact.no_kicked {r : Board cfg} {t : Table cfg} (exact : Exact r t) :
    ∀ u ∈ r.kickData, getSaveData r u = none := by
  intro u kick
  simp only [getSaveData, exact.saveData]
  exact Assoc.lookup_none.mpr (exact.kicked u kick)

end Spec

theorem Reaches.present [LinearOrder V] {cfg : Config V} {ops : List (Op V)} {t : Table cfg}
    {kick : List V} (reaches : Reaches cfg ops t kick) (unique : V) {e : Entry cfg}
    (here : t.lookup unique = some e) :
    ∃ r, run (init cfg) ops = some r ∧ (∀ u ∈ r.kickData, getSaveData r u = none) ∧
      getSaveData r unique = some e := by
  obtain ⟨r, reach, good, -⟩ := reaches.board
  exact ⟨r, reach, good.exact.no_kicked, (good.getSaveData unique).trans here⟩

def update (key : String) (value : Int) : Update Int := ⟨[(key, value)], List.nodup_singleton _⟩

/-- Two entries and a kicked unique. -/
theorem modifies_of_unique_update :
    ∃ r, run (init (scoreBoard 4)) records = some r ∧
      Modifies r 9 (entry 4 9 50) (update "uid" 8)
        (outcome (modifyValue 9 (update "uid" 8) .asStored 1 .one) r) := by
  obtain ⟨r, reach, kicked, present⟩ := reaches_records.present 9 rfl
  refine ⟨r, reach, (modifies_iff kicked present _ _ _ _).mpr (.inl ?_)⟩
  exact List.mem_singleton_self _

/-- A new score raises as well. -/
theorem not_modifies_score :
    ∃ r, run (init (scoreBoard 10)) [.insert (record 7 30) 0 .one] = some r ∧
      ¬ Modifies r 7 (entry 10 7 30) (update "score" 50)
        (outcome (modifyValue 7 (update "score" 50) .asStored 1 .one) r) := by
  have empty : Reaches (scoreBoard 10) [] [] [] := .nil (by decide)
  have single := empty.score 7 30 (by decide) (by decide) (by decide) (by decide)
  obtain ⟨r, reach, kicked, present⟩ := single.present 7 rfl
  refine ⟨r, reach, ?_⟩
  intro meets
  have allowed : ¬ (update "score" 50).Forbidden (scoreBoard 10) := by
    simp [Update.Forbidden, update, scoreBoard, firstkeyBirth]
  obtain ⟨rank, r', nData', out, -⟩ := meets.rewrites allowed
  rw [modifyValue_raises (kickRole_of_present kicked present) present] at out
  cases out

end Qiuqiu.Rank
