import Mathlib.Algebra.Group.Nat.Defs
import Qiuqiu.Base.Outcome
import Qiuqiu.Database.Routing

/-!
Who frees a message that startup/database.lua routes. `CMD.assign` owns it: it
redirects the message or trashes it before it raises. Two calls of the language
raise by themselves, `string.hash` on what is no string and `pairs` on what is no
table, and nobody frees the message then.
-/
namespace Qiuqiu.Database.Routing
open Triple

/-- A Lua value as an unpacked message has it. The values of a table stand in the
order of `pairs`, and a number has the text that it is converted to. -/
inductive Value where
  | nil
  | bool (b : Bool)
  | number (text : Bytes)
  | string (s : Bytes)
  | table (values : List Value)
  | userdata (ref : Nat)

/-- `type(v) == "string"`. -/
def Value.isString : Value → Bool
  | .string _ => true
  | _ => false

/-- `luaL_checkstring`. -/
def Value.checkString : Value → Option Bytes
  | .string s => some s
  | .number text => some text
  | _ => none

/-- The cells of a node: at least one, and fewer than the handles of the node. -/
structure Cells where
  dbCnt : Nat
  pos : 1 ≤ dbCnt
  fits : dbCnt < 2 ^ 32
  newservice : Nat → Nat

inductive Effect where
  | trash (msg sz : Nat)
  | redirect (r : Redirect)

/-- A division by zero in `str_hash` stops the process; it is no error of Lua. -/
inductive Failure where
  | raised (err : String)
  | stopped

abbrev Run (α : Type) := ExceptT Failure (StateM (List Effect)) α

def emit (e : Effect) : Run Unit := modify (· ++ [e])

section Functions
variable (tostring : Value → String) (cells : Cells)

/-- `string.hash(v, DB_CNT)`. -/
def stringHash (v : Value) : Run Nat :=
  match v.checkString with
  | none => throw (.raised "bad argument #1 to 'hash' (string expected)")
  | some key =>
      match strHash key cells.dbCnt with
      | some dbno => return dbno
      | none => throw .stopped

/-- `for _, v in pairs(t)`. -/
def luaPairs (t : Value) : Run (List Value) :=
  match t with
  | .table values => return values
  | _ => throw (.raised "bad argument #1 to 'for iterator' (table expected)")

/-- The commands whose data may be no string. -/
def exempt (command : String) : Bool :=
  command = "battlerecord_deletelist" || command = "resultrecord_getdatamap" ||
    command = "resultrecord_deletelist"

/-- `cskynet.trash(msg, sz)` and the error behind it. -/
def trashAndRaise (m : Message) (err : String) : Run Nat := do
  emit (.trash m.msg m.sz)
  throw (.raised err)

/-- `CMD.assign` up to the number of the cell. -/
def assignDbno (command : String) (assigndata : Value) (m : Message) : Run Nat := do
  let shown := s!"session:{m.session}, source:{m.source}, command:{command}"
  if !assigndata.isString && !exempt command then
    trashAndRaise m s!"assigndata not string:{tostring assigndata}, {shown}"
  else if command = "battlerecord_deletelist" then
    match ← luaPairs assigndata with
    | fId :: _ => stringHash cells fId
    | [] => trashAndRaise m s!"assigndata not dbno, data:{tostring assigndata}, {shown}"
  else stringHash cells assigndata

def cmdAssign (command : String) (assigndata : Value) (m : Message) : Run Unit := do
  let dbno ← assignDbno tostring cells command assigndata m
  match addressAt cells.newservice cells.dbCnt dbno with
  | some addr => emit (.redirect ⟨addr, m⟩)
  | none =>
      let shown := s!"source:{m.source}, command:{command}"
      let _ ← trashAndRaise m s!"not dbno:{dbno}, assigndata:{tostring assigndata}, {shown}"

end Functions

/-- The data on which `CMD.assign` reaches one of its own ends. -/
def Owned (command : String) (assigndata : Value) : Prop :=
  if command = "battlerecord_deletelist" then
    ∃ values, assigndata = .table values ∧ ∀ fId ∈ values.head?, fId.checkString.isSome
  else exempt command → assigndata.checkString.isSome

/-- Redirected once and returned, or trashed once and raised. -/
def OwnedOnce (m : Message) (out : Except Failure Unit × List Effect) : Prop :=
  (∃ addr, out = (.ok (), [.redirect ⟨addr, m⟩])) ∨
    ∃ err, out = (.error (.raised err), [.trash m.msg m.sz])

theorem Cells.ofNat_ne_zero (cells : Cells) : UInt32.ofNat cells.dbCnt ≠ 0 := by
  intro zero
  have residue := congrArg UInt32.toNat zero
  rw [UInt32.toNat_ofNat_of_lt' cells.fits] at residue
  have pos := cells.pos
  rw [residue] at pos
  exact absurd pos (by decide)

/-- The hash of a node with cells never divides by zero. -/
theorem Cells.strHash_isSome (cells : Cells) (key : Bytes) :
    ∃ dbno, strHash key cells.dbCnt = some dbno := by
  simp only [strHash, reduceHash, if_neg cells.ofNat_ne_zero]
  split
  · exact ⟨_, rfl⟩
  · exact ⟨_, rfl⟩

section Outcomes
variable {tostring : Value → String} {cells : Cells} {command : String} {assigndata : Value}
  {m : Message} {w : List Effect}

theorem stringHash_ok {v : Value} (isKey : v.checkString.isSome) :
    ∃ dbno, outcome (stringHash cells v) w = (.ok dbno, w) := by
  obtain ⟨key, text⟩ := Option.isSome_iff_exists.mp isKey
  obtain ⟨dbno, hashed⟩ := cells.strHash_isSome key
  simp only [stringHash, text, hashed]
  exact ⟨dbno, rfl⟩

theorem stringHash_raises {v : Value} (noKey : ¬ v.checkString.isSome) :
    ∃ err, outcome (stringHash cells v) w = (.error (.raised err), w) := by
  rw [Option.not_isSome_iff_eq_none] at noKey
  simp only [stringHash, noKey]
  exact ⟨_, rfl⟩

theorem isString_checkString {v : Value} (isString : v.isString) : v.checkString.isSome := by
  cases v with
  | string s => rfl
  | nil | bool _ | number _ | table _ | userdata _ => cases isString

theorem deletelist_exempt : exempt "battlerecord_deletelist" := rfl

theorem trashAndRaise_outcome (err : String) :
    outcome (trashAndRaise m err) w = (.error (.raised err), w ++ [.trash m.msg m.sz]) := rfl

/-- On owned data the number is found, or the message is trashed with the error. -/
theorem assignDbno_owned (owned : Owned command assigndata) :
    (∃ dbno, outcome (assignDbno tostring cells command assigndata m) [] = (.ok dbno, [])) ∨
      ∃ err, outcome (assignDbno tostring cells command assigndata m) [] =
        (.error (.raised err), [.trash m.msg m.sz]) := by
  simp only [assignDbno]
  split
  · exact .inr ⟨_, trashAndRaise_outcome _⟩
  · rename_i checked
    split
    · rename_i deletelist
      rw [Owned, if_pos deletelist] at owned
      obtain ⟨values, isTable, keyed⟩ := owned
      subst isTable
      cases values with
      | nil => exact .inr ⟨_, trashAndRaise_outcome _⟩
      | cons fId rest =>
          have isKey : fId.checkString.isSome := keyed fId rfl
          exact .inl (stringHash_ok isKey)
    · rename_i other
      rw [Owned, if_neg other] at owned
      refine .inl (stringHash_ok ?_)
      cases isString : assigndata.isString with
      | true => exact isString_checkString isString
      | false =>
          apply owned
          simpa [isString] using checked

/-- On other data `pairs` or `string.hash` raises, with the message still held. -/
theorem assignDbno_leaks (leaks : ¬ Owned command assigndata) :
    ∃ err, outcome (assignDbno tostring cells command assigndata m) [] =
      (.error (.raised err), []) := by
  have isExempt : exempt command := by
    by_contra plain
    apply leaks
    rw [Owned, if_neg]
    · exact fun exempted => absurd exempted plain
    · rintro rfl
      exact plain deletelist_exempt
  simp only [assignDbno, isExempt, Bool.not_true, Bool.and_false, Bool.false_eq_true, if_false]
  split
  · rename_i deletelist
    rw [Owned, if_pos deletelist] at leaks
    cases assigndata with
    | table values =>
        cases values with
        | nil => exact absurd ⟨[], rfl, by simp⟩ leaks
        | cons fId rest =>
            refine stringHash_raises ?_
            intro isKey
            apply leaks
            refine ⟨fId :: rest, rfl, ?_⟩
            intro first same
            cases same
            exact isKey
    | nil | bool _ | number _ | string _ | userdata _ => exact ⟨_, rfl⟩
  · rename_i other
    rw [Owned, if_neg other] at leaks
    exact stringHash_raises fun isKey => leaks fun _ => isKey

end Outcomes

/-- The message is redirected or trashed exactly once if and only if `string.hash`
gets a string or a number, and `pairs` a table. -/
theorem ownedOnce_iff (tostring : Value → String) (cells : Cells) (command : String)
    (assigndata : Value) (m : Message) :
    OwnedOnce m (outcome (cmdAssign tostring cells command assigndata m) []) ↔
      Owned command assigndata := by
  constructor
  · intro once
    by_contra leaks
    obtain ⟨err, raised⟩ := assignDbno_leaks (m := m) leaks
    rw [cmdAssign, outcome_bind_error raised] at once
    cases once with
    | inl redirected =>
        obtain ⟨addr, same⟩ := redirected
        cases same
    | inr trashed =>
        obtain ⟨err', same⟩ := trashed
        cases same
  · intro owned
    cases assignDbno_owned (m := m) owned with
    | inl selected =>
        obtain ⟨dbno, out⟩ := selected
        rw [cmdAssign, outcome_bind_ok out]
        cases addressAt cells.newservice cells.dbCnt dbno with
        | some addr => exact .inl ⟨addr, rfl⟩
        | none => exact .inr ⟨_, rfl⟩
    | inr raised =>
        obtain ⟨err, out⟩ := raised
        rw [cmdAssign, outcome_bind_error out]
        exact .inr ⟨err, rfl⟩

def tenCells : Cells := ⟨10, by decide, by decide, fun i => i⟩

/-- The list of keys that `resultrecord_getdatamap` carries is no string: the
message is neither redirected nor trashed. -/
theorem getdatamap_leaks :
    ¬ OwnedOnce ⟨1, 2, 3, 4⟩ (outcome (cmdAssign (fun _ => "table") tenCells
      "resultrecord_getdatamap" (.table [.string [117, 49]]) ⟨1, 2, 3, 4⟩) []) := by
  intro once
  cases once with
  | inl redirected =>
      obtain ⟨addr, same⟩ := redirected
      cases same
  | inr trashed =>
      obtain ⟨err, same⟩ := trashed
      cases same

section Refinement

/-- The data of the routing as Lua values. -/
def Assigndata.value : Assigndata → Value
  | .string key => .string key
  | .table values => .table (values.map .string)

variable {tostring : Value → String} {cells : Cells} {command : String} {m : Message}

/-- A number that both find, or an error of both. -/
inductive Agrees : Except Error Nat → Except Failure Nat × List Effect → Prop
  | selected (dbno : Nat) : Agrees (.ok dbno) (.ok dbno, [])
  | failed (e : Error) (f : Failure) (w : List Effect) : Agrees (.error e) (.error f, w)

theorem stringHash_agrees (key : Bytes) :
    Agrees (hashKey cells.dbCnt key) (outcome (stringHash cells (.string key)) []) := by
  simp only [hashKey, stringHash, Value.checkString]
  cases strHash key cells.dbCnt with
  | some dbno => exact .selected dbno
  | none => exact .failed ..

theorem assignDbno_string (key : Bytes) :
    Agrees (selectDbno cells.dbCnt command (.string key))
      (outcome (assignDbno tostring cells command (.string key) m) []) := by
  by_cases deletelist : command = "battlerecord_deletelist"
  · rw [selectDbno, if_pos deletelist]
    simp only [assignDbno, Value.isString, deletelist]
    exact .failed ..
  · rw [selectDbno_string deletelist]
    simp only [assignDbno, Value.isString, deletelist, Bool.not_true, Bool.false_and, if_false,
      Bool.false_eq_true]
    exact stringHash_agrees key

theorem selectDbno_other {dbCnt : Nat} {command : String} (values : List Bytes)
    (other : command ≠ "battlerecord_deletelist") :
    ∃ e, selectDbno dbCnt command (.table values) = .error e := by
  simp only [selectDbno, if_neg other]
  split
  · exact ⟨_, rfl⟩
  · exact ⟨_, rfl⟩

theorem assignDbno_table (values : List Bytes) :
    Agrees (selectDbno cells.dbCnt command (.table values))
      (outcome (assignDbno tostring cells command (.table (values.map .string)) m) []) := by
  by_cases deletelist : command = "battlerecord_deletelist"
  · subst deletelist
    cases values with
    | nil => exact .failed ..
    | cons fId rest => exact stringHash_agrees fId
  · obtain ⟨e, refused⟩ := selectDbno_other values deletelist
    rw [refused]
    simp only [assignDbno, Value.isString, if_neg deletelist]
    split
    · exact .failed ..
    · exact .failed ..

/-- `CMD.assign` redirects what the routing redirects, and to the same cell. -/
theorem cmdAssign_redirects_iff (a : Assigndata) (r : Redirect) :
    outcome (cmdAssign tostring cells command a.value m) [] = (.ok (), [.redirect r]) ↔
      assign cells.newservice cells.dbCnt command a m = .ok r := by
  have agrees : Agrees (selectDbno cells.dbCnt command a)
      (outcome (assignDbno tostring cells command a.value m) []) := by
    cases a with
    | string key => exact assignDbno_string key
    | table values => exact assignDbno_table values
  rw [cmdAssign, assign]
  generalize found : outcome (assignDbno tostring cells command a.value m) [] = out at agrees
  generalize selectDbno cells.dbCnt command a = dbno at agrees
  cases agrees with
  | failed e f w =>
      rw [outcome_bind_error found]
      constructor
      · intro redirected
        cases redirected
      · intro redirected
        cases redirected
  | selected dbno =>
      rw [outcome_bind_ok found]
      simp only [bind, Except.bind]
      cases addressAt cells.newservice cells.dbCnt dbno with
      | none =>
          constructor
          · intro redirected
            cases redirected
          · intro redirected
            cases redirected
      | some addr =>
          constructor
          · intro redirected
            cases redirected
            rfl
          · intro redirected
            cases redirected
            rfl

end Refinement

end Qiuqiu.Database.Routing
