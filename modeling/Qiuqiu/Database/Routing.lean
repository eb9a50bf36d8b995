import Mathlib.Data.List.Basic
import Mathlib.Data.List.Range
import Qiuqiu.Database.Cache

/-!
The routing of startup/database.lua: a message goes to the cell that the hash
of its key selects. The hash is `str_hash` of skynet/3rd/lua/lstrlib.c, with a
64 bit `unsigned long` and a signed `char`. It returns a residue, from 0 on,
and the table of cells is filled by `table.insert`, from 1 on.
-/
namespace Qiuqiu.Database
namespace Routing

/-- `(unsigned long)str[i-1]`. -/
def charToULong (c : UInt8) : UInt64 :=
  if c < 128 then c.toUInt64 else c.toUInt64 + 0xFFFFFFFFFFFFFF00

/-- `for (i = len; i >= step; i -= step)`, with the number of rounds left. -/
def hashRounds (str : List UInt8) (step : Nat) : Nat → Nat → UInt64 → UInt64
  | 0, _, h => h
  | rounds + 1, i, h =>
      hashRounds str step rounds (i - step)
        (h ^^^ ((h <<< 5) + (h >>> 2) + charToULong (str.getD (i - 1) 0)))

/-- The last branch divides by `hashMod`; with 0 the process is stopped. -/
def reduceHash (h : UInt64) (hashMod : UInt32) : Option Nat :=
  if hashMod.toUInt64 < h ∧ hashMod &&& (hashMod - 1) = 0 then
    some (h &&& (hashMod - 1).toUInt64).toNat
  else if hashMod = 0 then none
  else some (h % hashMod.toUInt64).toNat

/-- `string.hash(str, hashMod)`. `strlen` stops at the first zero byte. -/
def strHash (str : Bytes) (hashMod : Nat) : Option Nat :=
  let str := str.takeWhile (· ≠ 0)
  let step := str.length / 32 + 1
  reduceHash (hashRounds str step (str.length / step) str.length (.ofNat str.length))
    (.ofNat hashMod)

/-- The data a message is assigned by; the values of a table in the order of
`pairs`. -/
inductive Assigndata where
  | string (key : Bytes)
  | table (values : List Bytes)

inductive Error where
  | notString
  | pairsOfString
  | hashOfTable
  | stopped
  | noKey
  | notDbno (dbno : Nat)

structure Message where
  session : Nat
  source : Nat
  msg : Nat
  sz : Nat

/-- `skynet.redirect(addr, source, "lua", session, msg, sz)`. -/
structure Redirect where
  addr : Nat
  message : Message

section
variable (newservice : Nat → Nat) (dbCnt : Nat)

/-- The table `address` after start-up: the handles, by `table.insert`. -/
def address : List Nat := (List.range dbCnt).map fun i => newservice (i + 1)

/-- `address[dbno] and address[dbno].addr`. -/
def addressAt : Nat → Option Nat
  | 0 => none
  | dbno + 1 => (address newservice dbCnt)[dbno]?

def hashKey (key : Bytes) : Except Error Nat :=
  match strHash key dbCnt with
  | some dbno => .ok dbno
  | none => .error .stopped

def selectDbno (command : String) : Assigndata → Except Error Nat
  | .string key =>
      if command = "battlerecord_deletelist" then .error .pairsOfString
      else hashKey dbCnt key
  | .table values =>
      if command = "battlerecord_deletelist" then
        match values with
        | fId :: _ => hashKey dbCnt fId
        | [] => .error .noKey
      else if command = "resultrecord_getdatamap" ∨ command = "resultrecord_deletelist" then
        .error .hashOfTable
      else .error .notString

def assign (command : String) (assigndata : Assigndata) (m : Message) :
    Except Error Redirect := do
  let dbno ← selectDbno dbCnt command assigndata
  match addressAt newservice dbCnt dbno with
  | some addr => .ok ⟨addr, m⟩
  | none => .error (.notDbno dbno)

end

/-- What a start-up with `dbCnt` cells has to give. -/
structure Routed (newservice : Nat → Nat) (dbCnt : Nat) : Prop where
  redirects : ∀ command key m, command ≠ "battlerecord_deletelist" →
    ∃ i, i < dbCnt ∧ assign newservice dbCnt command (.string key) m = .ok ⟨newservice (i + 1), m⟩
  sameCell : ∀ command command' key m m' r r',
    assign newservice dbCnt command (.string key) m = .ok r →
    assign newservice dbCnt command' (.string key) m' = .ok r' → r.addr = r'.addr
  covers : ∀ dbno, 1 ≤ dbno → dbno ≤ dbCnt → ∃ key, strHash key dbCnt = some dbno

theorem reduceHash_le {h : UInt64} {hashMod : UInt32} {r : Nat}
    (hr : reduceHash h hashMod = some r) : r ≤ (hashMod - 1).toNat := by
  simp only [reduceHash] at hr
  split at hr
  · cases hr
    rw [UInt64.toNat_and, UInt32.toNat_toUInt64]
    exact Nat.and_le_right
  · split at hr
    · cases hr
    · rename_i nonzero
      cases hr
      have pos : 0 < hashMod.toNat := by
        rw [Nat.pos_iff_ne_zero]
        intro zero
        exact nonzero (UInt32.toNat_inj.1 zero)
      have lt := Nat.mod_lt h.toNat pos
      rw [UInt64.toNat_mod, UInt32.toNat_toUInt64, UInt32.toNat_sub_of_le _ _ pos]
      exact Nat.le_sub_one_of_lt lt

theorem pred_ofNat_lt {n : Nat} (pos : 1 ≤ n) : (UInt32.ofNat n - 1).toNat < n := by
  rw [UInt32.toNat_sub, UInt32.toNat_ofNat']
  simp only [UInt32.toNat_one]
  omega

/-- The hash is a residue: the number of the last cell is never selected. -/
theorem strHash_lt {key : Bytes} {dbCnt dbno : Nat} (pos : 1 ≤ dbCnt)
    (h : strHash key dbCnt = some dbno) : dbno < dbCnt :=
  Nat.lt_of_le_of_lt (reduceHash_le h) (pred_ofNat_lt pos)

theorem addressAt_succ {newservice : Nat → Nat} {dbCnt i : Nat} (h : i < dbCnt) :
    addressAt newservice dbCnt (i + 1) = some (newservice (i + 1)) := by
  simp [addressAt, address, h]

theorem selectDbno_string {dbCnt : Nat} {command : String} {key : Bytes}
    (hc : command ≠ "battlerecord_deletelist") :
    selectDbno dbCnt command (.string key) = hashKey dbCnt key :=
  if_neg hc

/-- A key is redirected as long as its residue is not 0. -/
theorem assign_redirects_iff {newservice : Nat → Nat} {dbCnt dbno : Nat} {command : String}
    {key : Bytes} {m : Message} (pos : 1 ≤ dbCnt) (hc : command ≠ "battlerecord_deletelist")
    (h : strHash key dbCnt = some dbno) :
    (∃ r, assign newservice dbCnt command (.string key) m = .ok r) ↔ dbno ≠ 0 := by
  have lt := strHash_lt pos h
  have selected : selectDbno dbCnt command (.string key) = .ok dbno := by
    rw [selectDbno_string hc, hashKey, h]
  simp only [assign, selected]
  cases dbno with
  | zero =>
      constructor
      · intro redirected
        cases redirected with
        | intro r hr => cases hr
      · intro nonzero
        exact absurd rfl nonzero
  | succ i =>
      have found : addressAt newservice dbCnt (i + 1) = some (newservice (i + 1)) :=
        addressAt_succ (Nat.lt_of_succ_lt lt)
      constructor
      · intro _
        exact Nat.succ_ne_zero i
      · intro _
        refine ⟨⟨newservice (i + 1), m⟩, ?_⟩
        simp [bind, Except.bind, found]

theorem not_routed {newservice : Nat → Nat} {dbCnt : Nat} (pos : 1 ≤ dbCnt) :
    ¬ Routed newservice dbCnt := by
  intro routed
  obtain ⟨key, h⟩ := routed.covers dbCnt pos (Nat.le_refl dbCnt)
  exact Nat.lt_irrefl dbCnt (strHash_lt pos h)

theorem not_routed_ten : 1 ≤ 10 ∧ ¬ Routed (fun i => i) 10 :=
  ⟨by decide, not_routed (by decide)⟩

theorem strHash_urs8 : strHash [117, 114, 115, 56] 10 = some 0 := by decide +kernel

/-- With the default of ten cells the message of the key "urs8" raises. -/
theorem urs8_not_redirected :
    assign (fun i => i) 10 "list_getdata" (.string [117, 114, 115, 56]) ⟨1, 2, 3, 4⟩ =
      .error (.notDbno 0) ∧ ¬ Routed (fun i => i) 10 := by
  constructor
  · simp [assign, selectDbno, hashKey, strHash_urs8, addressAt, bind, Except.bind]
  · intro routed
    obtain ⟨i, _, redirected⟩ :=
      routed.redirects "list_getdata" [117, 114, 115, 56] ⟨1, 2, 3, 4⟩ (by decide)
    exact (assign_redirects_iff (by decide) (by decide) strHash_urs8).1 ⟨_, redirected⟩ rfl

end Routing

end Qiuqiu.Database
