import Mathlib.Algebra.Group.Int.Defs
import Mathlib.Algebra.Group.Nat.Defs
import Mathlib.Data.List.Basic
import Mathlib.Logic.Function.Basic
import Qiuqiu.Base.Bytes

/-!
The part of the Lua grammar in which data is written, as llex.c and lparser.c of
skynet/3rd/lua read it: a chunk that returns an expression of strings, integers, booleans and
tables with keys in brackets. What the grammar has besides is refused here. Each expression
takes one of the C levels of the parser.
-/
namespace Qiuqiu.Text.Reader

/-- An integer, or a float whose value is an integer. -/
inductive Number where
  | int (n : BitVec 64)
  | float (n : Int)
  deriving DecidableEq

/-- The keys of a table, and its values that are no tables. -/
inductive Atom (N : Type) where
  | str (s : Bytes)
  | num (n : N)
  | bool (b : Bool)
  deriving DecidableEq

/-- A value as far as its structure: a table is what its keys hold. -/
inductive Obj where
  | atom (a : Atom Number)
  | table (entries : Atom Number → Option Obj)

inductive Token where
  | str (s : Bytes)
  | num (n : Number)
  | name (s : Bytes)
  | true_
  | false_
  | return_
  | lbrace
  | rbrace
  | lbracket
  | rbracket
  | assign
  | comma
  | semicolon
  | minus
  deriving DecidableEq

section Lexer

def lislalpha (c : UInt8) : Bool := (65 ≤ c && c ≤ 90) || (97 ≤ c && c ≤ 122) || c == 95

def lislalnum (c : UInt8) : Bool := lislalpha c || isdigit c

def lisspace (c : UInt8) : Bool := (9 ≤ c && c ≤ 13) || c == 32

def currIsNewline (c : UInt8) : Bool := c == 10 || c == 13

/-- What `inclinenumber` leaves behind the newline `old`. -/
def inclinenumber (old : UInt8) : Bytes → Bytes
  | [] => []
  | c :: s => if currIsNewline c && c != old then s else c :: s

/-- Up to so many digits of a decimal escape. -/
def readdecesc : Nat → Nat → Bytes → Nat × Bytes
  | n + 1, r, c :: s => if isdigit c then readdecesc n (10 * r + (c.toNat - 48)) s else (r, c :: s)
  | _, r, s => (r, s)

/-- Behind a backslash: the bytes to be saved, and what is left. The escapes `\x`, `\u` and
`\z` are not read. -/
def readEscape : Bytes → Option (Bytes × Bytes)
  | [] => some ([], [])
  | c :: s =>
      if c = 97 then some ([7], s)
      else if c = 98 then some ([8], s)
      else if c = 102 then some ([12], s)
      else if c = 110 then some ([10], s)
      else if c = 114 then some ([13], s)
      else if c = 116 then some ([9], s)
      else if c = 118 then some ([11], s)
      else if currIsNewline c then some ([10], inclinenumber c s)
      else if c = 92 ∨ c = 34 ∨ c = 39 then some ([c], s)
      else if isdigit c then
        let (r, s) := readdecesc 3 0 (c :: s)
        if r ≤ 255 then some ([r.toUInt8], s) else none
      else none

/-- `read_string`, from behind the opening delimiter, for so many bytes of the string. -/
def readString (del : UInt8) : Nat → Bytes → Option (Bytes × Bytes)
  | 0, _ => none
  | _ + 1, [] => none
  | n + 1, c :: s =>
      if c = del then some ([], s)
      else if currIsNewline c then none
      else if c = 92 then do
        let (saved, s) ← readEscape s
        let (t, s) ← readString del n s
        return (saved ++ t, s)
      else do
        let (t, s) ← readString del n s
        return (c :: t, s)

/-- The value of decimal digits. -/
def decimal (s : Bytes) : Nat := s.foldl (fun a c => 10 * a + (c.toNat - 48)) 0

/-- The nearest number with 53 binary digits, the even one of two. -/
def toDouble (n : Nat) : Nat :=
  let unit := 2 ^ (Nat.log2 n - 52)
  let low := n / unit
  let rest := n % unit
  let up := unit < 2 * rest ∨ unit = 2 * rest ∧ low % 2 = 1
  (if up then low + 1 else low) * unit

/-- `luaO_str2num` of decimal digits: a number that is no integer of the language is a float. -/
def str2num (s : Bytes) : Number :=
  if decimal s < 2 ^ 63 then .int (BitVec.ofNat 64 (decimal s)) else .float (toDouble (decimal s))

/-- A name or a reserved word. -/
def word (s : Bytes) : Token :=
  if s = ascii "true" then .true_
  else if s = ascii "false" then .false_
  else if s = ascii "return" then .return_
  else .name s

inductive Lexeme where
  | eos
  | error
  | token (t : Token) (rest : Bytes)

/-- Whether the first byte is none of these. -/
def before (stop : UInt8 → Bool) (s : Bytes) : Bool := !s.head?.any stop

/-- `llex`. Comments, long strings, numerals with letters or a dot and the other operators are
not read. -/
def llex : Bytes → Lexeme
  | [] => .eos
  | c :: s =>
      if lisspace c then llex s
      else if c = 34 ∨ c = 39 then
        match readString c (s.length + 1) s with
        | some (t, rest) => .token (.str t) rest
        | none => .error
      else if isdigit c then
        let rest := s.dropWhile isdigit
        if before (fun c => lislalnum c || c == 46) rest then
          .token (.num (str2num (c :: s.takeWhile isdigit))) rest
        else .error
      else if lislalpha c then
        .token (word (c :: s.takeWhile lislalnum)) (s.dropWhile lislalnum)
      else if c = 123 then .token .lbrace s
      else if c = 125 then .token .rbrace s
      else if c = 93 then .token .rbracket s
      else if c = 44 then .token .comma s
      else if c = 59 then .token .semicolon s
      else if c = 45 ∧ before (· == 45) s then .token .minus s
      else if c = 91 ∧ before (fun c => c == 91 || c == 61) s then .token .lbracket s
      else if c = 61 ∧ before (· == 61) s then .token .assign s
      else .error

/-- The tokens of a text, at most so many. -/
def tokens : Nat → Bytes → Option (List Token)
  | 0, _ => none
  | n + 1, s =>
      match llex s with
      | .eos => some []
      | .error => none
      | .token t rest => (tokens n rest).map (t :: ·)

end Lexer

section Parser

/-- Unary minus. -/
def Number.neg : Number → Number
  | int n => int (-n)
  | float n => float (-n)

/-- A float key with the value of an integer of the language is this integer. -/
def Number.key : Number → Number
  | int n => int n
  | float n => if -2 ^ 63 ≤ n ∧ n < 2 ^ 63 then int (BitVec.ofInt 64 n) else float n

def Atom.key : Atom Number → Atom Number
  | num n => num n.key
  | a => a

/-- The fields of a constructor from behind its brace, at most so many. -/
def fields (expr : List Token → Option (Obj × List Token)) :
    Nat → List Token → (Atom Number → Option Obj) → Option (Obj × List Token)
  | n + 1, .lbracket :: ts, t =>
      match expr ts with
      | some (.atom k, .rbracket :: .assign :: ts) =>
          match expr ts with
          | some (v, .comma :: ts) | some (v, .semicolon :: ts) =>
              fields expr n ts (Function.update t k.key (some v))
          | some (v, .rbrace :: ts) =>
              some (.table (Function.update t k.key (some v)), ts)
          | _ => none
      | _ => none
  | _ + 1, .rbrace :: ts, t => some (.table t, ts)
  | _, _, _ => none

/-- `subexpr`, with the C levels that are left, and the value of the expression. -/
def subexpr : Nat → List Token → Option (Obj × List Token)
  | 0, _ => none
  | _ + 1, .str s :: ts => some (.atom (.str s), ts)
  | _ + 1, .num n :: ts => some (.atom (.num n), ts)
  | _ + 1, .true_ :: ts => some (.atom (.bool true), ts)
  | _ + 1, .false_ :: ts => some (.atom (.bool false), ts)
  | levels + 1, .minus :: ts =>
      match subexpr levels ts with
      | some (.atom (.num n), ts) => some (.atom (.num n.neg), ts)
      | _ => none
  | levels + 1, .lbrace :: ts => fields (subexpr levels) (ts.length + 1) ts fun _ => none
  | _ + 1, _ => none

/-- `statement` of a chunk that is a return statement. -/
def statement : Nat → List Token → Option Obj
  | levels + 1, .return_ :: ts =>
      match subexpr levels ts with
      | some (v, []) | some (v, [.semicolon]) => some v
      | _ => none
  | _, _ => none

/-- `LUAI_MAXCCALLS`. -/
def maxCCalls : Nat := 200

/-- The value that the chunk returns, or that `load` fails. The call is made at `nCcalls` C
levels, and `accepts` says for which chunks the code generator has registers and constants. -/
def load (nCcalls : Nat) (accepts : List Token → Bool) (s : Bytes) : Option Obj :=
  match tokens (s.length + 1) s with
  | some ts => if accepts ts then statement (maxCCalls - 1 - nCcalls) ts else none
  | none => none

end Parser

section Lexed
variable {s rest : Bytes} {t : Token} {ts : List Token}

/-- The text has these tokens. -/
def Lexed (s : Bytes) (ts : List Token) : Prop := ∀ n, s.length < n → tokens n s = some ts

theorem lexed_nil : Lexed [] [] := by
  intro n lt
  cases n with
  | zero => cases lt
  | succ n => rfl

theorem Lexed.token (lexed : Lexed rest ts) (read : llex s = .token t rest)
    (shorter : rest.length < s.length) : Lexed s (t :: ts) := by
  intro n lt
  cases n with
  | zero => cases lt
  | succ n => simp only [tokens, read, lexed n (by omega), Option.map_some]

/-- White space before a token. -/
theorem Lexed.spaces (lexed : Lexed s ts) {space : Bytes}
    (all : ∀ c ∈ space, lisspace c = true) : Lexed (space ++ s) ts := by
  induction space with
  | nil => exact lexed
  | cons c space ih =>
      have later := ih fun c mem => all c (List.mem_cons_of_mem _ mem)
      have skip : llex (c :: (space ++ s)) = llex (space ++ s) := by
        rw [llex, if_pos (all c List.mem_cons_self)]
      intro n lt
      rw [List.cons_append, List.length_cons] at lt
      cases n with
      | zero => cases lt
      | succ n =>
          have same := later (n + 1) (by omega)
          rw [tokens] at same ⊢
          rw [List.cons_append, skip]
          exact same

/-- A byte that is a token by itself. -/
theorem Lexed.byte (lexed : Lexed s ts) {c : UInt8} (read : llex (c :: s) = .token t s) :
    Lexed (c :: s) (t :: ts) :=
  lexed.token read (Nat.lt_succ_self _)

theorem llex_minus (stop : before (· == 45) s = true) : llex (45 :: s) = .token .minus s := by
  simp [llex, lisspace, isdigit, lislalpha, stop]

theorem llex_lbracket (stop : before (fun c => c == 91 || c == 61) s = true) :
    llex (91 :: s) = .token .lbracket s := by
  simp [llex, lisspace, isdigit, lislalpha, stop]

theorem llex_assign (stop : before (· == 61) s = true) : llex (61 :: s) = .token .assign s := by
  simp [llex, lisspace, isdigit, lislalpha, stop]

theorem takeWhile_before {p : UInt8 → Bool} {front : Bytes} (all : ∀ c ∈ front, p c = true)
    (stop : before p rest = true) :
    (front ++ rest).takeWhile p = front ∧ (front ++ rest).dropWhile p = rest := by
  rw [List.takeWhile_append_of_pos all, List.dropWhile_append_of_pos all]
  cases rest with
  | nil => simp
  | cons c rest =>
      have no : p c = false := by simpa [before] using stop
      simp [no]

theorem not_lisspace {c : UInt8} (above : 32 < c) : lisspace c = false := by
  simp only [lisspace, Bool.or_eq_false_iff, Bool.and_eq_false_iff, decide_eq_false_iff_not,
    beq_eq_false_iff_ne]
  grind

/-- Decimal digits before a byte that cannot belong to a numeral. -/
theorem llex_digits {front : Bytes} (nonempty : front ≠ [])
    (digits : ∀ c ∈ front, isdigit c = true)
    (stop : before (fun c => lislalnum c || c == 46) rest = true) :
    llex (front ++ rest) = .token (.num (str2num front)) rest := by
  cases front with
  | nil => exact absurd rfl nonempty
  | cons c front =>
      have digit := digits c List.mem_cons_self
      have notDigit : before isdigit rest = true := by
        cases rest with
        | nil => rfl
        | cons c rest =>
            simp only [before, List.head?_cons, Option.any_some, lislalnum, Bool.not_eq_true',
              Bool.or_eq_false_iff] at stop ⊢
            exact stop.1.2
      obtain ⟨taken, left⟩ :=
        takeWhile_before (fun c mem => digits c (List.mem_cons_of_mem _ mem)) notDigit
      have range : 48 ≤ c ∧ c ≤ 57 := by simpa [isdigit] using digit
      have noSpace : lisspace c = false := not_lisspace (by grind)
      have noQuote : ¬ (c = 34 ∨ c = 39) := by grind
      simp only [List.cons_append, llex, noSpace, noQuote, digit, taken, left, stop, if_true,
        Bool.false_eq_true, if_false]

/-- A word before a byte that cannot belong to it. -/
theorem llex_word {front : Bytes} {c : UInt8} (alpha : lislalpha c = true)
    (all : ∀ c ∈ front, lislalnum c = true) (stop : before lislalnum rest = true) :
    llex (c :: (front ++ rest)) = .token (word (c :: front)) rest := by
  obtain ⟨taken, left⟩ := takeWhile_before all stop
  have range : (65 ≤ c ∧ c ≤ 90) ∨ (97 ≤ c ∧ c ≤ 122) ∨ c = 95 := by
    simpa [lislalpha, or_assoc] using alpha
  have noSpace : lisspace c = false := not_lisspace (by grind)
  have noQuote : ¬ (c = 34 ∨ c = 39) := by grind
  have noDigit : isdigit c = false := by
    simp only [isdigit, Bool.and_eq_false_iff, decide_eq_false_iff_not]
    grind
  simp only [llex, noSpace, noQuote, noDigit, alpha, taken, left, if_true, Bool.false_eq_true,
    if_false]

/-- The digits of an escape, as many as it can have or before a byte that is none. -/
theorem readdecesc_digits {n r : Nat} {front : Bytes} (digits : ∀ c ∈ front, isdigit c = true)
    (le : front.length ≤ n) (stop : front.length = n ∨ before isdigit rest = true) :
    readdecesc n r (front ++ rest) =
      (front.foldl (fun a c => 10 * a + (c.toNat - 48)) r, rest) := by
  induction front generalizing n r with
  | nil =>
      cases n with
      | zero => rfl
      | succ n =>
          cases rest with
          | nil => rfl
          | cons c rest =>
              have no : isdigit c = false := by
                cases stop with
                | inl zero => cases zero
                | inr stop => simpa [before] using stop
              simp [readdecesc, no]
  | cons c front ih =>
      cases n with
      | zero => cases le
      | succ n =>
          have digit := digits c List.mem_cons_self
          rw [List.cons_append, readdecesc, if_pos digit, List.foldl_cons]
          refine ih (fun c mem => digits c (List.mem_cons_of_mem _ mem)) ?_ ?_
          · exact Nat.le_of_succ_le_succ le
          · exact stop.imp_left Nat.succ.inj

end Lexed

end Qiuqiu.Text.Reader
