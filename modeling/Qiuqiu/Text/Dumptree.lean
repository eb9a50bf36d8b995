import Mathlib.Data.Nat.Init
import Qiuqiu.Text.Reader

/-!
`sys.dumptree` of lualib/extend/sys.lua: a table as a text of the Lua language, one entry a
line, with `string.format('%q', s)` for the strings. A node hands its configuration to its
services as such a text, and they read it with `load`.
-/
namespace Qiuqiu.Text.Dumptree
open Reader

mutual

/-- A string, an integer, a boolean or a table. -/
inductive Value where
  | atom (a : Atom (BitVec 64))
  | table (es : Entries)

/-- The entries of a table in the order of `pairs`. -/
inductive Entries where
  | nil
  | cons (k : Atom (BitVec 64)) (v : Value) (rest : Entries)

end

section Code

/-- `%d` of a number that is not negative. -/
def decimalText (n : Nat) : Bytes := (Nat.toDigits 10 n).map fun c => c.toNat.toUInt8

/-- `%03d`. -/
def paddedText (n : Nat) : Bytes :=
  List.replicate (3 - (decimalText n).length) 48 ++ decimalText n

/-- A byte of a quoted string, by the byte behind it. -/
def quoteByte (next : Option UInt8) (c : UInt8) : Bytes :=
  if c = 34 ∨ c = 92 ∨ c = 10 then [92, c]
  else if iscntrl c then
    92 :: (if next.any isdigit then paddedText c.toNat else decimalText c.toNat)
  else [c]

def quoteBytes : Bytes → Bytes
  | [] => []
  | c :: s => quoteByte s.head? c ++ quoteBytes s

/-- `string.format('%q', s)`. -/
def addquoted (s : Bytes) : Bytes := 34 :: (quoteBytes s ++ [34])

def tostring : Atom (BitVec 64) → Bytes
  | .str s => s
  | .num n => (if n.toInt < 0 then [45] else []) ++ decimalText n.toInt.natAbs
  | .bool b => if b then ascii "true" else ascii "false"

/-- A key, or a value that is no table. -/
def literal : Atom (BitVec 64) → Bytes
  | .str s => addquoted s
  | a => tostring a

def wordsIndentBy (n : Nat) : Bytes := (List.replicate n (ascii "  ")).flatten

/-- The braces of a table around its entries. -/
def braces (deep : Nat) (entries : Bytes) : Bytes :=
  wordsIndentBy deep ++ ascii "\x7b\n" ++ entries ++ wordsIndentBy deep ++ ascii "\x7d"

mutual

/-- A value behind its key. -/
def valueString : Value → Nat → Bytes
  | .atom a, _ => literal a
  | .table es, deep => ascii "\n" ++ braces (deep + 2) (entriesString es (deep + 2))

def entriesString : Entries → Nat → Bytes
  | .nil, _ => []
  | .cons k v rest, deep =>
      wordsIndentBy (deep + 1) ++ ascii "[" ++ literal k ++ ascii "]=" ++ valueString v deep ++
        ascii ",\n" ++ entriesString rest deep

end

def toTreeString (t : Value) (deep : Nat) : Bytes :=
  match t with
  | .atom a => tostring a
  | .table es => braces deep (entriesString es deep)

def dumptree (t : Value) : Bytes := toTreeString t 0

end Code

section Numbers

theorem toUInt8_digit {c : Char} (digit : c.isDigit = true) :
    isdigit c.toNat.toUInt8 = true ∧ c.toNat.toUInt8.toNat = c.toNat := by
  have range : 48 ≤ c.toNat ∧ c.toNat ≤ 57 := by
    simpa [Char.isDigit, UInt32.le_iff_toNat_le] using digit
  have small : c.toNat.toUInt8.toNat = c.toNat := by
    rw [Nat.toUInt8_eq, UInt8.toNat_ofNat']
    omega
  refine ⟨?_, small⟩
  simp only [isdigit, Bool.and_eq_true, decide_eq_true_eq, UInt8.le_iff_toNat_le, small]
  exact range

theorem isdigit_decimalText {n : Nat} : ∀ c ∈ decimalText n, isdigit c = true := by
  intro c mem
  obtain ⟨c', mem, same⟩ := List.mem_map.mp mem
  rw [← same]
  exact (toUInt8_digit (Nat.isDigit_of_mem_toDigits (by decide) (by decide) mem)).1

theorem decimal_decimalText (n : Nat) : decimal (decimalText n) = n := by
  have general : ∀ (l : List Char) (a : Nat), (∀ c ∈ l, c.isDigit = true) →
      (l.map fun c => c.toNat.toUInt8).foldl (fun a c => 10 * a + (c.toNat - 48)) a =
        Nat.ofDigitChars 10 l a := by
    intro l
    induction l with
    | nil => intro a _; simp
    | cons c l ih =>
        intro a all
        rw [List.map_cons, List.foldl_cons, (toUInt8_digit (all c List.mem_cons_self)).2,
          ih _ fun c mem => all c (List.mem_cons_of_mem _ mem), Nat.ofDigitChars_cons]
        rfl
  have digits := fun c mem =>
    Nat.isDigit_of_mem_toDigits (b := 10) (n := n) (c := c) (by decide) (by decide) mem
  exact (general _ 0 digits).trans Nat.ofDigitChars_ten_toDigits

theorem decimalText_ne_nil {n : Nat} : decimalText n ≠ [] := by
  rw [decimalText, Ne, List.map_eq_nil_iff]
  exact Nat.toDigits_ne_nil

theorem length_decimalText_le {n : Nat} (small : n < 1000) : (decimalText n).length ≤ 3 := by
  rw [decimalText, List.length_map]
  exact (Nat.length_toDigits_le_iff (by decide) (by decide)).mpr small

theorem foldl_replicate_zero (n : Nat) :
    (List.replicate n (48 : UInt8)).foldl (fun a c => 10 * a + (c.toNat - 48)) 0 = 0 := by
  induction n with
  | zero => rfl
  | succ n ih => exact ih

end Numbers

section Strings
variable {rest : Bytes}

theorem readEscape_digit {d : UInt8} {s : Bytes} (digit : isdigit d = true) :
    readEscape (d :: s) =
      if (readdecesc 3 0 (d :: s)).1 ≤ 255 then
        some ([(readdecesc 3 0 (d :: s)).1.toUInt8], (readdecesc 3 0 (d :: s)).2)
      else none := by
  have range : 48 ≤ d ∧ d ≤ 57 := by simpa [isdigit] using digit
  have notNewline : currIsNewline d = false := by
    simp only [currIsNewline, Bool.or_eq_false_iff, beq_eq_false_iff_ne]
    grind
  have others : d ≠ 97 ∧ d ≠ 98 ∧ d ≠ 102 ∧ d ≠ 110 ∧ d ≠ 114 ∧ d ≠ 116 ∧ d ≠ 118 ∧
      ¬ (d = 92 ∨ d = 34 ∨ d = 39) := by
    grind
  simp only [readEscape, others, notNewline, digit, if_true, if_false, Bool.false_eq_true]

/-- The escape of a control byte, in front of bytes that do not change it. -/
theorem readEscape_decimal {c : UInt8} {front : Bytes} (digits : ∀ d ∈ front, isdigit d = true)
    (nonempty : front ≠ []) (le : front.length ≤ 3)
    (stop : front.length = 3 ∨ before isdigit rest = true) (value : decimal front = c.toNat) :
    readEscape (front ++ rest) = some ([c], rest) := by
  have read := readdecesc_digits (r := 0) digits le stop
  rw [show front.foldl (fun a c => 10 * a + (c.toNat - 48)) 0 = c.toNat from value] at read
  cases front with
  | nil => exact absurd rfl nonempty
  | cons d front =>
      rw [List.cons_append] at read ⊢
      rw [readEscape_digit (digits d List.mem_cons_self), read, if_pos, Nat.toUInt8_eq,
        UInt8.ofNat_toNat]
      exact Nat.le_of_lt_succ c.toNat_lt

theorem length_paddedText {n : Nat} (small : n < 1000) : (paddedText n).length = 3 := by
  have length := length_decimalText_le small
  rw [paddedText, List.length_append, List.length_replicate]
  omega

theorem readEscape_control {c : UInt8} {next : Option UInt8}
    (follows : next.any isdigit = false → before isdigit rest = true) :
    readEscape ((if next.any isdigit then paddedText c.toNat else decimalText c.toNat) ++ rest) =
      some ([c], rest) := by
  have small : c.toNat < 1000 := Nat.lt_trans c.toNat_lt (by decide)
  cases digit : next.any isdigit with
  | false =>
      exact readEscape_decimal isdigit_decimalText decimalText_ne_nil
        (length_decimalText_le small) (.inr (follows digit)) (decimal_decimalText _)
  | true =>
      have length := length_paddedText small
      rw [if_pos rfl]
      refine readEscape_decimal ?_ ?_ (Nat.le_of_eq length) (.inl length) ?_
      · intro d mem
        cases List.mem_append.mp mem with
        | inl zero =>
            rw [List.eq_of_mem_replicate zero]
            rfl
        | inr mem => exact isdigit_decimalText d mem
      · exact List.ne_nil_of_length_pos (by omega)
      · rw [paddedText, decimal, List.foldl_append, foldl_replicate_zero]
        exact decimal_decimalText _

/-- What follows a byte in the quoted string: its end, an escape, or the next byte. -/
theorem head_quoteBytes (s rest : Bytes) :
    ∃ h, (quoteBytes s ++ 34 :: rest).head? = some h ∧
      (h = 34 ∨ h = 92 ∨ s.head? = some h ∧ iscntrl h = false) := by
  cases s with
  | nil => exact ⟨34, rfl, .inl rfl⟩
  | cons c s =>
      rw [quoteBytes, quoteByte]
      split
      · exact ⟨92, rfl, .inr (.inl rfl)⟩
      · split
        · exact ⟨92, rfl, .inr (.inl rfl)⟩
        · next notControl => exact ⟨c, rfl, .inr (.inr ⟨rfl, by simpa using notControl⟩)⟩

theorem before_quoteBytes {s rest : Bytes} (noDigit : s.head?.any isdigit = false) :
    before isdigit (quoteBytes s ++ 34 :: rest) = true := by
  obtain ⟨h, head, which⟩ := head_quoteBytes s rest
  rw [before, head, Option.any_some]
  rcases which with rfl | rfl | ⟨same, -⟩
  · rfl
  · rfl
  · rw [same, Option.any_some] at noDigit
    rw [noDigit]
    rfl

/-- The newline of an escape is not followed by the other half of a pair. -/
theorem inclinenumber_quoteBytes (s rest : Bytes) :
    inclinenumber 10 (quoteBytes s ++ 34 :: rest) = quoteBytes s ++ 34 :: rest := by
  obtain ⟨h, head, which⟩ := head_quoteBytes s rest
  cases text : quoteBytes s ++ 34 :: rest with
  | nil => rfl
  | cons h' text' =>
      rw [text, List.head?_cons, Option.some.injEq] at head
      subst head
      have skipped : (currIsNewline h' && h' != 10) = false := by
        have notReturn : h' ≠ 13 := by
          intro same
          rw [same] at which
          simp [iscntrl] at which
        simp only [currIsNewline, Bool.and_eq_false_iff, Bool.or_eq_false_iff,
          beq_eq_false_iff_ne, bne_eq_false_iff_eq]
        grind
      rw [inclinenumber, skipped]
      rfl

theorem readString_quoteBytes {s rest : Bytes} {n : Nat} (lt : s.length < n) :
    readString 34 n (quoteBytes s ++ 34 :: rest) = some (s, rest) := by
  induction s generalizing n with
  | nil =>
      cases n with
      | zero => cases lt
      | succ n => rfl
  | cons c s ih =>
      cases n with
      | zero => cases lt
      | succ n =>
          have later := ih (Nat.lt_of_succ_lt_succ lt)
          -- Behind a backslash the escape gives the byte itself.
          have escaped : ∀ text, readEscape text = some ([c], quoteBytes s ++ 34 :: rest) →
              readString 34 (n + 1) (92 :: text) = some (c :: s, rest) := by
            intro text read
            have notNewline : currIsNewline 92 = false := rfl
            simp [readString, notNewline, read, later]
          rw [quoteBytes, List.append_assoc, quoteByte]
          split
          · next special =>
              refine escaped (c :: (quoteBytes s ++ 34 :: rest)) ?_
              rcases special with rfl | rfl | rfl
              · rfl
              · rfl
              · have skipped := inclinenumber_quoteBytes s rest
                simp [readEscape, currIsNewline, skipped]
          · next plain =>
              split
              · exact escaped _ (readEscape_control before_quoteBytes)
              · next notControl =>
                  have notNewline : currIsNewline c = false := by
                    simp only [iscntrl, Bool.or_eq_true, decide_eq_true_eq,
                      beq_iff_eq] at notControl
                    simp only [currIsNewline, Bool.or_eq_false_iff, beq_eq_false_iff_ne]
                    grind
                  rw [not_or, not_or] at plain
                  simp [readString, plain, notNewline, later]

theorem length_le_quoteBytes (s : Bytes) : s.length ≤ (quoteBytes s).length := by
  induction s with
  | nil => exact Nat.le_refl _
  | cons c s ih =>
      have one : 1 ≤ (quoteByte s.head? c).length := by
        rw [quoteByte]
        split
        · exact Nat.le_succ _
        · split
          · exact Nat.succ_le_succ (Nat.zero_le _)
          · exact Nat.le_refl _
      rw [quoteBytes, List.length_append, List.length_cons]
      omega

/-- A quoted string is read as the string. -/
theorem llex_addquoted (s rest : Bytes) :
    llex (addquoted s ++ rest) = .token (.str s) rest := by
  have read : readString 34 ((quoteBytes s ++ 34 :: rest).length + 1)
      (quoteBytes s ++ 34 :: rest) = some (s, rest) := by
    apply readString_quoteBytes
    have := length_le_quoteBytes s
    rw [List.length_append]
    omega
  have text : addquoted s ++ rest = 34 :: (quoteBytes s ++ 34 :: rest) := by simp [addquoted]
  have notSpace : ¬ lisspace 34 = true := Bool.false_ne_true
  rw [text, llex, if_neg notSpace, if_pos (.inl rfl), read]

end Strings

section Lexed
variable {rest : Bytes} {ts : List Token}

def numToken (n : Nat) : Token :=
  .num (if n < 2 ^ 63 then .int (BitVec.ofNat 64 n) else .float (toDouble n))

def atomTokens : Atom (BitVec 64) → List Token
  | .str s => [.str s]
  | .num n => (if n.toInt < 0 then [.minus] else []) ++ [numToken n.toInt.natAbs]
  | .bool b => [if b then .true_ else .false_]

mutual

def valueTokens : Value → List Token
  | .atom a => atomTokens a
  | .table es => .lbrace :: (entriesTokens es ++ [.rbrace])

def entriesTokens : Entries → List Token
  | .nil => []
  | .cons k v rest =>
      .lbracket :: (atomTokens k ++ .rbracket :: .assign :: (valueTokens v ++
        .comma :: entriesTokens rest))

end

/-- A comma or a bracket, with which no numeral and no word goes on. -/
def Ends (rest : Bytes) : Prop := ∃ c s, rest = c :: s ∧ (c = 44 ∨ c = 93)

theorem Ends.before (ends : Ends rest) :
    before (fun c => lislalnum c || c == 46) rest = true ∧ before lislalnum rest = true ∧
      before (· == 45) rest = true := by
  obtain ⟨c, s, rfl, which⟩ := ends
  cases which with
  | inl comma => subst comma; exact ⟨rfl, rfl, rfl⟩
  | inr bracket => subst bracket; exact ⟨rfl, rfl, rfl⟩

theorem lexed_decimalText (n : Nat) (ends : Ends rest) (lexed : Lexed rest ts) :
    Lexed (decimalText n ++ rest) (numToken n :: ts) := by
  have read := llex_digits (decimalText_ne_nil (n := n)) isdigit_decimalText ends.before.1
  rw [str2num, decimal_decimalText] at read
  refine lexed.token read ?_
  have := List.length_pos_iff.mpr (decimalText_ne_nil (n := n))
  rw [List.length_append]
  omega

theorem before_decimalText {stop : UInt8 → Bool} (others : ∀ c, stop c = true → isdigit c = false)
    (n : Nat) (rest : Bytes) : before stop (decimalText n ++ rest) = true := by
  cases text : decimalText n with
  | nil => exact absurd text decimalText_ne_nil
  | cons c s =>
      have digit : isdigit c = true := isdigit_decimalText c (text ▸ List.mem_cons_self)
      have other : stop c = false := by
        by_contra stops
        rw [others c (Bool.not_eq_false _ ▸ stops)] at digit
        cases digit
      simp [before, other]

/-- A key, or a value that is no table. -/
theorem lexed_literal (a : Atom (BitVec 64)) (ends : Ends rest) (lexed : Lexed rest ts) :
    Lexed (literal a ++ rest) (atomTokens a ++ ts) := by
  cases a with
  | str s =>
      refine lexed.token (llex_addquoted s rest) ?_
      rw [literal, addquoted, List.length_append, List.length_cons]
      omega
  | num n =>
      have digits := lexed_decimalText n.toInt.natAbs ends lexed
      by_cases negative : n.toInt < 0
      · have read : llex (45 :: (decimalText n.toInt.natAbs ++ rest)) =
            .token .minus (decimalText n.toInt.natAbs ++ rest) :=
          llex_minus (before_decimalText (fun c minus => by rw [beq_iff_eq.mp minus]; rfl) _ rest)
        simpa [literal, tostring, atomTokens, negative] using digits.byte read
      · simpa [literal, tostring, atomTokens, negative] using digits
  | bool b =>
      have word : ∀ (c : UInt8) (front : Bytes), lislalpha c = true →
          (∀ c ∈ front, lislalnum c = true) →
          Lexed (c :: front ++ rest) (word (c :: front) :: ts) := by
        intro c front alpha all
        refine lexed.token (llex_word alpha all ends.before.2.1) ?_
        simp only [List.cons_append, List.length_cons, List.length_append]
        omega
      cases b with
      | false => exact word 102 (ascii "alse") rfl (List.all_eq_true.mp rfl)
      | true => exact word 116 (ascii "rue") rfl (List.all_eq_true.mp rfl)

theorem before_literal (a : Atom (BitVec 64)) (rest : Bytes) :
    before (fun c => c == 91 || c == 61) (literal a ++ rest) = true := by
  have digits : ∀ n, before (fun c => c == 91 || c == 61) (decimalText n ++ rest) = true := by
    intro n
    refine before_decimalText (fun c stops => ?_) n rest
    rw [Bool.or_eq_true, beq_iff_eq, beq_iff_eq] at stops
    cases stops with
    | inl bracket => rw [bracket]; rfl
    | inr assign => rw [assign]; rfl
  cases a with
  | str s => rfl
  | num n =>
      rw [show literal (.num n) = tostring (.num n) from rfl, tostring]
      split
      · rfl
      · exact digits _
  | bool b =>
      cases b with
      | false => rfl
      | true => rfl

theorem lexed_indent (n : Nat) (lexed : Lexed rest ts) : Lexed (wordsIndentBy n ++ rest) ts := by
  apply lexed.spaces
  intro c mem
  obtain ⟨l, inside, mem⟩ := List.mem_flatten.mp mem
  rw [List.eq_of_mem_replicate inside] at mem
  have space : ∀ c ∈ ascii "  ", lisspace c = true := List.all_eq_true.mp rfl
  exact space c mem

theorem lexed_newline (lexed : Lexed rest ts) : Lexed (ascii "\n" ++ rest) ts :=
  lexed.spaces (List.all_eq_true.mp rfl)

/-- A table, when its entries are read as they should. -/
theorem lexed_braces (deep : Nat) {entries : Bytes} {inner : List Token}
    (read : ∀ rest ts, Lexed rest ts → Lexed (entries ++ rest) (inner ++ ts))
    (lexed : Lexed rest ts) :
    Lexed (braces deep entries ++ rest) (.lbrace :: (inner ++ .rbrace :: ts)) := by
  have closed : Lexed (ascii "\x7d" ++ rest) (.rbrace :: ts) := lexed.byte rfl
  have opened := lexed_newline (read _ _ (lexed_indent deep closed))
  have whole := lexed_indent deep (opened.byte (t := .lbrace) (c := 123) rfl)
  have text : braces deep entries ++ rest = wordsIndentBy deep ++
      123 :: (ascii "\n" ++ (entries ++ (wordsIndentBy deep ++ (ascii "\x7d" ++ rest)))) := by
    simp [braces, ascii]
  rw [text]
  exact whole

/-- The key and the brackets around it, before a value. -/
theorem lexed_key (k : Atom (BitVec 64)) (stop : before (· == 61) rest = true)
    (lexed : Lexed rest ts) :
    Lexed (ascii "[" ++ literal k ++ ascii "]=" ++ rest)
      (.lbracket :: (atomTokens k ++ .rbracket :: .assign :: ts)) := by
  have assigned := lexed.byte (llex_assign stop)
  have closed : Lexed (93 :: 61 :: rest) (.rbracket :: .assign :: ts) := assigned.byte rfl
  have key := lexed_literal k ⟨93, _, rfl, .inr rfl⟩ closed
  have opened := key.byte (llex_lbracket (before_literal k _))
  have text : ascii "[" ++ literal k ++ ascii "]=" ++ rest =
      91 :: (literal k ++ 93 :: 61 :: rest) := by
    simp [ascii]
  rw [text]
  exact opened

theorem before_value (v : Value) (deep : Nat) (rest : Bytes) :
    before (· == 61) (valueString v deep ++ rest) = true := by
  cases v with
  | table es => rfl
  | atom a =>
      have stop := before_literal a rest
      rw [valueString]
      cases text : literal a ++ rest with
      | nil => rfl
      | cons c s =>
          rw [text] at stop
          simp only [before, List.head?_cons, Option.any_some, Bool.not_eq_true',
            Bool.or_eq_false_iff] at stop ⊢
          exact stop.2

mutual

theorem lexed_value (v : Value) (deep : Nat) {rest : Bytes} {ts : List Token} (ends : Ends rest)
    (lexed : Lexed rest ts) : Lexed (valueString v deep ++ rest) (valueTokens v ++ ts) := by
  cases v with
  | atom a => exact lexed_literal a ends lexed
  | table es =>
      have table := lexed_newline
        (lexed_braces (deep + 2) (fun _ _ => lexed_entries es (deep + 2)) lexed)
      simpa [valueString, valueTokens] using table

theorem lexed_entries (es : Entries) (deep : Nat) {rest : Bytes} {ts : List Token}
    (lexed : Lexed rest ts) : Lexed (entriesString es deep ++ rest) (entriesTokens es ++ ts) := by
  cases es with
  | nil => exact lexed
  | cons k v es =>
      have later := lexed_newline (lexed_entries es deep lexed)
      have comma : Lexed (44 :: (ascii "\n" ++ (entriesString es deep ++ rest)))
          (.comma :: (entriesTokens es ++ ts)) := later.byte rfl
      have value := lexed_value v deep ⟨44, _, rfl, .inl rfl⟩ comma
      have entry := lexed_indent (deep + 1) (lexed_key k (before_value v deep _) value)
      have newline : ascii ",\n" = 44 :: ascii "\n" := rfl
      simpa [entriesString, entriesTokens, newline] using entry

end

end Lexed

section Spec

def ofAtom : Atom (BitVec 64) → Atom Number
  | .str s => .str s
  | .num n => .num (.int n)
  | .bool b => .bool b

def Entries.keys : Entries → List (Atom (BitVec 64))
  | nil => []
  | cons k _ rest => k :: rest.keys

mutual

/-- The structure of a value. -/
def Value.contents : Value → Obj
  | .atom a => .atom (ofAtom a)
  | .table es => .table es.get

def Entries.get : Entries → Atom Number → Option Obj
  | .nil, _ => none
  | .cons k v rest, k' => if k' = ofAtom k then some v.contents else rest.get k'

end

mutual

/-- The integers among the values are greater than the smallest one, and a key stands once. -/
def Value.Ok : Value → Prop
  | .atom a => a ≠ .num (BitVec.intMin 64)
  | .table es => es.Ok

def Entries.Ok : Entries → Prop
  | .nil => True
  | .cons k v rest => k ∉ rest.keys ∧ v.Ok ∧ rest.Ok

end

/-- The C levels of a key or a value that is no table; a minus takes one more. -/
def atomLevels : Atom (BitVec 64) → Nat
  | .num n => if n.toInt < 0 then 2 else 1
  | _ => 1

mutual

/-- The C levels that the parser needs for a value. -/
def Value.levels : Value → Nat
  | .atom a => atomLevels a
  | .table es => es.levels + 1

def Entries.levels : Entries → Nat
  | .nil => 0
  | .cons k v rest => max (max (atomLevels k) v.levels) rest.levels

end

end Spec

section Parsed
variable {levels : Nat} {ts : List Token}

/-- What is read for a number. The digits of the smallest integer are those of a float. -/
def readNum (n : BitVec 64) : Number :=
  if n = BitVec.intMin 64 then .float (-2 ^ 63) else .int n

def readAtom : Atom (BitVec 64) → Atom Number
  | .num n => .num (readNum n)
  | a => ofAtom a

theorem key_readAtom (a : Atom (BitVec 64)) : (readAtom a).key = ofAtom a := by
  cases a with
  | str s | bool b => rfl
  | num n =>
      by_cases smallest : n = BitVec.intMin 64
      · subst smallest
        decide
      · simp [readAtom, readNum, smallest, Atom.key, Number.key, ofAtom]

theorem readAtom_eq {a : Atom (BitVec 64)} (ok : a ≠ .num (BitVec.intMin 64)) :
    readAtom a = ofAtom a := by
  cases a with
  | str s | bool b => rfl
  | num n =>
      have other : n ≠ BitVec.intMin 64 := fun same => ok (same ▸ rfl)
      simp [readAtom, readNum, other, ofAtom]

theorem numToken_natAbs (n : BitVec 64) (nonneg : ¬ n.toInt < 0) :
    numToken n.toInt.natAbs = .num (readNum n) := by
  have other : n ≠ BitVec.intMin 64 := by
    rintro rfl
    exact nonneg (by decide)
  have same : n.toInt.natAbs = n.toNat ∧ n.toNat < 2 ^ 63 := by
    have := n.isLt
    rw [BitVec.toInt_eq_toNat_cond] at nonneg ⊢
    split at nonneg <;> omega
  rw [numToken, same.1, if_pos same.2, readNum, if_neg other, BitVec.ofNat_toNat,
    BitVec.setWidth_eq]

theorem numToken_neg (n : BitVec 64) (negative : n.toInt < 0) :
    ∃ m, numToken n.toInt.natAbs = .num m ∧ m.neg = readNum n := by
  have same : n.toInt.natAbs = 2 ^ 64 - n.toNat ∧ 2 ^ 63 ≤ n.toNat := by
    have := n.isLt
    rw [BitVec.toInt_eq_toNat_cond] at negative ⊢
    split at negative <;> omega
  by_cases smallest : n = BitVec.intMin 64
  · subst smallest
    exact ⟨.float (2 ^ 63), by decide, by decide⟩
  · have small : n.toInt.natAbs < 2 ^ 63 := by
      have other : n.toNat ≠ 2 ^ 63 := fun equal => smallest (BitVec.eq_of_toNat_eq equal)
      omega
    refine ⟨.int (BitVec.ofNat 64 n.toInt.natAbs), by rw [numToken, if_pos small], ?_⟩
    rw [readNum, if_neg smallest, Number.neg, same.1]
    congr 1
    apply BitVec.eq_of_toNat_eq
    have := n.isLt
    rw [BitVec.toNat_neg, BitVec.toNat_ofNat]
    omega

theorem subexpr_num (m : Number) :
    subexpr levels (.num m :: ts) =
      if 1 ≤ levels then some (.atom (.num m), ts) else none := by
  cases levels with
  | zero => rfl
  | succ levels => simp [subexpr]

theorem subexpr_atom (levels : Nat) (a : Atom (BitVec 64)) (ts : List Token) :
    subexpr levels (atomTokens a ++ ts) =
      if atomLevels a ≤ levels then some (.atom (readAtom a), ts) else none := by
  cases a with
  | str s =>
      cases levels with
      | zero => rfl
      | succ levels => simp [atomLevels, atomTokens, subexpr, readAtom, ofAtom]
  | bool b =>
      cases levels with
      | zero => rfl
      | succ levels => cases b <;> simp [atomLevels, atomTokens, subexpr, readAtom, ofAtom]
  | num n =>
      rw [atomTokens, atomLevels, readAtom]
      by_cases negative : n.toInt < 0
      · obtain ⟨m, token, neg⟩ := numToken_neg n negative
        rw [if_pos negative, if_pos negative, token]
        cases levels with
        | zero => rfl
        | succ levels =>
            rw [List.append_assoc, List.singleton_append, List.singleton_append, subexpr,
              subexpr_num]
            by_cases room : 1 ≤ levels
            · rw [if_pos room, if_pos (Nat.succ_le_succ room), ← neg]
            · rw [if_neg room, if_neg fun le => room (Nat.le_of_succ_le_succ le)]
      · rw [if_neg negative, if_neg negative, numToken_natAbs n negative]
        exact subexpr_num _

/-- The entries are written one after another. -/
def Entries.fill : Entries → (Atom Number → Option Obj) → Atom Number → Option Obj
  | nil, t => t
  | cons k v rest, t => rest.fill (Function.update t (ofAtom k) (some v.contents))

def Entries.size : Entries → Nat
  | nil => 0
  | cons _ _ rest => rest.size + 1

theorem size_le_length (es : Entries) : es.size ≤ (entriesTokens es).length := by
  induction es using Entries.rec (motive_1 := fun _ => True) with
  | atom _ => trivial
  | table _ _ => trivial
  | nil => exact Nat.zero_le _
  | cons k v rest _ ih =>
      simp only [Entries.size, entriesTokens, List.length_cons, List.length_append]
      omega

theorem ofAtom_injective {a b : Atom (BitVec 64)} (same : ofAtom a = ofAtom b) : a = b := by
  cases a <;> cases b <;> simp_all [ofAtom]

theorem get_none {k : Atom (BitVec 64)} {es : Entries} (absent : k ∉ es.keys) :
    es.get (ofAtom k) = none := by
  induction es using Entries.rec (motive_1 := fun _ => True) with
  | atom _ => trivial
  | table _ _ => trivial
  | nil => rfl
  | cons k' v rest _ ih =>
      rw [Entries.keys, List.mem_cons, not_or] at absent
      have other : ofAtom k ≠ ofAtom k' := fun same => absent.1 (ofAtom_injective same)
      rw [Entries.get, if_neg other]
      exact ih absent.2

/-- With each key once, the order in which the entries are written does not matter. -/
theorem fill_eq {es : Entries} (ok : es.Ok) (t : Atom Number → Option Obj) (k' : Atom Number) :
    es.fill t k' = (es.get k').or (t k') := by
  induction es using Entries.rec (motive_1 := fun _ => True) generalizing t with
  | atom _ => trivial
  | table _ _ => trivial
  | nil => rfl
  | cons k v rest _ ih =>
      obtain ⟨fresh, -, ok⟩ := ok
      rw [Entries.fill, ih ok, Entries.get]
      by_cases here : k' = ofAtom k
      · subst here
        rw [if_pos rfl, get_none fresh, Function.update_self]
        rfl
      · rw [if_neg here, Function.update_of_ne here]

mutual

/-- A value is read when there are levels for it, and is then the value. -/
theorem subexpr_value (v : Value) (ok : v.Ok) (levels : Nat) (ts : List Token) :
    subexpr levels (valueTokens v ++ ts) =
      if v.levels ≤ levels then some (v.contents, ts) else none := by
  cases v with
  | atom a =>
      rw [valueTokens, Value.levels, Value.contents, subexpr_atom, readAtom_eq ok]
  | table es =>
      cases levels with
      | zero => rfl
      | succ levels =>
          have tokens : valueTokens (.table es) ++ ts =
              .lbrace :: (entriesTokens es ++ .rbrace :: ts) := by simp [valueTokens]
          have enough : es.size < (entriesTokens es ++ .rbrace :: ts).length + 1 := by
            have := size_le_length es
            rw [List.length_append]
            omega
          have read := fields_entries es ok levels enough ts fun _ => none
          have contents : es.fill (fun _ => none) = es.get := by
            funext k
            rw [fill_eq ok, Option.or_none]
          rw [tokens, subexpr, read, contents, Value.levels, Value.contents]
          simp only [Nat.add_le_add_iff_right]

theorem fields_entries (es : Entries) (ok : es.Ok) (levels : Nat) {n : Nat} (lt : es.size < n)
    (ts : List Token) (t : Atom Number → Option Obj) :
    fields (subexpr levels) n (entriesTokens es ++ .rbrace :: ts) t =
      if es.levels ≤ levels then some (.table (es.fill t), ts) else none := by
  cases n with
  | zero => cases lt
  | succ n =>
      cases es with
      | nil => rfl
      | cons k v es =>
          obtain ⟨-, okValue, okRest⟩ := ok
          have tokens : entriesTokens (.cons k v es) ++ .rbrace :: ts =
              .lbracket :: (atomTokens k ++ .rbracket :: .assign :: (valueTokens v ++
                .comma :: (entriesTokens es ++ .rbrace :: ts))) := by simp [entriesTokens]
          have key := subexpr_atom levels k (.rbracket :: .assign ::
            (valueTokens v ++ .comma :: (entriesTokens es ++ .rbrace :: ts)))
          have value := subexpr_value v okValue levels
            (.comma :: (entriesTokens es ++ .rbrace :: ts))
          have later := fields_entries es okRest levels (Nat.lt_of_succ_lt_succ lt) ts
            (Function.update t (ofAtom k) (some v.contents))
          rw [tokens, fields, key, Entries.levels, Entries.fill]
          by_cases roomKey : atomLevels k ≤ levels
          · by_cases roomValue : v.levels ≤ levels
            · simp only [roomKey, if_true, value, roomValue, key_readAtom, later, Nat.max_le,
                true_and]
            · have deep : ¬ max (max (atomLevels k) v.levels) es.levels ≤ levels := by omega
              simp only [roomKey, if_true, value, roomValue, if_false, deep]
          · have deep : ¬ max (max (atomLevels k) v.levels) es.levels ≤ levels := by omega
            simp only [roomKey, if_false, deep]

end

end Parsed

section Main

/-- The tokens of the chunk that is loaded. -/
def chunkTokens (es : Entries) : List Token := .return_ :: valueTokens (.table es)

theorem lexed_chunk (es : Entries) :
    Lexed (ascii "return " ++ dumptree (.table es)) (chunkTokens es) := by
  have table := lexed_braces 0 (fun _ _ => lexed_entries es 0) lexed_nil
  rw [List.append_nil] at table
  have space : Lexed (ascii " " ++ dumptree (.table es)) _ :=
    table.spaces (List.all_eq_true.mp rfl)
  have read : llex (ascii "return" ++ (ascii " " ++ dumptree (.table es))) =
      .token .return_ (ascii " " ++ dumptree (.table es)) :=
    llex_word (show lislalpha 114 = true from rfl)
      (show ∀ c ∈ ascii "eturn", lislalnum c = true from List.all_eq_true.mp rfl) rfl
  have shorter : (ascii " " ++ dumptree (.table es)).length <
      (ascii "return" ++ (ascii " " ++ dumptree (.table es))).length := by
    have six : (ascii "return").length = 6 := rfl
    rw [@List.length_append _ (ascii "return"), six]
    omega
  exact space.token read shorter

/-- The C levels that the statement and a value take of those that are left. -/
theorem statement_chunk (es : Entries) (ok : es.Ok) (levels : Nat) :
    statement levels (chunkTokens es) =
      if (Value.table es).levels + 1 ≤ levels then some (Value.table es).contents else none := by
  cases levels with
  | zero => rfl
  | succ levels =>
      have read := subexpr_value (.table es) ok levels []
      rw [List.append_nil] at read
      rw [chunkTokens, statement, read]
      by_cases room : (Value.table es).levels ≤ levels
      · rw [if_pos room, if_pos (Nat.succ_le_succ room)]
      · rw [if_neg room, if_neg fun le => room (Nat.le_of_succ_le_succ le)]

theorem load_chunk (nCcalls : Nat) (accepts : List Token → Bool) (es : Entries) :
    load nCcalls accepts (ascii "return " ++ dumptree (.table es)) =
      if accepts (chunkTokens es) then statement (maxCCalls - 1 - nCcalls) (chunkTokens es)
      else none := by
  have lexed := lexed_chunk es _ (Nat.lt_succ_self _)
  rw [load, lexed]

/-- A table is loaded as it is when its levels fit into those of the parser and the code
generator accepts it, and is not loaded else. -/
theorem load_dumptree (nCcalls : Nat) (accepts : List Token → Bool) (es : Entries)
    (ok : es.Ok) :
    load nCcalls accepts (ascii "return " ++ dumptree (.table es)) =
      if nCcalls + 1 + (Value.table es).levels < maxCCalls ∧ accepts (chunkTokens es) = true then
        some (Value.table es).contents
      else none := by
  have room : (Value.table es).levels + 1 ≤ maxCCalls - 1 - nCcalls ↔
      nCcalls + 1 + (Value.table es).levels < maxCCalls := by
    omega
  rw [load_chunk, statement_chunk es ok]
  simp only [room]
  cases accepts (chunkTokens es) with
  | true => simp
  | false => simp

/-- `{ ["a\n"] = -5, [true] = {} }`. -/
def smallTable : Entries :=
  .cons (.str (ascii "a\n")) (.atom (.num (-5))) (.cons (.bool true) (.table .nil) .nil)

theorem load_dumptree_small :
    load 3 (fun _ => true) (ascii "return " ++ dumptree (.table smallTable)) =
      some (Value.table smallTable).contents := by
  have ok : smallTable.Ok := by
    simp only [smallTable, Entries.Ok, Value.Ok, Entries.keys]
    decide
  have room : 3 + 1 + (Value.table smallTable).levels < maxCCalls := by decide
  exact (load_dumptree 3 (fun _ => true) smallTable ok).trans (if_pos ⟨room, rfl⟩)

example : dumptree (.table (.cons (.num (-1)) (.table .nil) .nil)) =
    ascii "\x7b\n  [-1]=\n    \x7b\n    \x7d,\n\x7d" := by decide

/-- So many tables inside a table. -/
def nested : Nat → Entries
  | 0 => .nil
  | n + 1 => .cons (.num 1) (.table (nested n)) .nil

theorem nested_ok (n : Nat) : (nested n).Ok := by
  induction n with
  | zero => trivial
  | succ n ih => exact ⟨List.not_mem_nil, ih, trivial⟩

theorem levels_nested (n : Nat) : n ≤ (nested n).levels := by
  induction n with
  | zero => exact Nat.zero_le _
  | succ n ih =>
      simp only [nested, Entries.levels, Value.levels]
      omega

/-- Two hundred tables inside each other are more than the parser has levels for. -/
theorem load_nested_fails :
    (nested 199).Ok ∧ ∀ nCcalls accepts,
      load nCcalls accepts (ascii "return " ++ dumptree (.table (nested 199))) = none := by
  refine ⟨nested_ok 199, fun nCcalls accepts => ?_⟩
  have deep : ¬ (Value.table (nested 199)).levels + 1 ≤ maxCCalls - 1 - nCcalls := by
    have := levels_nested 199
    simp only [Value.levels, maxCCalls]
    omega
  rw [load_chunk, statement_chunk _ (nested_ok 199), if_neg deep, ite_self]

end Main

end Qiuqiu.Text.Dumptree
