import Mathlib.Data.Prod.Lex
import Qiuqiu.Snowflake.CreateId

/-!
What an id says (skynet/lualib-src/lua-skynet.c, the loops of `lcreate_id`). Every
field has a width of its own, so an id is a fixed number of digits, and the ids
sort by the server, the robot, the second and the sequence number.
-/
namespace Qiuqiu.Snowflake

/-- The numbers that the encoding is made for. -/
structure Fields where
  serverId : Nat
  robotNo : Nat
  nowtime : Nat
  seq : Nat
  server_pos : 1 ≤ serverId
  server_lt : serverId < 2 ^ serverMaxBit
  robot_pos : 1 ≤ robotNo
  robot_lt : robotNo < 2 ^ sfStep
  time_lt : nowtime < 2 ^ timeMaxBit
  seq_lt : seq < 2 ^ seqMaxBit

namespace Fields
variable (f : Fields)

/-- The numbers in the order of their weight. -/
def key : ℕ ×ₗ ℕ ×ₗ ℕ ×ₗ ℕ := toLex (f.serverId, toLex (f.robotNo, toLex (f.nowtime, f.seq)))

def encode : Except Error String := format f.serverId f.robotNo f.nowtime f.seq

/-- The digits of an id. -/
def text : List Char :=
  written 6 f.serverId ++ (written 2 f.robotNo ++ (written 7 f.nowtime ++ written 6 f.seq))

end Fields

/-- The bytes that `strcmp` compares: the characters of an id are bytes. -/
def bytes (id : String) : List Nat := id.toList.map Char.toNat

theorem encode_eq (f : Fields) : f.encode = .ok (String.ofList f.text) := by
  have server : f.serverId % 2 ^ 32 = f.serverId :=
    Nat.mod_eq_of_lt (f.server_lt.trans (by decide))
  have robot : f.robotNo % 2 ^ 8 = f.robotNo := Nat.mod_eq_of_lt (f.robot_lt.trans (by decide))
  rw [Fields.encode, format_eq, server, robot, Fields.text]

theorem digit_mem (d : Nat) (small : d < 32) : digit d ∈ baseChar :=
  List.mem_of_getElem? (baseChar_get small)

theorem toNat_digit_lt_iff (d : Nat) (small : d < 32) (d' : Nat) (small' : d' < 32) :
    (Char.toNat ∘ digit) d < (Char.toNat ∘ digit) d' ↔ d < d' := by
  have all : ∀ d < 32, ∀ d' < 32, (digit d).toNat < (digit d').toNat ↔ d < d' := by decide
  exact all d small d' small'

theorem bytes_written (width n : Nat) :
    (written width n).map Char.toNat = Digits.digits 32 (Char.toNat ∘ digit) width n :=
  Digits.map_digits Char.toNat width n

/-- The ids sort field by field. -/
theorem bytes_text_lt_iff (f f' : Fields) :
    f.text.map Char.toNat < f'.text.map Char.toNat ↔ f.key < f'.key := by
  have weigh := @Digits.digits_append_lt_iff Nat 32 (Char.toNat ∘ digit) _ (by decide)
    toNat_digit_lt_iff
  have robot : f.robotNo < 32 ^ 2 := f.robot_lt.trans (by decide)
  have robot' : f'.robotNo < 32 ^ 2 := f'.robot_lt.trans (by decide)
  simp only [Fields.text, List.map_append, bytes_written]
  rw [weigh f.server_lt f'.server_lt, weigh robot robot', weigh f.time_lt f'.time_lt,
    Digits.digits_lt_iff (by decide) toNat_digit_lt_iff f.seq_lt f'.seq_lt]
  simp only [Fields.key, Prod.Lex.toLex_lt_toLex]

theorem text_length (f : Fields) : f.text.length = 21 := by
  simp only [Fields.text, written, List.length_append, Digits.length_digits]

theorem mem_text {f : Fields} {c : Char} (mem : c ∈ f.text) : c ∈ baseChar := by
  simp only [Fields.text, List.mem_append] at mem
  have alphabet : ∀ {width n : Nat}, c ∈ written width n → c ∈ baseChar := by
    intro width n digits
    exact Digits.mem_digits (p := (· ∈ baseChar)) (by decide) digit_mem digits
  exact mem.elim alphabet fun mem => mem.elim alphabet fun mem => mem.elim alphabet alphabet

/-- What the encoding has to give for any two lists of numbers: both checks are
passed, and the ids are of one length, different and in the order of the numbers. -/
structure Encodes (f f' : Fields) : Prop where
  made : ∃ id, f.encode = .ok id ∧ id.length = 21 ∧ ∀ c ∈ id.toList, c ∈ baseChar
  distinct : f.key ≠ f'.key → ∀ id id', f.encode = .ok id → f'.encode = .ok id' → id ≠ id'
  sorted : ∀ id id', f.encode = .ok id → f'.encode = .ok id' →
    (bytes id < bytes id' ↔ f.key < f'.key)

theorem encodes (f f' : Fields) : Encodes f f' := by
  have sorted : ∀ id id', f.encode = .ok id → f'.encode = .ok id' →
      (bytes id < bytes id' ↔ f.key < f'.key) ∧ (bytes id' < bytes id ↔ f'.key < f.key) := by
    intro id id' made made'
    rw [encode_eq] at made made'
    cases made
    cases made'
    simp only [bytes, String.toList_ofList]
    exact ⟨bytes_text_lt_iff f f', bytes_text_lt_iff f' f⟩
  constructor
  · refine ⟨_, encode_eq f, ?_, ?_⟩
    · rw [String.length_ofList, text_length]
    · intro c mem
      rw [String.toList_ofList] at mem
      exact mem_text mem
  · rintro differ id id' made made' rfl
    obtain ⟨less, more⟩ := sorted id id made made'
    cases lt_or_gt_of_ne differ with
    | inl below => exact lt_irrefl _ (less.mpr below)
    | inr above => exact lt_irrefl _ (more.mpr above)
  · intro id id' made made'
    exact (sorted id id' made made').1

/-- Two lists of numbers at the ends of their ranges. -/
theorem encodes_ends :
    ∃ f f' : Fields, f.encode = .ok "0000010v0000005vvvvvv" ∧
      f'.encode = .ok "vvvvvv01vvvvvvv000000" ∧ f.key < f'.key ∧ Encodes f f' := by
  let f : Fields := ⟨1, 31, 5, 2 ^ 30 - 1, by decide, by decide, by decide, by decide, by decide,
    by decide⟩
  let f' : Fields := ⟨2 ^ 30 - 1, 1, 2 ^ 35 - 1, 0, by decide, by decide, by decide, by decide,
    by decide, by decide⟩
  have made : format 1 31 5 (2 ^ 30 - 1) = .ok "0000010v0000005vvvvvv" := rfl
  have made' : format (2 ^ 30 - 1) 1 (2 ^ 35 - 1) 0 = .ok "vvvvvv01vvvvvvv000000" := rfl
  refine ⟨f, f', made, made', ?_, encodes f f'⟩
  exact Prod.Lex.toLex_lt_toLex.mpr (.inl (by decide))

end Qiuqiu.Snowflake
