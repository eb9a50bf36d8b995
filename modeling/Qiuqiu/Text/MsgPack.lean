import Mathlib.Data.List.Basic
import Qiuqiu.Base.Bytes
import Qiuqiu.Base.Pattern
import Qiuqiu.Base.While

/-!
The text protocol of lualib/msg_pack.lua. A message is a list of fields with commas
between them and a line break at the end. The decoder takes off one field a round,
up to the first comma that is left; what has no comma is the last field.
-/
namespace Qiuqiu.Text.MsgPack
open Pattern While

def comma : UInt8 := 44

/-- `(.-),(.*)`. -/
def pattern : List (Item UInt8) :=
  [.opens, .minus .any, .closes, .single (.char comma), .opens, .star .any, .closes]

/-- A round of the loop of `str_unpack`, with `msgstr` and `msg`. -/
def unpackRound (s : Bytes × List Bytes) :
    Round (Bytes × List Bytes) (Option Bytes × List Bytes) :=
  let (msgstr, msg) := s
  match strMatch pattern msgstr with
  | some (arg :: rest :: _) => .next (rest, msg ++ [arg])
  | _ =>
      let msg := msg ++ [msgstr]
      .leave (msg.head?, msg)

/-- `str_unpack(msgstr)` returns these two values. -/
def StrUnpack (msgstr : Bytes) (first : Option Bytes) (msg : List Bytes) : Prop :=
  Returns unpackRound (msgstr, []) (first, msg)

/-- `str_pack(cmd, msg)`. -/
def strPack (_cmd : Bytes) (msg : List Bytes) : Bytes := [comma].intercalate msg ++ ascii "\r\n"

section Fields
variable {s arg rest : Bytes} {msg : List Bytes}

/-- The rest of the pattern, behind the field that began at `init`. -/
theorem doMatch_comma (init rest : Bytes) :
    doMatch (pattern.drop 2) (comma :: rest) [.unfinished init] =
      some ([], [.closed rest, .closed (init.take (init.length - (rest.length + 1)))]) := by
  change maxExpand .any _ rest = _
  refine maxExpand_any ?_
  simp [doMatch, endCapture]

theorem doMatch_other {t : Bytes} (init : Bytes) (other : t.head? ≠ some comma) :
    doMatch (pattern.drop 2) t [.unfinished init] = none := by
  cases t with
  | nil => rfl
  | cons c t =>
      refine if_neg ?_
      intro same
      exact other (congrArg some (of_decide_eq_true same))

theorem head_ne_comma {t : Bytes} (free : comma ∉ t) : t.head? ≠ some comma := by
  intro head
  exact free (List.mem_of_mem_head? head)

theorem doMatch_field (free : comma ∉ arg) :
    doMatch pattern (arg ++ comma :: rest) [] = some ([], [.closed rest, .closed arg]) := by
  change minExpand .any (fun t => doMatch (pattern.drop 2) t [.unfinished (arg ++ comma :: rest)])
    (arg ++ comma :: rest) = _
  refine minExpand_any ?_ ?_
  · intro u nonempty right
    refine doMatch_other _ ?_
    rw [List.head?_append_of_ne_nil u nonempty]
    exact head_ne_comma fun mem => free (right.subset mem)
  · rw [doMatch_comma]
    simp

theorem doMatch_last (free : comma ∉ s) : doMatch pattern s [] = none := by
  change minExpand .any (fun t => doMatch (pattern.drop 2) t [.unfinished s]) s = none
  refine minExpand_none fun t right => ?_
  exact doMatch_other _ (head_ne_comma fun mem => free (right.subset mem))

theorem unpackRound_field (free : comma ∉ arg) :
    unpackRound (arg ++ comma :: rest, msg) = .next (rest, msg ++ [arg]) := by
  simp only [unpackRound, strMatch_head (doMatch_field free)]
  rfl

theorem unpackRound_last (free : comma ∉ s) :
    unpackRound (s, msg) = .leave ((msg ++ [s]).head?, msg ++ [s]) := by
  have none : strMatch pattern s = none :=
    strMatch_none fun t right => doMatch_last fun mem => free (right.subset mem)
  simp only [unpackRound, none]

/-- The loop splits the message at its commas. -/
theorem returns_splitOn (s : Bytes) (msg : List Bytes) :
    Returns unpackRound (s, msg) ((msg ++ s.splitOn comma).head?, msg ++ s.splitOn comma) := by
  induction h : s.length using Nat.strong_induction_on generalizing s msg with
  | _ n ih =>
      by_cases inside : comma ∈ s
      · obtain ⟨arg, rest, split, free⟩ := List.eq_append_cons_of_mem inside
        subst split
        have shorter : rest.length < n := by
          rw [← h, List.length_append, List.length_cons]
          omega
        rw [returns_next (unpackRound_field free), List.splitOn_append_cons_self,
          List.splitOn_eq_singleton free, ← List.append_assoc]
        exact ih rest.length shorter rest (msg ++ [arg]) rfl
      · rw [List.splitOn_eq_singleton inside]
        exact (returns_leave (unpackRound_last inside)).mpr rfl

theorem strUnpack_splitOn (s : Bytes) : StrUnpack s (s.splitOn comma).head? (s.splitOn comma) :=
  returns_splitOn s []

end Fields

/-- What is packed without its line break is unpacked to the fields, and what is unpacked is
packed to the string with a line break. -/
theorem strUnpack_strPack (cmd : Bytes) :
    (∀ msg body, msg ≠ [] → (∀ field ∈ msg, comma ∉ field) →
      strPack cmd msg = body ++ ascii "\r\n" → StrUnpack body msg.head? msg) ∧
    ∀ s, ∃ msg, StrUnpack s msg.head? msg ∧
      (∀ first msg', StrUnpack s first msg' → first = msg.head? ∧ msg' = msg) ∧
      strPack cmd msg = s ++ ascii "\r\n" := by
  constructor
  · intro msg body nonempty free packed
    have same : [comma].intercalate msg = body := List.append_cancel_right packed
    have unpacked := strUnpack_splitOn body
    rwa [← same, List.splitOn_intercalate comma free nonempty, same] at unpacked
  · intro s
    refine ⟨s.splitOn comma, strUnpack_splitOn s, ?_, ?_⟩
    · intro first msg' unpacked
      exact Prod.mk.inj (Returns.unique unpacked (strUnpack_splitOn s))
    · rw [strPack, List.intercalate_splitOn]

/-- The fields "a", "" and "b", and the string ",a,". -/
theorem strUnpack_strPack_fields :
    StrUnpack (ascii "a,,b") (some (ascii "a")) [ascii "a", [], ascii "b"] ∧
      ∃ msg, StrUnpack (ascii ",a,") msg.head? msg ∧
        strPack [] msg = ascii ",a,\r\n" := by
  constructor
  · exact (strUnpack_strPack []).1 [ascii "a", [], ascii "b"] (ascii "a,,b") (by decide)
      (by decide) (by decide)
  · obtain ⟨msg, unpacked, -, packed⟩ := (strUnpack_strPack []).2 (ascii ",a,")
    exact ⟨msg, unpacked, packed⟩

end Qiuqiu.Text.MsgPack
