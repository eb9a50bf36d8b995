import Mathlib.Data.List.Forall2
import Qiuqiu.Net.Seri

/-!
What is packed is unpacked: the blocks hold the pushes one after the other, and the stream of
a value is read as the value.
-/
namespace Qiuqiu.Net.Seri
open LittleEndian

section Blocks
variable {b : WriteBlock} {buffer : Bytes} {rounds : Nat}

def WriteBlock.content (b : WriteBlock) : Bytes := b.full.flatten ++ b.current

structure WriteBlock.Inv (b : WriteBlock) : Prop where
  full : ∀ block ∈ b.full, block.length = blockSize
  current : b.current.length ≤ blockSize
  len : b.len = b.content.length

/-- A push comes behind what is there, over as many blocks as it takes. -/
theorem wbPush_content (inv : b.Inv) (enough : buffer.length < rounds) :
    (wbPush rounds b buffer).Inv ∧ (wbPush rounds b buffer).content = b.content ++ buffer := by
  induction rounds generalizing b buffer with
  | zero => cases enough
  | succ rounds ih =>
      rw [wbPush]
      -- behind the first lines the block has room
      have room : ∃ b' : WriteBlock,
          (if b.current.length = blockSize then ⟨b.full ++ [b.current], [], b.len⟩ else b) = b' ∧
            b'.Inv ∧ b'.content = b.content ∧ b'.current.length < blockSize := by
        by_cases filled : b.current.length = blockSize
        · rw [if_pos filled]
          have content : WriteBlock.content ⟨b.full ++ [b.current], [], b.len⟩ = b.content := by
            rw [WriteBlock.content, List.flatten_append, List.flatten_singleton, List.append_nil]
            rfl
          refine ⟨_, rfl, ⟨?_, Nat.zero_le _, ?_⟩, content, (by decide : 0 < blockSize)⟩
          · exact List.forall_mem_append.mpr ⟨inv.full, List.forall_mem_singleton.mpr filled⟩
          · rw [content]
            exact inv.len
        · rw [if_neg filled]
          exact ⟨b, rfl, inv, rfl, Nat.lt_of_le_of_ne inv.current filled⟩
      obtain ⟨b', eq, inv', same, room⟩ := room
      dsimp only
      rw [eq, ← same]
      split
      · rename_i fits
        have content : WriteBlock.content
            { b' with current := b'.current ++ buffer, len := b'.len + buffer.length } =
              b'.content ++ buffer := (List.append_assoc ..).symm
        refine ⟨⟨inv'.full, ?_, ?_⟩, content⟩
        · rw [List.length_append]
          exact fits
        · rw [content, List.length_append]
          exact congrArg (· + buffer.length) inv'.len
      · rename_i exceeds
        have content : WriteBlock.content ⟨b'.full,
            b'.current ++ buffer.take (blockSize - b'.current.length),
            b'.len + (blockSize - b'.current.length)⟩ =
              b'.content ++ buffer.take (blockSize - b'.current.length) :=
          (List.append_assoc ..).symm
        have taken : (buffer.take (blockSize - b'.current.length)).length =
            blockSize - b'.current.length := by
          rw [List.length_take]
          omega
        have step := @ih _ (buffer.drop (blockSize - b'.current.length))
          (⟨inv'.full, ?_, ?_⟩ : WriteBlock.Inv ⟨b'.full,
            b'.current ++ buffer.take (blockSize - b'.current.length),
            b'.len + (blockSize - b'.current.length)⟩) ?_
        · refine ⟨step.1, step.2.trans ?_⟩
          rw [content, List.append_assoc, List.take_append_drop]
        · rw [List.length_append, taken]
          omega
        · rw [content, List.length_append, taken]
          exact congrArg (· + (blockSize - b'.current.length)) inv'.len
        · rw [List.length_drop]
          omega

theorem pushes_content (inv : b.Inv) (pushes : List Bytes) :
    (pushes.foldl (fun b buffer => wbPush (buffer.length + 1) b buffer) b).Inv ∧
      (pushes.foldl (fun b buffer => wbPush (buffer.length + 1) b buffer) b).content =
        b.content ++ pushes.flatten := by
  induction pushes generalizing b with
  | nil => exact ⟨inv, (List.append_nil _).symm⟩
  | cons buffer pushes ih =>
      obtain ⟨inv', content⟩ := wbPush_content inv (Nat.lt_succ_self buffer.length)
      obtain ⟨last, all⟩ := ih inv'
      refine ⟨last, all.trans ?_⟩
      rw [content, List.flatten_cons, List.append_assoc]

theorem seri_content (inv : b.Inv) : seri b.len (b.full ++ [b.current]) = b.content := by
  obtain ⟨full, current, len⟩ := b
  obtain ⟨all, short, length⟩ := inv
  dsimp only [WriteBlock.content] at all short length ⊢
  subst length
  induction full with
  | nil =>
      rw [List.flatten_nil, List.nil_append, List.nil_append, seri, seri]
      split
      · exact List.append_nil _
      · exact List.take_length
  | cons block full ih =>
      obtain ⟨first, rest⟩ := List.forall_mem_cons.mp all
      have long : ((block :: full).flatten ++ current).length ≥ blockSize := by
        rw [List.flatten_cons, List.append_assoc, List.length_append, first]
        exact Nat.le_add_right ..
      have left : ((block :: full).flatten ++ current).length - blockSize =
          (full.flatten ++ current).length := by
        rw [List.flatten_cons, List.append_assoc, List.length_append, first,
          Nat.add_sub_cancel_left]
      rw [List.cons_append, seri, if_pos long, left, ih rest, List.flatten_cons,
        List.append_assoc]

/-- What is packed is what was pushed. -/
theorem pack_eq (heap : Nat → Table) (args : List Value) : pack heap args =
    (packAll (packOne heap 33) args).map List.flatten := by
  rw [pack]
  cases packAll (packOne heap 33) args with
  | error reason => rfl
  | ok pushes =>
      have start : WriteBlock.Inv ⟨[], [], 0⟩ := ⟨by simp, Nat.zero_le _, rfl⟩
      obtain ⟨inv, content⟩ := pushes_content start pushes
      exact congrArg Except.ok ((seri_content inv).trans content)

end Blocks

end Qiuqiu.Net.Seri
