import Mathlib.Data.List.Basic

/-!
Streams of frames. A frame is a header of a fixed length, which tells the length of the body
behind it, and the body. However a stream is cut, the bodies of the pieces together with what
each leaves over are the bodies of the whole.
-/
namespace Qiuqiu

structure Framing (α : Type) where
  width : Nat
  size : List α → Nat
  width_pos : 0 < width

namespace Framing
variable {α : Type} (F : Framing α)

/-- The stream begins with a whole frame. -/
def Whole (s : List α) : Prop :=
  F.width ≤ s.length ∧ F.size (s.take F.width) ≤ s.length - F.width

instance (s : List α) : Decidable (F.Whole s) := inferInstanceAs (Decidable (_ ∧ _))

def body (s : List α) : List α := (s.drop F.width).take (F.size (s.take F.width))

def behind (s : List α) : List α := (s.drop F.width).drop (F.size (s.take F.width))

theorem behind_lt {s : List α} (whole : F.Whole s) : (F.behind s).length < s.length := by
  have pos := F.width_pos
  have long := whole.1
  rw [behind, List.length_drop, List.length_drop]
  omega

/-- The bodies of a stream, and what is left over. -/
def split (s : List α) : List (List α) × List α :=
  if _ : F.Whole s then (F.body s :: (split (F.behind s)).1, (split (F.behind s)).2)
  else ([], s)
termination_by s.length
decreasing_by all_goals exact F.behind_lt ‹_›

variable {F} {s t header body : List α}

theorem split_whole (whole : F.Whole s) :
    F.split s = (F.body s :: (F.split (F.behind s)).1, (F.split (F.behind s)).2) := by
  rw [split, dif_pos whole]

theorem split_part (part : ¬ F.Whole s) : F.split s = ([], s) := by
  rw [split, dif_neg part]

theorem split_nil : F.split [] = ([], []) := by
  apply split_part
  intro whole
  have pos := F.width_pos
  have long : F.width ≤ 0 := whole.1
  omega

theorem Whole.append (whole : F.Whole s) (t : List α) : F.Whole (s ++ t) := by
  obtain ⟨long, fits⟩ := whole
  rw [Whole, List.length_append, List.take_append_of_le_length long]
  exact ⟨by omega, by omega⟩

theorem Whole.body_append (whole : F.Whole s) (t : List α) : F.body (s ++ t) = F.body s := by
  obtain ⟨long, fits⟩ := whole
  rw [Framing.body, Framing.body, List.take_append_of_le_length long,
    List.drop_append_of_le_length long, List.take_append_of_le_length]
  rwa [List.length_drop]

theorem Whole.behind_append (whole : F.Whole s) (t : List α) :
    F.behind (s ++ t) = F.behind s ++ t := by
  obtain ⟨long, fits⟩ := whole
  rw [behind, behind, List.take_append_of_le_length long, List.drop_append_of_le_length long,
    List.drop_append_of_le_length]
  rwa [List.length_drop]

/-- A stream may be cut anywhere. -/
theorem split_append (s t : List α) : F.split (s ++ t) =
    ((F.split s).1 ++ (F.split ((F.split s).2 ++ t)).1, (F.split ((F.split s).2 ++ t)).2) := by
  induction s using split.induct F with
  | case1 s whole ih =>
      rw [split_whole (whole.append t), split_whole whole, whole.body_append, whole.behind_append,
        ih]
      rfl
  | case2 s part =>
      rw [split_part part]
      rfl

/-- More of a stream has more bodies. -/
theorem split_prefix (part : s <+: t) : (F.split s).1 <+: (F.split t).1 := by
  obtain ⟨rest, whole⟩ := part
  rw [← whole, split_append]
  exact List.prefix_append ..

/-- A header and its body are a whole frame. -/
theorem split_frame (wide : header.length = F.width) (long : F.size header = body.length)
    (s : List α) :
    F.split (header ++ body ++ s) = (body :: (F.split s).1, (F.split s).2) := by
  have head : (header ++ body ++ s).take F.width = header := by
    rw [List.append_assoc, ← wide, List.take_left]
  have tail : (header ++ body ++ s).drop F.width = body ++ s := by
    rw [List.append_assoc, ← wide, List.drop_left]
  have whole : F.Whole (header ++ body ++ s) := by
    rw [Whole, head, long, ← wide]
    simp only [List.length_append]
    omega
  rw [split_whole whole, behind, Framing.body, head, tail, long, List.take_left, List.drop_left]

end Framing
end Qiuqiu
