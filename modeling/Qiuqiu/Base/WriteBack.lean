import Mathlib.Logic.Function.Defs

/-!
One key of a write-back cache over a row of a store. A value is held with a
flag that says it was saved, and the digest of the last acknowledged value is
remembered: a value with that digest is taken to be saved without an update.
An update is acknowledged or not, and independently of that takes effect or
not. When the two agree, reads see the last write; when they do not, saving is
safe as long as no value is passed over for its digest while the row has
drifted from it.
-/
namespace WriteBack

structure Slot (B M : Type) where
  held : Option (B × Bool)
  digest : Option M
  row : Option B

/-- How an update went, and whether the code then marks the value it keeps. -/
structure Update where
  ack : Bool
  effect : Bool
  mark : Bool

variable {B M : Type}

namespace Slot

def put (s : Slot B M) (b : B) : Slot B M := { s with held := some (b, false) }

def read (s : Slot B M) : Option B :=
  match s.held with
  | some (b, _) => some b
  | none => s.row

/-- The value held is not saved and has the remembered digest. -/
def Same (H : B → M) (s : Slot B M) : Prop :=
  ∃ b, s.held = some (b, false) ∧ s.digest = some (H b)

/-- What was evicted or marked saved is in the row. -/
def Safe (s s' : Slot B M) : Prop :=
  ∀ b saved, s.held = some (b, saved) →
    (s'.held = none ∨ saved = false ∧ s'.held = some (b, true)) → s'.row = some b

/-- The row holds the saved value, and the value whose digest is remembered. -/
structure Coherent (H : B → M) (s : Slot B M) : Prop where
  saved : ∀ b, s.held = some (b, true) → s.row = some b
  digest : ∀ m, s.digest = some m → ∃ b, s.row = some b ∧ H b = m

/-- As `Coherent`, but once an effective update was not acknowledged the row
holds a value with another digest. -/
structure Traced (H : B → M) (s : Slot B M) (lost : Bool) : Prop where
  saved : ∀ b, s.held = some (b, true) → s.row = some b
  kept : lost = false → ∀ m, s.digest = some m → ∃ b, s.row = some b ∧ H b = m
  drifted : lost = true → ∀ m, s.digest = some m → ∃ b, s.row = some b ∧ H b ≠ m

variable [DecidableEq M]

def save (H : B → M) (s : Slot B M) (evict : Bool) (u : Update) : Slot B M :=
  match s.held with
  | none => s
  | some (_, true) => if evict then { s with held := none } else s
  | some (b, false) =>
      if s.digest = some (H b) then
        { s with held := if evict then none else some (b, true) }
      else if u.ack then
        { held := if evict then none else some (b, u.mark)
          digest := some (H b)
          row := if u.effect then some b else s.row }
      else { s with row := if u.effect then some b else s.row }

/-- Whether an unacknowledged update took effect since the last one that was
acknowledged. -/
def lostAfter (H : B → M) (s : Slot B M) (lost : Bool) (u : Update) : Bool :=
  match s.held with
  | some (b, false) =>
      if s.digest = some (H b) then lost
      else if u.ack then false
      else lost || u.effect
  | _ => lost

section Equations
variable {H : B → M} {s : Slot B M} {evict : Bool} {u : Update} {b : B}

theorem save_none (h : s.held = none) : s.save H evict u = s := by
  simp only [save, h]

theorem save_saved (h : s.held = some (b, true)) :
    s.save H evict u = if evict then { s with held := none } else s := by
  simp only [save, h]

theorem save_same (h : s.held = some (b, false)) (same : s.digest = some (H b)) :
    s.save H evict u = { s with held := if evict then none else some (b, true) } := by
  simp only [save, h, if_pos same]

theorem save_ack (h : s.held = some (b, false)) (differs : s.digest ≠ some (H b))
    (ack : u.ack = true) :
    s.save H evict u =
      { held := if evict then none else some (b, u.mark)
        digest := some (H b)
        row := if u.effect then some b else s.row } := by
  simp only [save, h, if_neg differs, ack, if_true]

theorem save_unack (h : s.held = some (b, false)) (differs : s.digest ≠ some (H b))
    (ack : u.ack = false) :
    s.save H evict u = { s with row := if u.effect then some b else s.row } := by
  simp only [save, h, if_neg differs, ack, Bool.false_eq_true, if_false]

/-- The ways through a save, with what each says about lost updates. -/
theorem save_cases (lost : Bool) {motive : Slot B M → Bool → Prop}
    (none : s.held = none → motive s lost)
    (saved : ∀ b, s.held = some (b, true) →
      motive (if evict then { s with held := Option.none } else s) lost)
    (same : ∀ b, s.held = some (b, false) → s.digest = some (H b) →
      motive { s with held := if evict then Option.none else some (b, true) } lost)
    (ack : ∀ b, s.held = some (b, false) → s.digest ≠ some (H b) → u.ack = true →
      motive { held := if evict then Option.none else some (b, u.mark)
               digest := some (H b)
               row := if u.effect then some b else s.row } false)
    (unack : ∀ b, s.held = some (b, false) → s.digest ≠ some (H b) → u.ack = false →
      motive { s with row := if u.effect then some b else s.row } (lost || u.effect)) :
    motive (s.save H evict u) (s.lostAfter H lost u) := by
  cases h : s.held with
  | none =>
      rw [save_none h]
      simpa only [lostAfter, h] using none h
  | some x =>
      obtain ⟨b, flag⟩ := x
      cases flag with
      | true =>
          rw [save_saved h]
          simpa only [lostAfter, h] using saved b h
      | false =>
          by_cases digest : s.digest = some (H b)
          · rw [save_same h digest]
            simpa only [lostAfter, h, if_pos digest] using same b h digest
          · cases hack : u.ack with
            | true =>
                rw [save_ack h digest hack]
                simpa only [lostAfter, h, if_neg digest, hack, if_true] using ack b h digest hack
            | false =>
                rw [save_unack h digest hack]
                simpa only [lostAfter, h, if_neg digest, hack, Bool.false_eq_true, if_false]
                  using unack b h digest hack

/-- A save that is acknowledged, takes effect and is marked leaves the value in the row,
and in the cache only if it is kept. -/
theorem save_done {saved : Bool} (h : s.held = some (b, saved))
    (known : saved = true ∨ s.digest = some (H b) → s.row = some b)
    (ack : u.ack = true) (effect : u.effect = true) (mark : u.mark = true) :
    (s.save H evict u).held = (if evict then none else some (b, true)) ∧
      (s.save H evict u).row = some b := by
  cases saved with
  | true =>
      rw [save_saved h]
      cases evict with
      | true => exact ⟨rfl, known (.inl rfl)⟩
      | false => exact ⟨h, known (.inl rfl)⟩
  | false =>
      by_cases same : s.digest = some (H b)
      · rw [save_same h same]
        exact ⟨rfl, known (.inr same)⟩
      · rw [save_ack h same ack, mark, effect]
        exact ⟨rfl, rfl⟩

end Equations

section Exact
variable {H : B → M} {s : Slot B M} {evict : Bool} {u : Update}

omit [DecidableEq M] in
theorem put_coherent (c : Coherent H s) (b : B) : Coherent H (s.put b) where
  saved := by
    intro b' h
    cases h
  digest := c.digest

omit [DecidableEq M] in
theorem Coherent.row_of_same (inj : Function.Injective H) (c : Coherent H s) {b : B}
    (same : s.digest = some (H b)) : s.row = some b := by
  obtain ⟨b', row, digest⟩ := c.digest _ same
  rw [row, inj digest]

theorem save_coherent (inj : Function.Injective H) (c : Coherent H s)
    (exact_ : u.effect = u.ack) : Coherent H (s.save H evict u) := by
  refine save_cases false (motive := fun s' _ => Coherent H s') (fun _ => c) ?_ ?_ ?_ ?_
  · intro b _
    cases evict with
    | true =>
        refine ⟨fun b h => ?_, c.digest⟩
        cases h
    | false => exact c
  · intro b _ same
    refine ⟨fun b' h => ?_, c.digest⟩
    cases evict with
    | true => cases h
    | false =>
        cases h
        exact c.row_of_same inj same
  · intro b _ _ ack
    rw [exact_, ack, if_pos rfl]
    refine ⟨fun b' h => ?_, fun m h => ⟨b, rfl, Option.some.inj h⟩⟩
    cases evict with
    | true => cases h
    | false =>
        simp only [Bool.false_eq_true, if_false, Option.some.injEq, Prod.mk.injEq] at h
        rw [h.1]
  · intro b _ _ unack
    rw [exact_, unack]
    exact c

/-- A save does not change what a read sees. -/
theorem save_read (inj : Function.Injective H) (c : Coherent H s)
    (exact_ : u.effect = u.ack) : (s.save H evict u).read = s.read := by
  refine save_cases false (motive := fun s' _ => s'.read = s.read)
    (fun _ => rfl) ?_ ?_ ?_ ?_
  · intro b h
    cases evict with
    | true => simp only [if_true, read, h, c.saved b h]
    | false => rfl
  · intro b h same
    cases evict with
    | true => simp only [if_true, read, h, c.row_of_same inj same]
    | false => simp only [Bool.false_eq_true, if_false, read, h]
  · intro b h _ ack
    cases evict with
    | true => simp only [if_true, read, h, exact_, ack]
    | false => simp only [Bool.false_eq_true, if_false, read, h]
  · intro b h _ unack
    simp only [read, h]

end Exact

section Lossy
variable {H : B → M} {s : Slot B M} {lost : Bool} {u : Update}

omit [DecidableEq M] in
theorem put_traced (t : Traced H s lost) (b : B) : Traced H (s.put b) lost where
  saved := by
    intro b' h
    cases h
  kept := t.kept
  drifted := t.drifted

/-- Passing over a value for its digest is what goes wrong, and nothing else. -/
theorem save_safe_iff {evict : Bool} (inj : Function.Injective H) (t : Traced H s lost)
    (effect : u.ack = true → u.effect = true) :
    Safe s (s.save H evict u) ↔ ¬ (lost = true ∧ Same H s) := by
  constructor
  · intro safe ⟨hlost, b, held, digest⟩
    rw [save_same held digest] at safe
    obtain ⟨b', row, differs⟩ := t.drifted hlost _ digest
    have := safe b false held (by cases evict with
      | true => exact .inl rfl
      | false => exact .inr ⟨rfl, rfl⟩)
    simp only [row, Option.some.injEq] at this
    exact differs (congrArg H this)
  · intro fine
    refine save_cases lost (motive := fun s' _ => Safe s s') ?_ ?_ ?_ ?_ ?_
    · intro none b saved held
      rw [none] at held
      cases held
    · intro b held b' saved held'
      rw [held] at held'
      cases held'
      intro _
      cases evict with
      | true => exact t.saved b held
      | false => exact t.saved b held
    · intro b held same b' saved held'
      rw [held] at held'
      cases held'
      intro _
      have notLost : lost = false := by
        cases lost with
        | true => exact absurd ⟨rfl, b, held, same⟩ fine
        | false => rfl
      obtain ⟨b', row, digest⟩ := t.kept notLost _ same
      rw [inj digest] at row
      exact row
    · intro b held _ ack b' saved held'
      rw [held] at held'
      cases held'
      intro _
      simp only [effect ack, if_true]
    · intro b held _ unack b' saved held'
      rw [held] at held'
      cases held'
      intro gone
      simp only [held] at gone
      cases gone with
      | inl h => cases h
      | inr h => cases h.2

theorem save_traced (evict : Bool) (inj : Function.Injective H) (t : Traced H s lost)
    (effect : u.ack = true → u.effect = true) (fine : ¬ (lost = true ∧ Same H s)) :
    Traced H (s.save H evict u) (s.lostAfter H lost u) := by
  refine save_cases lost (motive := fun s' lost' => Traced H s' lost') (fun _ => t) ?_ ?_ ?_ ?_
  · intro b _
    cases evict with
    | true =>
        refine ⟨fun b h => ?_, t.kept, t.drifted⟩
        cases h
    | false => exact t
  · intro b held same
    refine ⟨fun b' h => ?_, t.kept, t.drifted⟩
    cases evict with
    | true => cases h
    | false =>
        cases h
        cases lost with
        | true => exact absurd ⟨rfl, b, held, same⟩ fine
        | false =>
            obtain ⟨b', row, digest⟩ := t.kept rfl _ same
            rw [inj digest] at row
            exact row
  · intro b _ _ ack
    rw [effect ack, if_pos rfl]
    refine ⟨fun b' h => ?_, fun _ m h => ⟨b, rfl, Option.some.inj h⟩, fun h => (by cases h)⟩
    cases evict with
    | true => cases h
    | false =>
        simp only [Bool.false_eq_true, if_false, Option.some.injEq, Prod.mk.injEq] at h
        rw [h.1]
  · intro b held differs _
    cases heffect : u.effect with
    | true =>
        rw [Bool.or_true, if_pos rfl]
        refine ⟨fun b' h => ?_, fun h => (by cases h), fun _ m h => ⟨b, rfl, fun hb => ?_⟩⟩
        · rw [held] at h
          cases h
        · rw [h, ← hb] at differs
          exact differs rfl
    | false =>
        rw [Bool.or_false]
        exact t

/-- An update that does nothing loses nothing. -/
theorem lostAfter_idle (ack : u.ack = false) (effect : u.effect = false) :
    s.lostAfter H lost u = lost := by
  simp only [lostAfter, ack, effect, Bool.or_false, Bool.false_eq_true, if_false, ite_self]
  split
  · rfl
  · rfl

end Lossy

end Slot

end WriteBack
