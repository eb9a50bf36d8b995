import Qiuqiu.Base.While
import Qiuqiu.Exclass.Update

/-!
Objects and the subclass test of lualib/base/exclass.lua. A class takes over the fields
of its parent and names it in `__SuperClass`; it has no metatable. An object has a
metatable that names its class in `__index`. `IsSub` follows `__index` alone, and so
stops at the class of an object, or at once for a class.
-/
namespace Qiuqiu.Exclass.Objects
open While
variable {K V : Type}

structure World (K V : Type) where
  heap : Heap K V
  /-- The `__index` of the metatable of a table. -/
  index : Nat → Option Nat

section Code
variable (w : World K V)

def newTable : Nat × World K V :=
  (w.heap.next, { w with heap := { w.heap with next := w.heap.next + 1 } })

/-- `self:AttachToClass(obj)`. -/
def attachToClass (self obj : Nat) : World K V :=
  { w with index := Function.update w.index obj (some self) }

/-- `self:New()` as far as `__init__`. -/
def new (self : Nat) : Nat × World K V :=
  let (o, w) := newTable w
  (o, attachToClass w self o)

/-- A round of `IsSub`, with the table that has been reached. -/
def isSubRound (ancestor temp : Nat) : Round Nat Bool :=
  match w.index temp with
  | some temp => if temp = ancestor then .leave true else .next temp
  | none => .leave false

end Code

section Hierarchy

inductive Event (K V : Type) where
  | inherit (self : Nat) (o : K → Option V)
  /-- An assignment to a field of a class. -/
  | assign (c : Nat) (key : K) (value : Option V)
  | table
  /-- A table that is not a class becomes an object, or the object of another class. -/
  | attach (self obj : Nat)
  | new (self : Nat)

variable [DecidableEq K] (truthy : V → Bool)

def step (w : World K V) : Event K V → Option (World K V × Unit)
  | .inherit self o => (inherit truthy w.heap self o).map fun heap => ({ w with heap }, ())
  | .assign c key value => (w.heap.classes c).map fun cls =>
      let cls := { cls with fields := Function.update cls.fields key value }
      ({ w with heap := w.heap.setClass c cls }, ())
  | .table => some ((newTable w).2, ())
  | .attach self obj =>
      if (w.heap.classes self).isSome ∧ (w.heap.classes obj).isNone ∧ obj < w.heap.next then
        some (attachToClass w self obj, ())
      else none
  | .new self => if (w.heap.classes self).isSome then some ((new w self).2, ()) else none

/-- The hierarchies that are built with `Inherit`, and their objects. -/
def machine (fields : K → Option V) : Machine (World K V) (Event K V) Unit where
  init := ⟨start fields, fun _ => none⟩
  step := step truthy

end Hierarchy

section Spec
variable (w : World K V)

/-- A class stands for itself, an object for its class. -/
def IsOf (x c : Nat) : Prop := (w.heap.classes x).isSome ∧ c = x ∨ w.index x = some c

/-- What `IsSub` is to find. -/
def Sub (x ancestor : Nat) : Prop :=
  (w.heap.classes x).isSome ∧ Descends w.heap ancestor x ∨
    ∃ c, w.index x = some c ∧ (ancestor = c ∨ Descends w.heap ancestor c)

def Correct (x ancestor : Nat) : Prop :=
  ∃ b, Returns (isSubRound w ancestor) x b ∧ (b = true ↔ Sub w x ancestor)

end Spec

section Invariant

/-- Parents are older than their classes, and the walk along `__index` ends at a class. -/
structure Inv (w : World K V) : Prop where
  fresh : ∀ c, w.heap.next ≤ c → w.heap.classes c = none ∧ w.index c = none
  older : ∀ c p, superOf w.heap c = some p → p < c
  plain : ∀ c, (w.heap.classes c).isSome → w.index c = none
  ofClass : ∀ x c, w.index x = some c → (w.heap.classes c).isSome

variable {w w' : World K V} {x c ancestor : Nat}

theorem Inv.lt_next (inv : Inv w) (alive : (w.heap.classes c).isSome) : c < w.heap.next := by
  by_contra beyond
  rw [(inv.fresh c (Nat.le_of_not_lt beyond)).1] at alive
  cases alive

/-- What a heap has after a class was made: the new class, and its parent. -/
structure Made (h h' : Heap K V) (parent o : Nat) : Prop where
  new : h.next ≤ o
  next : h'.next = o + 1
  isClass : ∀ c, (h'.classes c).isSome ↔ c = o ∨ (h.classes c).isSome
  super : superOf h' o = some parent
  others : ∀ c, c ≠ o → superOf h' c = superOf h c

theorem subClassOf_keeps {h : Heap K V} {self : Nat} {cls : Class K V}
    (alive : h.classes self = some cls) :
    h.next ≤ (subClassOf h self cls).2.next ∧
      (∀ c, ((subClassOf h self cls).2.classes c).isSome = (h.classes c).isSome) ∧
      ∀ c, superOf (subClassOf h self cls).2 c = superOf h c := by
  cases has : cls.subClass with
  | some list =>
      rw [subClassOf, has]
      exact ⟨Nat.le_refl _, fun _ => rfl, fun _ => rfl⟩
  | none =>
      rw [subClassOf, has]
      refine ⟨Nat.le_succ _, ?_, ?_⟩
      · intro c
        by_cases here : c = self
        · subst here
          simp [Heap.setClass, alive]
        · simp [Heap.setClass, here]
      · intro c
        by_cases here : c = self
        · subst here
          simp [Heap.setClass, superOf, alive]
        · simp [Heap.setClass, superOf, here]

theorem inherit_made {truthy : V → Bool} {h h' : Heap K V} {self : Nat} {o : K → Option V}
    (done : inherit truthy h self o = some h') :
    (h.classes self).isSome ∧ ∃ new, Made h h' self new := by
  obtain ⟨cls, alive, rfl⟩ := Option.map_eq_some_iff.mp done
  obtain ⟨grown, same, above⟩ := subClassOf_keeps alive
  refine ⟨by rw [alive]; rfl, (subClassOf h self cls).2.next, grown, rfl, ?_, ?_, ?_⟩
  · intro c
    by_cases here : c = (subClassOf h self cls).2.next
    · simp [here]
    · simp [here, same]
  · simp [superOf]
  · intro c other
    rw [← above c]
    simp [superOf, other]

theorem Inv.init (fields : K → Option V) : Inv (⟨start fields, fun _ => none⟩ : World K V) := by
  refine ⟨?_, ?_, fun _ _ => rfl, nofun⟩
  · intro c beyond
    have other : c ≠ 0 := Nat.ne_of_gt beyond
    simp [start, other]
  · intro c p above
    by_cases base : c = 0
    · subst base
      cases above
    · simp [superOf, start, base] at above

theorem Inv.newTable (inv : Inv w) : Inv (newTable w).2 :=
  ⟨fun c beyond => inv.fresh c (Nat.le_of_succ_le beyond), inv.older, inv.plain, inv.ofClass⟩

theorem Inv.attachToClass {self obj : Nat} (inv : Inv w) (isClass : (w.heap.classes self).isSome)
    (other : (w.heap.classes obj).isNone) (made : obj < w.heap.next) :
    Inv (attachToClass w self obj) := by
  refine ⟨?_, inv.older, ?_, ?_⟩
  · intro c beyond
    have apart : c ≠ obj := fun same => Nat.not_lt.mpr beyond (same ▸ made)
    refine ⟨(inv.fresh c beyond).1, ?_⟩
    exact (Function.update_of_ne apart _ _).trans (inv.fresh c beyond).2
  · intro c alive
    have apart : c ≠ obj := by
      rintro rfl
      change (w.heap.classes c).isSome at alive
      rw [Option.isNone_iff_eq_none.mp other] at alive
      cases alive
    exact (Function.update_of_ne apart _ _).trans (inv.plain c alive)
  · intro x c at_
    cases update_eq_some.mp at_ with
    | inl here =>
        cases here.2
        exact isClass
    | inr before => exact inv.ofClass x c before.2

theorem Inv.made {h' : Heap K V} {self new : Nat} (inv : Inv w)
    (isClass : (w.heap.classes self).isSome) (made : Made w.heap h' self new) :
    Inv { w with heap := h' } := by
  refine ⟨?_, ?_, ?_, ?_⟩
  · intro c beyond
    have later : new < c := by
      have := made.next
      change h'.next ≤ c at beyond
      omega
    have old := inv.fresh c (Nat.le_trans made.new (Nat.le_of_lt later))
    refine ⟨?_, old.2⟩
    have none : ¬ (h'.classes c).isSome := by
      rw [made.isClass, old.1]
      exact fun some => some.elim (Nat.ne_of_gt later) nofun
    exact Option.not_isSome_iff_eq_none.mp none
  · intro c p above
    by_cases here : c = new
    · subst here
      cases above.symm.trans made.super
      exact Nat.lt_of_lt_of_le (inv.lt_next isClass) made.new
    · exact inv.older c p ((made.others c here).symm.trans above)
  · intro c alive
    cases (made.isClass c).mp alive with
    | inl here => exact (inv.fresh c (here ▸ made.new)).2
    | inr before => exact inv.plain c before
  · intro x c at_
    exact (made.isClass c).mpr (.inr (inv.ofClass x c at_))

theorem Inv.setFields {cls : Class K V} (inv : Inv w) (alive : w.heap.classes c = some cls)
    (fields : K → Option V) : Inv { w with heap := w.heap.setClass c { cls with fields } } := by
  have same : ∀ c', ((w.heap.setClass c { cls with fields }).classes c').isSome =
      (w.heap.classes c').isSome := by
    intro c'
    by_cases here : c' = c
    · subst here
      simp [Heap.setClass, alive]
    · simp [Heap.setClass, here]
  have above : ∀ c', superOf (w.heap.setClass c { cls with fields }) c' = superOf w.heap c' := by
    intro c'
    by_cases here : c' = c
    · subst here
      simp [Heap.setClass, superOf, alive]
    · simp [Heap.setClass, superOf, here]
  refine ⟨?_, ?_, ?_, ?_⟩
  · intro c' beyond
    have old := inv.fresh c' beyond
    refine ⟨?_, old.2⟩
    rw [← Option.not_isSome_iff_eq_none, same, old.1]
    exact Bool.false_ne_true
  · intro c' p parent
    exact inv.older c' p ((above c').symm.trans parent)
  · intro c' isClass
    exact inv.plain c' ((same c').symm.trans isClass)
  · intro x c' at_
    exact (same c').trans (inv.ofClass x c' at_)

variable [DecidableEq K] {truthy : V → Bool}

theorem Inv.step {e : Event K V} {o : Unit} (inv : Inv w)
    (moved : step truthy w e = some (w', o)) : Inv w' := by
  cases e with
  | inherit self fields =>
      obtain ⟨h', done, same⟩ := Option.map_eq_some_iff.mp moved
      cases same
      obtain ⟨isClass, new, made⟩ := inherit_made done
      exact inv.made isClass made
  | assign c key value =>
      obtain ⟨cls, alive, same⟩ := Option.map_eq_some_iff.mp moved
      cases same
      exact inv.setFields alive _
  | table =>
      cases moved
      exact inv.newTable
  | attach self obj =>
      obtain ⟨allowed, same⟩ := Option.ite_none_right_eq_some.mp moved
      cases same
      exact inv.attachToClass allowed.1 allowed.2.1 allowed.2.2
  | new self =>
      obtain ⟨isClass, same⟩ := Option.ite_none_right_eq_some.mp moved
      cases same
      refine inv.newTable.attachToClass isClass ?_ (Nat.lt_succ_self _)
      exact Option.isNone_iff_eq_none.mpr (inv.fresh _ (Nat.le_refl _)).1

theorem inv_of_reach {fields : K → Option V} {trace : List (Event K V × Unit)}
    (reach : (machine truthy fields).Reach trace w) : Inv w := by
  refine reach.invariant (fun _ w => Inv w) (Inv.init fields) ?_
  intro trace s e s' o inv moved
  exact inv.step moved

end Invariant

section Walk
variable {w : World K V} {x c ancestor : Nat} {b : Bool}

theorem isSubRound_none (plain : w.index x = none) : isSubRound w ancestor x = .leave false := by
  rw [isSubRound, plain]

theorem isSubRound_some (of : w.index x = some c) :
    isSubRound w ancestor x = if c = ancestor then .leave true else .next c := by
  rw [isSubRound, of]

theorem Inv.descends_lt (inv : Inv w) (descends : Descends w.heap ancestor c) : ancestor < c := by
  induction descends with
  | child above => exact inv.older _ _ above
  | next _ above ih => exact Nat.lt_trans ih (inv.older _ _ above)

/-- `IsSub` of a class is false. -/
theorem Inv.isSub_class (inv : Inv w) (isClass : (w.heap.classes x).isSome) :
    Returns (isSubRound w ancestor) x b ↔ b = false :=
  returns_leave (isSubRound_none (inv.plain x isClass))

/-- `IsSub` of an object compares with its class. -/
theorem Inv.isSub_object (inv : Inv w) (of : w.index x = some c) :
    Returns (isSubRound w ancestor) x b ↔ b = decide (c = ancestor) := by
  have round : isSubRound w ancestor x = _ := isSubRound_some of
  by_cases here : c = ancestor
  · rw [if_pos here] at round
    rw [returns_leave round, decide_eq_true here]
  · rw [if_neg here] at round
    rw [returns_next round, inv.isSub_class (inv.ofClass x c of), decide_eq_false here]

theorem Inv.correct_class (inv : Inv w) (isClass : (w.heap.classes x).isSome) :
    Correct w x ancestor ↔ ¬ Descends w.heap ancestor x := by
  have plain := inv.plain x isClass
  simp [Correct, inv.isSub_class isClass, Sub, isClass, plain]

theorem Inv.correct_object (inv : Inv w) (of : w.index x = some c) :
    Correct w x ancestor ↔ ¬ Descends w.heap ancestor c := by
  have other : ¬ (w.heap.classes x).isSome := by
    intro isClass
    rw [inv.plain x isClass] at of
    cases of
  have sub : Sub w x ancestor ↔ ancestor = c ∨ Descends w.heap ancestor c := by
    simp [Sub, other, of]
  simp only [Correct, inv.isSub_object of, exists_eq_left, decide_eq_true_iff, sub]
  constructor
  · intro exact_ descends
    have here := exact_.mpr (.inr descends)
    exact Nat.ne_of_gt (inv.descends_lt descends) here
  · intro none
    constructor
    · exact fun here => .inl here.symm
    · exact fun found => (found.resolve_right none).symm

variable [DecidableEq K] {truthy : V → Bool} {fields : K → Option V}
  {trace : List (Event K V × Unit)}

/-- In every hierarchy, `IsSub` returns and is right about a class or an object exactly when
the other class is not an ancestor of the class or of the class of the object. -/
theorem isSub_correct_iff (reach : (machine truthy fields).Reach trace w) (of : IsOf w x c) :
    Correct w x ancestor ↔ ¬ Descends w.heap ancestor c := by
  have inv := inv_of_reach reach
  cases of with
  | inl isClass =>
      obtain ⟨isClass, rfl⟩ := isClass
      exact inv.correct_class isClass
  | inr object => exact inv.correct_object object

/-- A class, a class below it, and an object of this one. -/
theorem exists_two_levels :
    ∃ trace w, (machine (fun _ => true) fun _ : Unit => some ()).Reach trace w ∧
      w.index 4 = some 3 ∧ superOf w.heap 3 = some 2 ∧ (w.heap.classes 3).isSome :=
  ⟨_, _, .next (.next (.next .init (e := .inherit 0 fun _ => none) rfl)
    (e := .inherit 2 fun _ => none) rfl) (e := .new 3) rfl, rfl, rfl, rfl⟩

theorem isSub_correct_own_class :
    ∃ trace w, (machine (fun _ => true) fun _ : Unit => some ()).Reach trace w ∧ IsOf w 4 3 ∧
      (Correct w 4 3 ↔ ¬ Descends w.heap 3 3) ∧ Returns (isSubRound w 3) 4 true := by
  obtain ⟨trace, w, reach, object, -, -⟩ := exists_two_levels
  refine ⟨trace, w, reach, .inr object, isSub_correct_iff reach (.inr object), ?_⟩
  exact ((inv_of_reach reach).isSub_object object).mpr rfl

/-- An object is not found to be of the class above its class, nor its class to be below. -/
theorem isSub_misses_grandparent :
    ∃ trace w, (machine (fun _ => true) fun _ : Unit => some ()).Reach trace w ∧
      w.index 4 = some 3 ∧ superOf w.heap 3 = some 2 ∧
      Returns (isSubRound w 2) 4 false ∧ Sub w 4 2 ∧ ¬ Correct w 4 2 ∧
      Returns (isSubRound w 2) 3 false ∧ Sub w 3 2 ∧ ¬ Correct w 3 2 := by
  obtain ⟨trace, w, reach, object, above, isClass⟩ := exists_two_levels
  have inv := inv_of_reach reach
  have descends : Descends w.heap 2 3 := .child above
  refine ⟨trace, w, reach, object, above, ?_, .inr ⟨3, object, .inr descends⟩, ?_, ?_,
    .inl ⟨isClass, descends⟩, ?_⟩
  · exact (inv.isSub_object object).mpr rfl
  · exact fun correct => (inv.correct_object object).mp correct descends
  · exact (inv.isSub_class isClass).mpr rfl
  · exact fun correct => (inv.correct_class isClass).mp correct descends

end Walk

end Qiuqiu.Exclass.Objects
