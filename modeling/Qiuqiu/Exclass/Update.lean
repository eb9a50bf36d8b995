import Mathlib.Logic.Function.Basic
import Qiuqiu.Base.Assoc
import Qiuqiu.Base.Machine

/-!
The classes of lualib/base/exclass.lua. `Inherit` notes the new class in the weak list
`__SubClass` of its parent and then copies every field of the parent, the list
itself among them: a class and all that descend from it share one list. `Update`
goes over this list and calls itself for each class in it, with the same list.
-/
namespace Qiuqiu.Exclass

/-- The table of a class: the fields of its author, and the two of `Inherit`. -/
structure Class (K V : Type) where
  fields : K → Option V
  subClass : Option Nat
  superClass : Option Nat

/-- Classes and lists of classes by reference, and the first reference not in use. -/
structure Heap (K V : Type) where
  classes : Nat → Option (Class K V)
  lists : Nat → List Nat
  next : Nat

variable {K V : Type}

def Heap.setClass (h : Heap K V) (c : Nat) (cls : Class K V) : Heap K V :=
  { h with classes := Function.update h.classes c (some cls) }

section Code
variable (truthy : V → Bool)

/-- A field of the parent is copied unless the new class has a true value there. -/
def copied (self o : Option V) : Option V :=
  match self with
  | some v => if o.any truthy then o else some v
  | none => o

/-- The list of a class, which is made when there is none. -/
def subClassOf (h : Heap K V) (self : Nat) (cls : Class K V) : Nat × Heap K V :=
  match cls.subClass with
  | some list => (list, h)
  | none =>
      (h.next, { h.setClass self { cls with subClass := some h.next } with
        lists := Function.update h.lists h.next []
        next := h.next + 1 })

/-- `self:Inherit(o)`, with the fields of a new table `o`. -/
def inherit (h : Heap K V) (self : Nat) (o : K → Option V) : Option (Heap K V) :=
  (h.classes self).map fun cls =>
    let (list, h) := subClassOf h self cls
    { classes := Function.update h.classes h.next (some
        { fields := fun k => copied truthy (cls.fields k) (o k)
          subClass := some list
          superClass := some self })
      lists := Function.update h.lists list (h.lists list ++ [h.next])
      next := h.next + 1 }

variable {α : Type} [DecidableEq α]

/-- A field of a subclass, after the fields of the class have been looked through. -/
def taken (self old sub : Option α) : Option α :=
  match self with
  | some v => if sub = old then some v else sub
  | none => sub

def takeOver [DecidableEq V] (self old sub : Class K V) : Class K V where
  fields k := taken (self.fields k) (old.fields k) (sub.fields k)
  subClass := taken self.subClass old.subClass sub.subClass
  superClass := taken self.superClass old.superClass sub.superClass

/-- `self:Update(OldSelf)`, with a bound on the depth of the calls. -/
def update [DecidableEq V] (order : Assoc.PairsOrder Nat) :
    Nat → Heap K V → Nat → Class K V → Option (Heap K V)
  | 0, _, _, _ => none
  | depth + 1, h, self, oldSelf => do
      let cls ← h.classes self
      match cls.subClass with
      | none => some h
      | some list =>
          (order.visit (h.lists list)).foldlM (fun h sub => do
            let cls ← h.classes self
            let oldSub ← h.classes sub
            update order depth (h.setClass sub (takeOver cls oldSelf oldSub)) sub oldSub) h

end Code

section Hierarchy

inductive Event (K V : Type) where
  | inherit (self : Nat) (o : K → Option V)
  /-- An assignment to a field of a class. -/
  | assign (c : Nat) (key : K) (value : Option V)
  /-- A class that nothing refers to any more is collected. -/
  | collect (c : Nat)

variable [DecidableEq K] (truthy : V → Bool)

/-- The base class, which is global, and no class but this. -/
def start (fields : K → Option V) : Heap K V where
  classes := Function.update (fun _ => none) 0 (some ⟨fields, none, none⟩)
  lists := fun _ => []
  next := 1

def superOf (h : Heap K V) (c : Nat) : Option Nat := (h.classes c).bind Class.superClass

def step (h : Heap K V) : Event K V → Option (Heap K V × Unit)
  | .inherit self o => (inherit truthy h self o).map (·, ())
  | .assign c key value => (h.classes c).map fun cls =>
      (h.setClass c { cls with fields := Function.update cls.fields key value }, ())
  | .collect c =>
      if c = 0 ∨ ∃ c' ∈ List.range h.next, superOf h c' = some c then none
      else some ({ h with
        classes := Function.update h.classes c none
        lists := fun list => (h.lists list).filter (· ≠ c) }, ())

/-- The hierarchies that are built with `Inherit`. -/
def machine (fields : K → Option V) : Machine (Heap K V) (Event K V) Unit where
  init := start fields
  step := step truthy

end Hierarchy

section Lists

/-- Every class that has been made by `Inherit` stands in the list of its parent, which is
its own list too, and what stands in a list has this list. -/
structure Sound (h : Heap K V) : Prop where
  fresh : ∀ c, h.next ≤ c → h.classes c = none
  bound : ∀ c cls list, h.classes c = some cls → cls.subClass = some list → list < h.next
  members : ∀ list, ∀ c ∈ h.lists list,
    ∃ cls, h.classes c = some cls ∧ cls.subClass = some list
  parents : ∀ c cls p, h.classes c = some cls → cls.superClass = some p →
    ∃ list parent, cls.subClass = some list ∧ c ∈ h.lists list ∧
      h.classes p = some parent ∧ parent.subClass = some list

variable {h h' : Heap K V} {self list c : Nat} {cls : Class K V}

theorem update_eq_some {α : Type} {f : Nat → Option α} {v : Option α} {c c' : Nat} {a : α} :
    Function.update f c v c' = some a ↔ c' = c ∧ v = some a ∨ c' ≠ c ∧ f c' = some a := by
  by_cases here : c' = c
  · subst here
    simp
  · simp [here]

theorem Sound.lt_next (sound : Sound h) (alive : h.classes c = some cls) : c < h.next := by
  by_contra beyond
  rw [sound.fresh c (Nat.le_of_not_lt beyond)] at alive
  cases alive

theorem sound_start (fields : K → Option V) : Sound (start fields) := by
  have only : ∀ c cls, (start fields).classes c = some cls →
      c = 0 ∧ cls = ⟨fields, none, none⟩ := by
    intro c cls alive
    by_cases base : c = 0
    · subst base
      exact ⟨rfl, (Option.some.inj alive).symm⟩
    · simp [start, base] at alive
  refine ⟨?_, ?_, nofun, ?_⟩
  · intro c beyond
    have other : c ≠ 0 := Nat.ne_of_gt beyond
    simp [start, other]
  · intro c cls list alive has
    rw [(only c cls alive).2] at has
    cases has
  · intro c cls p alive has
    rw [(only c cls alive).2] at has
    cases has

/-- A class may change its fields. -/
theorem Sound.setFields (sound : Sound h) (alive : h.classes c = some cls) (fields : K → Option V) :
    Sound (h.setClass c { cls with fields := fields }) := by
  have before : ∀ c' cls', (h.setClass c { cls with fields := fields }).classes c' = some cls' →
      ∃ cls₀, h.classes c' = some cls₀ ∧ cls'.subClass = cls₀.subClass ∧
        cls'.superClass = cls₀.superClass := by
    intro c' cls' alive'
    cases update_eq_some.mp alive' with
    | inl here =>
        obtain ⟨rfl, same⟩ := here
        cases same
        exact ⟨cls, alive, rfl, rfl⟩
    | inr other => exact ⟨cls', other.2, rfl, rfl⟩
  have after : ∀ c' cls₀, h.classes c' = some cls₀ →
      ∃ cls', (h.setClass c { cls with fields := fields }).classes c' = some cls' ∧
        cls'.subClass = cls₀.subClass := by
    intro c' cls₀ alive₀
    by_cases here : c' = c
    · subst here
      cases alive.symm.trans alive₀
      exact ⟨_, Function.update_self _ _ _, rfl⟩
    · exact ⟨cls₀, (Function.update_of_ne here _ _).trans alive₀, rfl⟩
  refine ⟨?_, ?_, ?_, ?_⟩
  · intro c' beyond
    have other : c' ≠ c := by
      rintro rfl
      exact absurd (sound.lt_next alive) (Nat.not_lt.mpr beyond)
    exact (Function.update_of_ne other _ _).trans (sound.fresh c' beyond)
  · intro c' cls' list alive' has
    obtain ⟨cls₀, alive₀, sub, -⟩ := before c' cls' alive'
    exact sound.bound c' cls₀ list alive₀ (sub ▸ has)
  · intro list c' mem
    obtain ⟨cls₀, alive₀, has⟩ := sound.members list c' mem
    obtain ⟨cls', alive', sub⟩ := after c' cls₀ alive₀
    exact ⟨cls', alive', sub.trans has⟩
  · intro c' cls' p alive' has
    obtain ⟨cls₀, alive₀, sub, super⟩ := before c' cls' alive'
    obtain ⟨list, parent, own, mem, above, same⟩ :=
      sound.parents c' cls₀ p alive₀ (super ▸ has)
    obtain ⟨parent', above', sub'⟩ := after p parent above
    exact ⟨list, parent', sub.trans own, mem, above', sub'.trans same⟩

theorem Sound.collect (sound : Sound h)
    (free : ∀ c' ∈ List.range h.next, superOf h c' ≠ some c) :
    Sound { h with
      classes := Function.update h.classes c none
      lists := fun list => (h.lists list).filter (· ≠ c) } := by
  have other : ∀ c' cls, Function.update h.classes c none c' = some cls →
      c' ≠ c ∧ h.classes c' = some cls := by
    intro c' cls left
    exact (update_eq_some.mp left).resolve_left nofun
  refine ⟨?_, ?_, ?_, ?_⟩
  · intro c' beyond
    by_cases here : c' = c
    · subst here
      exact Function.update_self _ _ _
    · exact (Function.update_of_ne here _ _).trans (sound.fresh c' beyond)
  · intro c' cls list alive has
    exact sound.bound c' cls list (other c' cls alive).2 has
  · intro list c' mem
    obtain ⟨mem, here⟩ := List.mem_filter.mp mem
    obtain ⟨cls, alive, has⟩ := sound.members list c' mem
    exact ⟨cls, (Function.update_of_ne (of_decide_eq_true here) _ _).trans alive, has⟩
  · intro c' cls p left has
    obtain ⟨here, alive⟩ := other c' cls left
    obtain ⟨list, parent, own, mem, above, same⟩ := sound.parents c' cls p alive has
    have kept : p ≠ c := by
      intro gone
      refine free c' (List.mem_range.mpr (sound.lt_next alive)) ?_
      rw [superOf, alive, Option.bind_some, has, gone]
    exact ⟨list, parent, own, List.mem_filter.mpr ⟨mem, decide_eq_true here⟩,
      (Function.update_of_ne kept _ _).trans above, same⟩

/-- Making the list of a class that is in no hierarchy yet. -/
theorem Sound.makeList (sound : Sound h) (alive : h.classes self = some cls)
    (has : cls.subClass = none) :
    Sound { h.setClass self { cls with subClass := some h.next } with
      lists := Function.update h.lists h.next []
      next := h.next + 1 } := by
  refine ⟨?_, ?_, ?_, ?_⟩
  · intro c beyond
    have inside := sound.lt_next alive
    have other : c ≠ self := by
      rintro rfl
      exact absurd inside (Nat.not_lt.mpr (Nat.le_of_succ_le beyond))
    exact (Function.update_of_ne other _ _).trans
      (sound.fresh c (Nat.le_of_succ_le beyond))
  · intro c cls' list alive' has'
    cases update_eq_some.mp alive' with
    | inl here =>
        obtain ⟨-, same⟩ := here
        cases same
        cases has'
        exact Nat.lt_succ_self _
    | inr other => exact Nat.lt_succ_of_lt (sound.bound c cls' list other.2 has')
  · intro list c mem
    dsimp only at mem
    by_cases new : list = h.next
    · subst new
      rw [Function.update_self] at mem
      cases mem
    · rw [Function.update_of_ne new] at mem
      obtain ⟨cls', alive', has'⟩ := sound.members list c mem
      have other : c ≠ self := by
        rintro rfl
        cases alive.symm.trans alive'
        cases has.symm.trans has'
      exact ⟨cls', (Function.update_of_ne other _ _).trans alive', has'⟩
  · intro c cls' p alive' super
    cases update_eq_some.mp alive' with
    | inl here =>
        obtain ⟨rfl, same⟩ := here
        cases same
        obtain ⟨list, _, own, _⟩ := sound.parents c cls p alive super
        cases has.symm.trans own
    | inr old =>
        obtain ⟨list, parent, own, mem, above, same⟩ := sound.parents c cls' p old.2 super
        have before : list ≠ h.next := Nat.ne_of_lt (sound.bound c cls' list old.2 own)
        have other : p ≠ self := by
          rintro rfl
          cases alive.symm.trans above
          cases has.symm.trans same
        refine ⟨list, parent, own, ?_, (Function.update_of_ne other _ _).trans above, same⟩
        dsimp only
        rw [Function.update_of_ne before]
        exact mem

theorem Sound.subClassOf (sound : Sound h) (alive : h.classes self = some cls) :
    Sound (subClassOf h self cls).2 ∧
      ∃ cls', (subClassOf h self cls).2.classes self = some cls' ∧
        cls'.subClass = some (subClassOf h self cls).1 := by
  cases has : cls.subClass with
  | some list =>
      simp only [Exclass.subClassOf, has]
      exact ⟨sound, cls, alive, has⟩
  | none =>
      simp only [Exclass.subClassOf, has]
      exact ⟨sound.makeList alive has, _, Function.update_self _ _ _, rfl⟩

/-- A new class in the list of its parent. -/
theorem Sound.extend (sound : Sound h) (alive : h.classes self = some cls)
    (has : cls.subClass = some list) (fields : K → Option V) :
    Sound
      { classes := Function.update h.classes h.next (some ⟨fields, some list, some self⟩)
        lists := Function.update h.lists list (h.lists list ++ [h.next])
        next := h.next + 1 } := by
  have old : ∀ c cls, h.classes c = some cls →
      Function.update h.classes h.next (some ⟨fields, some list, some self⟩) c = some cls := by
    intro c cls alive
    exact (Function.update_of_ne (Nat.ne_of_lt (sound.lt_next alive)) _ _).trans alive
  have grown : ∀ list', ∀ c ∈ h.lists list',
      c ∈ Function.update h.lists list (h.lists list ++ [h.next]) list' := by
    intro list' c mem
    by_cases here : list' = list
    · subst here
      rw [Function.update_self]
      exact List.mem_append_left _ mem
    · rw [Function.update_of_ne here]
      exact mem
  refine ⟨?_, ?_, ?_, ?_⟩
  · intro c beyond
    have other : c ≠ h.next := Nat.ne_of_gt beyond
    exact (Function.update_of_ne other _ _).trans (sound.fresh c (Nat.le_of_succ_le beyond))
  · intro c cls' list' alive' has'
    cases update_eq_some.mp alive' with
    | inl new =>
        obtain ⟨-, same⟩ := new
        cases same
        cases has'
        exact Nat.lt_succ_of_lt (sound.bound self cls list alive has)
    | inr old => exact Nat.lt_succ_of_lt (sound.bound c cls' list' old.2 has')
  · intro list' c mem
    dsimp only at mem
    by_cases here : list' = list
    · subst here
      rw [Function.update_self] at mem
      cases List.mem_append.mp mem with
      | inl before =>
          obtain ⟨cls', alive', has'⟩ := sound.members list' c before
          exact ⟨cls', old c cls' alive', has'⟩
      | inr last =>
          cases List.mem_singleton.mp last
          exact ⟨_, Function.update_self _ _ _, rfl⟩
    · rw [Function.update_of_ne here] at mem
      obtain ⟨cls', alive', has'⟩ := sound.members list' c mem
      exact ⟨cls', old c cls' alive', has'⟩
  · intro c cls' p alive' super
    cases update_eq_some.mp alive' with
    | inl new =>
        obtain ⟨rfl, same⟩ := new
        cases same
        cases super
        refine ⟨list, cls, rfl, ?_, old self cls alive, has⟩
        dsimp only
        rw [Function.update_self]
        exact List.mem_append_right _ (List.mem_singleton_self _)
    | inr before =>
        obtain ⟨list', parent, own, mem, above, same⟩ := sound.parents c cls' p before.2 super
        exact ⟨list', parent, own, grown list' c mem, old p parent above, same⟩

variable [DecidableEq K] {truthy : V → Bool}

theorem Sound.step {e : Event K V} {o : Unit} (sound : Sound h)
    (moved : step truthy h e = some (h', o)) : Sound h' := by
  cases e with
  | inherit self fields =>
      obtain ⟨h₁, made, same⟩ := Option.map_eq_some_iff.mp moved
      cases same
      obtain ⟨cls, alive, rfl⟩ := Option.map_eq_some_iff.mp made
      obtain ⟨listed, cls', alive', has⟩ := sound.subClassOf alive
      exact listed.extend alive' has _
  | assign c key value =>
      obtain ⟨cls, alive, same⟩ := Option.map_eq_some_iff.mp moved
      cases same
      exact sound.setFields alive _
  | collect c =>
      simp only [Exclass.step] at moved
      split at moved
      case isTrue => cases moved
      case isFalse free =>
          cases moved
          refine sound.collect fun c' mem above => free (.inr ⟨c', mem, above⟩)

theorem sound_of_reach {fields : K → Option V} {trace : List (Event K V × Unit)}
    (reach : (machine truthy fields).Reach trace h) : Sound h := by
  refine reach.invariant (fun _ h => Sound h) (sound_start fields) ?_
  intro trace s e s' o sound moved
  exact sound.step moved

end Lists

section Update
variable [DecidableEq V] {order : Assoc.PairsOrder Nat} {h h' : Heap K V} {self list : Nat}
  {cls old : Class K V}

/-- A list with a class in it, in which every class has the list itself. -/
structure Shared (h : Heap K V) (list : Nat) : Prop where
  nonempty : h.lists list ≠ []
  members : ∀ c ∈ h.lists list, ∃ cls, h.classes c = some cls ∧ cls.subClass = some list

theorem taken_same {α : Type} [DecidableEq α] {v : α} (old : Option α) :
    taken (some v) old (some v) = some v := by
  rw [taken]
  split <;> rfl

theorem takeOver_subClass {oldSub : Class K V} (has : cls.subClass = some list)
    (own : oldSub.subClass = some list) : (takeOver cls old oldSub).subClass = some list := by
  rw [takeOver, has, own]
  exact taken_same old.subClass

omit [DecidableEq V] in
theorem Shared.setClass (shared : Shared h list) {sub : Nat} {taker : Class K V}
    (own : taker.subClass = some list) : Shared (h.setClass sub taker) list := by
  refine ⟨shared.nonempty, ?_⟩
  intro c mem
  by_cases here : c = sub
  · subst here
    exact ⟨taker, Function.update_self _ _ _, own⟩
  · obtain ⟨cls', alive, has'⟩ := shared.members c mem
    exact ⟨cls', (Function.update_of_ne here _ _).trans alive, has'⟩

/-- No depth of calls is enough to update a class whose list is shared. -/
theorem update_shared (depth : Nat) (shared : Shared h list) (alive : h.classes self = some cls)
    (has : cls.subClass = some list) : update order depth h self old = none := by
  induction depth generalizing h self cls old with
  | zero => rfl
  | succ depth ih =>
      have some : order.visit (h.lists list) ≠ [] := by
        intro empty
        have perm := order.perm (h.lists list)
        rw [empty] at perm
        exact shared.nonempty perm.nil_eq.symm
      obtain ⟨sub, rest, visited⟩ := List.exists_cons_of_ne_nil some
      have mem : sub ∈ h.lists list := by
        rw [← (order.perm (h.lists list)).mem_iff, visited]
        exact List.mem_cons_self
      obtain ⟨oldSub, alive', own⟩ := shared.members sub mem
      have taken : (takeOver cls old oldSub).subClass = Option.some list :=
        takeOver_subClass has own
      have inner :
          update order depth (h.setClass sub (takeOver cls old oldSub)) sub oldSub = none :=
        ih (shared.setClass taken) (Function.update_self sub _ h.classes) taken
      simp [update, alive, has, visited, alive', inner]

/-- A class without subclasses that are alive has nothing to do. -/
theorem update_idle (alive : h.classes self = some cls)
    (idle : ∀ list, cls.subClass = some list → h.lists list = []) :
    update order 1 h self old = some h := by
  cases has : cls.subClass with
  | none => simp [update, alive, has]
  | some list =>
      have none : order.visit (h.lists list) = [] := by
        rw [idle list has]
        exact (order.perm []).eq_nil
      simp [update, alive, has, none]

/-- The value of a field of a class. -/
def field (h : Heap K V) (c : Nat) (k : K) : Option V := (h.classes c).bind fun cls => cls.fields k

def listOf (h : Heap K V) (c : Nat) : Option Nat := (h.classes c).bind Class.subClass

/-- The classes that descend from a class. -/
inductive Descends (h : Heap K V) (self : Nat) : Nat → Prop
  | child {c : Nat} : superOf h c = some self → Descends h self c
  | next {p c : Nat} : Descends h self p → superOf h c = some p → Descends h self c

/-- A field has its old value in a class and in every class between. -/
inductive Inherited (h : Heap K V) (self : Nat) (k : K) (value : Option V) : Nat → Prop
  | child {c : Nat} : superOf h c = some self → field h c k = value → Inherited h self k value c
  | next {p c : Nat} : Inherited h self k value p → superOf h c = some p → field h c k = value →
      Inherited h self k value c

/-- What an update of a class has to do for the classes that descend from it. -/
structure Updated (h h' : Heap K V) (self : Nat) (old : Class K V) : Prop where
  carried : ∀ c, Descends h self c → ∀ k, field h self k ≠ old.fields k →
    Inherited h self k (old.fields k) c → field h' c k = field h self k
  kept : ∀ c, Descends h self c → ∀ k, ¬ Inherited h self k (old.fields k) c →
    field h' c k = field h c k
  superClass : ∀ c, Descends h self c → superOf h' c = superOf h c
  subClass : ∀ c, Descends h self c → listOf h' c = listOf h c ∧
    ∀ list, listOf h c = some list → h'.lists list = h.lists list

omit [DecidableEq V] in
/-- A class with a subclass that is alive has it in its list. -/
theorem Sound.not_descends (sound : Sound h) (alive : h.classes self = some cls)
    (idle : ∀ list, cls.subClass = some list → h.lists list = []) (c : Nat) :
    ¬ Descends h self c := by
  intro descends
  induction descends with
  | child above =>
      obtain ⟨cls', alive', super⟩ := Option.bind_eq_some_iff.mp above
      obtain ⟨list, parent, -, mem, here, has⟩ := sound.parents _ cls' self alive' super
      cases alive.symm.trans here
      rw [idle list has] at mem
      cases mem
  | next _ _ ih => exact ih

variable [DecidableEq K] {truthy : V → Bool} {fields : K → Option V}
  {trace : List (Event K V × Unit)}

/-- In every hierarchy built with `Inherit`, an update of a class returns and does what it
has to exactly when nothing is alive in the list of the class. -/
theorem update_returns_iff (reach : (machine truthy fields).Reach trace h)
    (alive : h.classes self = some cls) (order : Assoc.PairsOrder Nat) (old : Class K V) :
    (∃ depth h', update order depth h self old = some h' ∧ Updated h h' self old) ↔
      ∀ list, cls.subClass = some list → h.lists list = [] := by
  have sound := sound_of_reach reach
  constructor
  · rintro ⟨depth, h', returned, -⟩ list has
    by_contra nonempty
    have shared : Shared h list := ⟨nonempty, sound.members list⟩
    rw [update_shared depth shared alive has] at returned
    cases returned
  · intro idle
    have none := sound.not_descends alive idle
    refine ⟨1, h, update_idle alive idle, ?_, ?_, ?_, ?_⟩
    · exact fun c descends => absurd descends (none c)
    · exact fun c descends => absurd descends (none c)
    · exact fun c descends => absurd descends (none c)
    · exact fun c descends => absurd descends (none c)

/-- A class that `Inherit` has made stands in its own list. -/
theorem update_never_returns (reach : (machine truthy fields).Reach trace h)
    (alive : h.classes self = some cls) (made : cls.superClass ≠ none)
    (order : Assoc.PairsOrder Nat) (old : Class K V) (depth : Nat) :
    update order depth h self old = none := by
  have sound := sound_of_reach reach
  obtain ⟨p, super⟩ := Option.ne_none_iff_exists'.mp made
  obtain ⟨list, -, has, mem, -⟩ := sound.parents self cls p alive super
  have shared : Shared h list := ⟨List.ne_nil_of_mem mem, sound.members list⟩
  exact update_shared depth shared alive has

/-- The base class with one field, as it was before the field got the value 2. -/
def oldBase : Class Unit Nat := ⟨fun _ => some 1, some 1, none⟩

theorem update_returns_collected :
    ∃ trace h cls, (machine (fun _ => true) oldBase.fields).Reach trace h ∧
      h.classes 0 = some cls ∧ cls.subClass = some 1 ∧
      ∃ depth h', update .asStored depth h 0 oldBase = some h' ∧
        Updated h h' 0 oldBase := by
  have reach : (machine (fun _ => true) oldBase.fields).Reach _ _ :=
    .next (.next (.next .init (e := .inherit 0 fun _ => none) rfl)
      (e := .assign 0 () (some 2)) rfl) (e := .collect 2) rfl
  refine ⟨_, _, _, reach, rfl, rfl, (update_returns_iff reach rfl _ _).mpr ?_⟩
  intro list has
  cases has
  rfl

theorem update_loops_one_subclass :
    ∃ trace h, (machine (fun _ => true) oldBase.fields).Reach trace h ∧
      superOf h 2 = some 0 ∧ field h 0 () = some 2 ∧ field h 2 () = some 1 ∧
      ∀ depth, update .asStored depth h 0 oldBase = none := by
  have reach : (machine (fun _ => true) oldBase.fields).Reach _ _ :=
    .next (.next .init (e := .inherit 0 fun _ => none) rfl) (e := .assign 0 () (some 2)) rfl
  refine ⟨_, _, reach, rfl, rfl, rfl, fun depth => ?_⟩
  have shared : Shared _ 1 := ⟨List.cons_ne_nil 2 [], (sound_of_reach reach).members 1⟩
  exact update_shared depth shared rfl rfl

end Update

end Qiuqiu.Exclass
