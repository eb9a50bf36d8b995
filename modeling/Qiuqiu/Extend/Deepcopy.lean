import Mathlib.Data.Set.Finite.List
import Mathlib.Logic.Function.Basic
import Mathlib.Logic.Relation
import Mathlib.Order.Preorder.Finite
import Qiuqiu.Base.Assoc
import Qiuqiu.Base.Loop

/-!
`table.deepcopy` of lualib/extend/table.lua. The tables stand in a heap. A table that has been
copied is noted in `cache` when its copy is complete, the first table never, and a table at
a level over a hundred is returned as it is; keys are not copied.
-/
namespace Qiuqiu.Extend.Deepcopy
open Assoc
variable {A : Type}

/-- Numbers, strings, booleans and functions are atoms. -/
inductive Value (A : Type) where
  | atom (a : A)
  | userdata (u : Nat)
  | table (r : Nat)
  deriving DecidableEq

abbrev Entry (A : Type) := Value A × Value A

/-- The entries of each table in the order of `pairs`. A table that has not been made yet has
none. -/
structure Heap (A : Type) where
  entries : Nat → List (Entry A)
  next : Nat

structure State (A : Type) where
  heap : Heap A
  cache : Nat → Option Nat

namespace State

def new (s : State A) : Nat × State A :=
  (s.heap.next, { s with heap := { s.heap with next := s.heap.next + 1 } })

/-- `t[k] = v`. -/
def set [DecidableEq A] (s : State A) (t : Nat) (k v : Value A) : State A :=
  let entries := Function.update s.heap.entries t (put (s.heap.entries t) k v)
  { s with heap := { s.heap with entries := entries } }

/-- `cache[t] = c`. -/
def remember (s : State A) (t c : Nat) : State A :=
  { s with cache := Function.update s.cache t (some c) }

end State

section Code
variable [DecidableEq A]

def maxLevel : Nat := 100

/-- The body of the loop of `clone_table`. -/
def copyEntry (clone : Nat → State A → Except String (Nat × State A)) (rel : Nat)
    (s : State A) : Entry A → Except String (State A)
  | (k, .table r) =>
      match s.cache r with
      | some c => .ok (s.set rel k (.table c))
      | none => do
          let (c, s) ← clone r s
          .ok ((s.set rel k (.table c)).remember r c)
  | (_, .userdata _) => .error "can not deepcopy userdata"
  | (k, .atom a) => .ok (s.set rel k (.atom a))

/-- `clone_table`, by the number of levels that are left. -/
def cloneTable : Nat → Nat → State A → Except String (Nat × State A)
  | 0, t, s => .ok (t, s)
  | room + 1, t, s => do
      let (rel, s) := s.new
      let s ← (s.heap.entries t).foldlM (copyEntry (cloneTable room) rel) s
      return (rel, s)

def deepcopy (src : Value A) (h : Heap A) : Except String (Option Nat × Heap A) :=
  match src with
  | .table r => do
      let (d, s) ← cloneTable (maxLevel + 1) r ⟨h, fun _ => none⟩
      return (some d, s.heap)
  | _ => .ok (none, h)

end Code

section Spec

/-- A table has another as a value. -/
def Holds (h : Heap A) (r r' : Nat) : Prop := ∃ k, (k, .table r') ∈ h.entries r

/-- A table has another as a value or as a key. -/
def Link (h : Heap A) (r r' : Nat) : Prop :=
  ∃ k v, (k, v) ∈ h.entries r ∧ (k = .table r' ∨ v = .table r')

def Reach (h : Heap A) : Nat → Nat → Prop := Relation.ReflTransGen (Link h)

/-- From the table, a path goes through so many values. -/
def Deep (h : Heap A) : Nat → Nat → Prop
  | 0, _ => True
  | n + 1, r => ∃ r', Holds h r r' ∧ Deep h n r'

/-- A table with everything below it, no userdata among the values. -/
structure Source (A : Type) where
  heap : Heap A
  root : Nat
  keyed : ∀ r, ((heap.entries r).map Prod.fst).Nodup
  made : ∀ r, Reach heap root r → r < heap.next
  free : ∀ r, heap.next ≤ r → heap.entries r = []
  plain : ∀ r, Reach heap root r → ∀ k u, (k, .userdata u) ∉ heap.entries r

def Value.map (f : Nat → Nat) : Value A → Value A
  | table r => table (f r)
  | v => v

def Entry.map (f : Nat → Nat) (e : Entry A) : Entry A := (e.1.map f, e.2.map f)

/-- Each table below the first has a copy of its own, with the same entries up to the copies,
and no table below the copy is a table of the source. -/
structure Isolated (h : Heap A) (root : Nat) (h' : Heap A) (d : Nat) (f : Nat → Nat) : Prop where
  first : f root = d
  same : ∀ r, Reach h root r → (h'.entries (f r)).Perm ((h.entries r).map (Entry.map f))
  injective : ∀ r r', Reach h root r → Reach h root r' → f r = f r' → r = r'
  apart : ∀ r, Reach h' d r → ¬ Reach h root r

/-- The copy of the table is isolated. -/
def Copied [DecidableEq A] (src : Source A) : Prop :=
  ∃ d h' f, deepcopy (.table src.root) src.heap = .ok (some d, h') ∧
    Isolated src.heap src.root h' d f

/-- The same tables, which `pairs` visits in another order. -/
def Reordered (src src' : Source A) : Prop :=
  src'.root = src.root ∧ src'.heap.next = src.heap.next ∧
    ∀ r, (src'.heap.entries r).Perm (src.heap.entries r)

/-- No table is a key. -/
def PlainKeys (src : Source A) : Prop :=
  ∀ r, Reach src.heap src.root r → ∀ r' v, (.table r', v) ∉ src.heap.entries r

end Spec

section Depth
variable {h : Heap A}

theorem Holds.link {r r' : Nat} (holds : Holds h r r') : Link h r r' := by
  obtain ⟨k, mem⟩ := holds
  exact ⟨k, .table r', mem, .inr rfl⟩

theorem Deep.of_succ {n r : Nat} (deep : Deep h (n + 1) r) : Deep h n r := by
  induction n generalizing r with
  | zero => trivial
  | succ n ih =>
      obtain ⟨r', holds, deep⟩ := deep
      exact ⟨r', holds, ih deep⟩

theorem Deep.of_reflTransGen {n r r' : Nat} (path : Relation.ReflTransGen (Holds h) r r')
    (deep : Deep h n r') : Deep h n r := by
  induction path using Relation.ReflTransGen.head_induction_on with
  | refl => exact deep
  | head holds _ ih => exact Deep.of_succ ⟨_, holds, ih⟩

/-- A cycle has paths of every length. -/
theorem deep_of_cycle {r : Nat} (cycle : Relation.TransGen (Holds h) r r) (n : Nat) :
    Deep h n r := by
  induction n with
  | zero => trivial
  | succ n ih =>
      obtain ⟨r', holds, path⟩ := Relation.TransGen.head'_iff.mp cycle
      exact ⟨r', holds, ih.of_reflTransGen path⟩

end Depth

section Copies
variable {h : Heap A} {s s₁ s₂ : State A} {t rel : Nat} {pre : List (Entry A)}

/-- The table of a copy, by the cache. -/
def copyOf (cache : Nat → Option Nat) (r : Nat) : Nat := (cache r).getD r

/-- An entry whose key stays and whose value is copied. -/
def rename (cache : Nat → Option Nat) (e : Entry A) : Entry A := (e.1, e.2.map (copyOf cache))

def Grows (cache cache' : Nat → Option Nat) : Prop :=
  ∀ r c, cache r = some c → cache' r = some c

/-- These entries of the source are in the copy, and their tables are in the cache. -/
structure Filled (cache : Nat → Option Nat) (pre copy : List (Entry A)) : Prop where
  perm : copy.Perm (pre.map (rename cache))
  cached : ∀ k r, (k, .table r) ∈ pre → (cache r).isSome

/-- The source is as it was, and what is in the cache is complete. -/
structure Copies (h : Heap A) (s : State A) : Prop where
  le : h.next ≤ s.heap.next
  source : ∀ r, r < h.next → s.heap.entries r = h.entries r
  free : ∀ r, s.heap.next ≤ r → s.heap.entries r = []
  range : ∀ r c, s.cache r = some c → h.next ≤ c ∧ c < s.heap.next
  injective : ∀ r r' c, s.cache r = some c → s.cache r' = some c → r = r'
  complete : ∀ r c, s.cache r = some c → Filled s.cache (h.entries r) (s.heap.entries c)

/-- Between two states a copy of the table has been made, as far as these entries. -/
structure Copying (h : Heap A) (t : Nat) (pre : List (Entry A)) (s : State A) (rel : Nat)
    (s' : State A) : Prop where
  copies : Copies h s'
  grows : Grows s.cache s'.cache
  newer : ∀ r c, s'.cache r = some c → s.cache r = some c ∨ s.heap.next ≤ c
  below : ∀ r, s'.cache r ≠ s.cache r → Relation.TransGen (Holds h) t r
  kept : ∀ r, r < s.heap.next → s'.heap.entries r = s.heap.entries r
  range : h.next ≤ rel ∧ s.heap.next ≤ rel ∧ rel < s'.heap.next
  unnamed : ∀ r, s'.cache r ≠ some rel
  filled : Filled s'.cache pre (s'.heap.entries rel)

theorem Filled.grows {cache cache' : Nat → Option Nat} {copy : List (Entry A)}
    (filled : Filled cache pre copy) (grows : Grows cache cache') :
    Filled cache' pre copy := by
  have same : pre.map (rename cache') = pre.map (rename cache) := by
    apply List.map_congr_left
    intro e mem
    obtain ⟨k, v⟩ := e
    cases v with
    | atom _ | userdata _ => rfl
    | table r =>
        obtain ⟨c, known⟩ := Option.isSome_iff_exists.mp (filled.cached k r mem)
        simp [rename, Value.map, copyOf, known, grows r c known]
  refine ⟨same ▸ filled.perm, fun k r mem => ?_⟩
  obtain ⟨c, known⟩ := Option.isSome_iff_exists.mp (filled.cached k r mem)
  exact Option.isSome_of_eq_some (grows r c known)

theorem State.entries_set_of_ne [DecidableEq A] {k v : Value A} {r : Nat} (ne : r ≠ rel) :
    (s.set rel k v).heap.entries r = s.heap.entries r := by
  simp [State.set, ne]

theorem State.cache_remember {r c : Nat} : (s.remember r c).cache r = some c := by
  simp [State.remember]

theorem State.cache_remember_of_ne {r r' c : Nat} (ne : r' ≠ r) :
    (s.remember r c).cache r' = s.cache r' := by
  simp [State.remember, ne]

/-- A table begins with no entries. -/
theorem Copies.copying_new (copies : Copies h s) (t : Nat) :
    Copying h t [] s s.new.1 s.new.2 where
  copies :=
    { le := Nat.le_succ_of_le copies.le
      source := copies.source
      free := fun r le => copies.free r (Nat.le_of_succ_le le)
      range := fun r c known =>
        ⟨(copies.range r c known).1, Nat.lt_succ_of_lt (copies.range r c known).2⟩
      injective := copies.injective
      complete := copies.complete }
  grows _ _ known := known
  newer _ _ known := .inl known
  below r changed := absurd rfl changed
  kept _ _ := rfl
  range := ⟨copies.le, Nat.le_refl _, Nat.lt_succ_self _⟩
  unnamed r known := Nat.lt_irrefl _ (copies.range r _ known).2
  filled := ⟨by simp [State.new, copies.free s.heap.next (Nat.le_refl _)], by simp⟩

theorem Filled.notMem_keys {cache : Nat → Option Nat} {copy : List (Entry A)} {k : Value A}
    (filled : Filled cache pre copy) (fresh : k ∉ pre.map Prod.fst) :
    k ∉ copy.map Prod.fst := by
  rw [(filled.perm.map Prod.fst).mem_iff, List.map_map]
  exact fresh

/-- The next entry is written, its value copied by the cache. -/
theorem Copying.set [DecidableEq A] (copying : Copying h t pre s rel s₁) {k v : Value A}
    (fresh : k ∉ pre.map Prod.fst) (cached : ∀ r, v = .table r → (s₁.cache r).isSome) :
    Copying h t (pre ++ [(k, v)]) s rel (s₁.set rel k (v.map (copyOf s₁.cache))) where
  copies :=
    { le := copying.copies.le
      source := fun r lt => by
        rw [State.entries_set_of_ne (Nat.ne_of_lt (Nat.lt_of_lt_of_le lt copying.range.1))]
        exact copying.copies.source r lt
      free := fun r le => by
        rw [State.entries_set_of_ne (Nat.ne_of_gt (Nat.lt_of_lt_of_le copying.range.2.2 le))]
        exact copying.copies.free r le
      range := copying.copies.range
      injective := copying.copies.injective
      complete := fun r c known => by
        have ne : c ≠ rel := fun same => copying.unnamed r (same ▸ known)
        rw [State.entries_set_of_ne ne]
        exact copying.copies.complete r c known }
  grows := copying.grows
  newer := copying.newer
  below := copying.below
  kept r lt := by
    rw [State.entries_set_of_ne (Nat.ne_of_lt (Nat.lt_of_lt_of_le lt copying.range.2.1))]
    exact copying.kept r lt
  range := copying.range
  unnamed := copying.unnamed
  filled := by
    have absent := copying.filled.notMem_keys fresh
    refine ⟨?_, ?_⟩
    · have entries : (s₁.set rel k (v.map (copyOf s₁.cache))).heap.entries rel =
          rename s₁.cache (k, v) :: s₁.heap.entries rel := by
        simp [State.set, put, remove_absent absent, rename]
      rw [entries, List.map_append]
      exact (copying.filled.perm.cons _).trans (List.perm_append_singleton _ _).symm
    · intro k' r mem
      cases List.mem_append.mp mem with
      | inl mem => exact copying.filled.cached k' r mem
      | inr mem =>
          rw [List.mem_singleton, Prod.mk.injEq] at mem
          exact cached r mem.2.symm

/-- The copy of a table on no cycle is complete, and is noted. -/
theorem Copying.noted {r c : Nat} (copying : Copying h r (h.entries r) s c s₁)
    (absent : s.cache r = none) (apart : ¬ Relation.TransGen (Holds h) r r) :
    Copies h (s₁.remember r c) ∧ Grows s₁.cache (s₁.remember r c).cache := by
  have still : s₁.cache r = none := by
    by_contra changed
    exact apart (copying.below r (absent ▸ changed))
  have grows : Grows s₁.cache (s₁.remember r c).cache := by
    intro r' c' known
    rw [State.cache_remember_of_ne (fun same => by simp [same, still] at known)]
    exact known
  refine ⟨⟨copying.copies.le, copying.copies.source, copying.copies.free, ?_, ?_, ?_⟩, grows⟩
  · intro r' c' known
    by_cases same : r' = r
    · rw [same, State.cache_remember, Option.some.injEq] at known
      exact known ▸ ⟨copying.range.1, copying.range.2.2⟩
    · rw [State.cache_remember_of_ne same] at known
      exact copying.copies.range r' c' known
  · intro r₁ r₂ c' known₁ known₂
    by_cases same₁ : r₁ = r <;> by_cases same₂ : r₂ = r
    · rw [same₁, same₂]
    · rw [same₁, State.cache_remember, Option.some.injEq] at known₁
      rw [State.cache_remember_of_ne same₂, ← known₁] at known₂
      exact absurd known₂ (copying.unnamed r₂)
    · rw [same₂, State.cache_remember, Option.some.injEq] at known₂
      rw [State.cache_remember_of_ne same₁, ← known₂] at known₁
      exact absurd known₁ (copying.unnamed r₁)
    · rw [State.cache_remember_of_ne same₁] at known₁
      rw [State.cache_remember_of_ne same₂] at known₂
      exact copying.copies.injective r₁ r₂ c' known₁ known₂
  · intro r' c' known
    by_cases same : r' = r
    · rw [same, State.cache_remember, Option.some.injEq] at known
      rw [same, ← known]
      exact copying.filled.grows grows
    · rw [State.cache_remember_of_ne same] at known
      exact (copying.copies.complete r' c' known).grows grows

/-- A value has been copied and noted while a table is copied. -/
theorem Copying.remember (copying : Copying h t pre s rel s₁) {r c : Nat} (holds : Holds h t r)
    (absent : s₁.cache r = none) (apart : ¬ Relation.TransGen (Holds h) r r)
    (inner : Copying h r (h.entries r) s₁ c s₂) :
    Copying h t pre s rel (s₂.remember r c) := by
  obtain ⟨copies, grows⟩ := inner.noted absent apart
  have before : s.heap.next < s₁.heap.next := Nat.lt_of_le_of_lt copying.range.2.1 copying.range.2.2
  have apartCopies : rel < c := Nat.lt_of_lt_of_le copying.range.2.2 inner.range.2.1
  refine ⟨copies, ?_, ?_, ?_, ?_, ?_, ?_, ?_⟩
  · exact fun r' c' known => grows r' c' (inner.grows r' c' (copying.grows r' c' known))
  · intro r' c' known
    by_cases same : r' = r
    · rw [same, State.cache_remember, Option.some.injEq] at known
      exact .inr (known ▸ Nat.le_trans (Nat.le_of_lt before) inner.range.2.1)
    · rw [State.cache_remember_of_ne same] at known
      cases inner.newer r' c' known with
      | inl known => exact copying.newer r' c' known
      | inr le => exact .inr (Nat.le_trans (Nat.le_of_lt before) le)
  · intro r' changed
    by_cases same : r' = r
    · exact same ▸ .single holds
    · rw [State.cache_remember_of_ne same] at changed
      by_cases first : s₁.cache r' = s.cache r'
      · exact (inner.below r' (first ▸ changed)).head holds
      · exact copying.below r' first
  · intro r' lt
    exact (inner.kept r' (Nat.lt_trans lt before)).trans (copying.kept r' lt)
  · exact ⟨copying.range.1, copying.range.2.1, Nat.lt_trans apartCopies inner.range.2.2⟩
  · intro r' known
    by_cases same : r' = r
    · rw [same, State.cache_remember, Option.some.injEq] at known
      exact Nat.ne_of_gt apartCopies known
    · rw [State.cache_remember_of_ne same] at known
      cases inner.newer r' rel known with
      | inl known => exact copying.unnamed r' known
      | inr le => exact Nat.not_lt.mpr le copying.range.2.2
  · have entries : (s₂.remember r c).heap.entries rel = s₁.heap.entries rel :=
      inner.kept rel copying.range.2.2
    rw [entries]
    exact copying.filled.grows fun r' c' known => grows r' c' (inner.grows r' c' known)

end Copies

section Runs
variable [DecidableEq A] (src : Source A)

/-- One entry of the loop, when the tables below are copied. -/
theorem copyEntry_copying {room t rel : Nat} {pre rest : List (Entry A)} {e : Entry A}
    {s s₁ : State A} (reach : Reach src.heap src.root t)
    (shallow : ¬ Deep src.heap (room + 1) t)
    (clone : ∀ r s, Reach src.heap src.root r → ¬ Deep src.heap room r → Copies src.heap s →
      ∃ c s', cloneTable room r s = .ok (c, s') ∧
        Copying src.heap r (src.heap.entries r) s c s')
    (whole : src.heap.entries t = pre ++ e :: rest)
    (copying : Copying src.heap t pre s rel s₁) :
    ∃ s₂, copyEntry (cloneTable room) rel s₁ e = .ok s₂ ∧
      Copying src.heap t (pre ++ [e]) s rel s₂ := by
  obtain ⟨k, v⟩ := e
  have mem : (k, v) ∈ src.heap.entries t := by simp [whole]
  have fresh : k ∉ pre.map Prod.fst := by
    have keyed := src.keyed t
    rw [whole, List.map_append, List.map_cons, List.nodup_append] at keyed
    exact fun present => keyed.2.2 k present k List.mem_cons_self rfl
  cases v with
  | userdata u => exact absurd mem (src.plain t reach k u)
  | atom a =>
      refine ⟨s₁.set rel k (.atom a), rfl, ?_⟩
      exact copying.set fresh fun r same => by cases same
  | table r =>
      cases known : s₁.cache r with
      | some c =>
          refine ⟨s₁.set rel k (.table c), by simp [copyEntry, known], ?_⟩
          have written := copying.set (v := .table r) fresh fun r' same => by
            cases same
            exact Option.isSome_of_eq_some known
          simpa [Value.map, copyOf, known] using written
      | none =>
          have holds : Holds src.heap t r := ⟨k, mem⟩
          have shallow' : ¬ Deep src.heap room r := fun deep => shallow ⟨r, holds, deep⟩
          obtain ⟨c, s₂, run, inner⟩ :=
            clone r s₁ (reach.tail holds.link) shallow' copying.copies
          have noted := copying.remember holds known
            (fun cycle => shallow' (deep_of_cycle cycle room)) inner
          refine ⟨(s₂.set rel k (.table c)).remember r c, ?_, ?_⟩
          · simp only [copyEntry, known, run]
            rfl
          · have cached : (s₂.remember r c).cache r = some c := State.cache_remember
            have written := noted.set (v := .table r) fresh fun r' same => by
              cases same
              exact Option.isSome_of_eq_some cached
            simp only [Value.map, copyOf, cached, Option.getD_some] at written
            exact written

/-- A table from which no path is too long is copied, with everything below it that is not in
the cache yet. -/
theorem cloneTable_copying {room t : Nat} {s : State A} (reach : Reach src.heap src.root t)
    (shallow : ¬ Deep src.heap room t) (copies : Copies src.heap s) :
    ∃ c s', cloneTable room t s = .ok (c, s') ∧
      Copying src.heap t (src.heap.entries t) s c s' := by
  induction room generalizing t s with
  | zero => exact absurd trivial shallow
  | succ room ih =>
      have same : s.new.2.heap.entries t = src.heap.entries t :=
        copies.source t (src.made t reach)
      obtain ⟨s', run, copying⟩ := Loop.foldlM_returns
        (l := src.heap.entries t) (f := copyEntry (cloneTable room) s.new.1)
        (fun pre s' => Copying src.heap t pre s s.new.1 s') (copies.copying_new t)
        fun pre e rest s₁ whole copying =>
          copyEntry_copying src reach shallow
            (fun _ _ reach shallow copies => ih reach shallow copies) whole copying
      refine ⟨s.new.1, s', ?_, copying⟩
      simp only [cloneTable, same, run]
      rfl

end Runs

section Whole
variable {src : Source A}

/-- The copies of everything below the root, noted with the root. -/
structure Complete (src : Source A) (d : Nat) (s : State A) : Prop where
  copies : Copies src.heap s
  root : s.cache src.root = some d
  reached : ∀ r, (s.cache r).isSome → Relation.ReflTransGen (Holds src.heap) src.root r

theorem deepcopy_complete [DecidableEq A]
    (shallow : ¬ Deep src.heap (maxLevel + 1) src.root) :
    ∃ d s, deepcopy (.table src.root) src.heap = .ok (some d, s.heap) ∧ Complete src d s := by
  let start : State A := ⟨src.heap, fun _ => none⟩
  have copies : Copies src.heap start :=
    { le := Nat.le_refl _
      source := fun _ _ => rfl
      free := src.free
      range := fun _ _ known => by cases known
      injective := fun _ _ _ known => by cases known
      complete := fun _ _ known => by cases known }
  obtain ⟨d, s, run, copying⟩ := cloneTable_copying src .refl shallow copies
  have apart : ¬ Relation.TransGen (Holds src.heap) src.root src.root :=
    fun cycle => shallow (deep_of_cycle cycle _)
  refine ⟨d, s.remember src.root d, ?_, (copying.noted rfl apart).1, State.cache_remember, ?_⟩
  · simp only [deepcopy, start] at run ⊢
    rw [run]
    rfl
  · intro r known
    by_cases same : r = src.root
    · exact same ▸ .refl
    · rw [State.cache_remember_of_ne same] at known
      refine (copying.below r fun unchanged => ?_).to_reflTransGen
      rw [unchanged] at known
      cases known

variable {d : Nat} {s : State A}

theorem Complete.isSome (complete : Complete src d s) {r : Nat}
    (path : Relation.ReflTransGen (Holds src.heap) src.root r) : (s.cache r).isSome := by
  induction path with
  | refl => exact Option.isSome_of_eq_some complete.root
  | tail _ holds ih =>
      obtain ⟨c, known⟩ := Option.isSome_iff_exists.mp ih
      obtain ⟨k, mem⟩ := holds
      exact (complete.copies.complete _ c known).cached k _ mem

/-- An entry of a copy comes from an entry of the source with the same key. -/
theorem Complete.entry (complete : Complete src d s) {r c : Nat} (known : s.cache r = some c)
    {k v : Value A} (mem : (k, v) ∈ s.heap.entries c) :
    ∃ v', (k, v') ∈ src.heap.entries r ∧ v = v'.map (copyOf s.cache) := by
  have mem := (complete.copies.complete r c known).perm.subset mem
  obtain ⟨e, mem, same⟩ := List.mem_map.mp mem
  obtain ⟨k', v'⟩ := e
  simp only [rename, Prod.mk.injEq] at same
  exact ⟨v', same.1 ▸ mem, same.2.symm⟩

/-- A table that a copy has as a value is a copy. -/
theorem Complete.value (complete : Complete src d s) {r c x : Nat} (known : s.cache r = some c)
    {k : Value A} (mem : (k, .table x) ∈ s.heap.entries c) : ∃ r', s.cache r' = some x := by
  obtain ⟨v', mem, same⟩ := complete.entry known mem
  cases v' with
  | atom _ | userdata _ => cases same
  | table r' =>
      have cached := (complete.copies.complete r c known).cached k r' mem
      obtain ⟨c', known'⟩ := Option.isSome_iff_exists.mp cached
      refine ⟨r', ?_⟩
      simp only [Value.map, copyOf, known', Option.getD_some, Value.table.injEq] at same
      rw [known', same]

theorem PlainKeys.holds (plain : PlainKeys src) {r : Nat} (reach : Reach src.heap src.root r) :
    Relation.ReflTransGen (Holds src.heap) src.root r := by
  induction reach with
  | refl => exact .refl
  | tail reach link ih =>
      obtain ⟨k, v, mem, found⟩ := link
      cases found with
      | inl key => exact absurd (key ▸ mem) (plain _ reach _ v)
      | inr value => exact ih.tail ⟨k, value ▸ mem⟩

theorem Complete.reach (complete : Complete src d s) {r c : Nat} (known : s.cache r = some c) :
    Reach src.heap src.root r :=
  Relation.ReflTransGen.mono (fun _ _ => Holds.link) _ _
    (complete.reached r (Option.isSome_of_eq_some known))

/-- Without tables as keys the copies are isolated. -/
theorem Complete.isolated (complete : Complete src d s) (plain : PlainKeys src) :
    Isolated src.heap src.root s.heap d (copyOf s.cache) := by
  have known : ∀ r, Reach src.heap src.root r → s.cache r = some (copyOf s.cache r) := by
    intro r reach
    obtain ⟨c, known⟩ := Option.isSome_iff_exists.mp (complete.isSome (plain.holds reach))
    rw [copyOf, known, Option.getD_some]
  refine ⟨by rw [copyOf, complete.root, Option.getD_some], ?_, ?_, ?_⟩
  · intro r reach
    refine (complete.copies.complete r _ (known r reach)).perm.trans (.of_eq ?_)
    apply List.map_congr_left
    intro e mem
    obtain ⟨k, v⟩ := e
    cases k with
    | atom _ | userdata _ => rfl
    | table r' => exact absurd mem (plain r reach r' v)
  · intro r r' reach reach' same
    exact complete.copies.injective r r' _ (known r reach) (same ▸ known r' reach')
  · intro x reach
    have copy : ∃ r, s.cache r = some x := by
      induction reach with
      | refl => exact ⟨_, complete.root⟩
      | tail _ link ih =>
          obtain ⟨r, known⟩ := ih
          obtain ⟨k, v, mem, found⟩ := link
          cases found with
          | inl key =>
              obtain ⟨v', mem', -⟩ := complete.entry known mem
              exact absurd (key ▸ mem') (plain r (complete.reach known) _ v')
          | inr value => exact complete.value known (value ▸ mem)
    obtain ⟨r, known⟩ := copy
    exact fun source =>
      Nat.not_lt.mpr (complete.copies.range r x known).1 (src.made x source)

theorem Isolated.link {h h' : Heap A} {root d : Nat} {f : Nat → Nat}
    (isolated : Isolated h root h' d f) {r r' : Nat} (reach : Reach h root r)
    (link : Link h r r') : Link h' (f r) (f r') := by
  obtain ⟨k, v, mem, found⟩ := link
  have mem' : (k.map f, v.map f) ∈ h'.entries (f r) :=
    (isolated.same r reach).symm.subset (List.mem_map_of_mem mem)
  refine ⟨k.map f, v.map f, mem', ?_⟩
  cases found with
  | inl key => exact .inl (key ▸ rfl)
  | inr value => exact .inr (value ▸ rfl)

theorem Isolated.reach {h h' : Heap A} {root d : Nat} {f : Nat → Nat}
    (isolated : Isolated h root h' d f) {r : Nat} (reach : Reach h root r) :
    Reach h' d (f r) := by
  induction reach with
  | refl => exact isolated.first ▸ .refl
  | tail reach link ih => exact ih.tail (isolated.link reach link)

/-- A key of a copy is a key of the source, so it is no table when the copies are isolated. -/
theorem Complete.plainKeys (complete : Complete src d s) {f : Nat → Nat}
    (isolated : Isolated src.heap src.root s.heap d f) : PlainKeys src := by
  have noKey : ∀ r q, Reach src.heap src.root r → s.cache q = some (f r) →
      ∀ r' v, (.table r', v) ∉ src.heap.entries r := by
    intro r q reach known r' v mem
    have link : Link src.heap r r' := ⟨_, v, mem, .inl rfl⟩
    have mem' : (.table (f r'), v.map f) ∈ s.heap.entries (f r) :=
      (isolated.same r reach).symm.subset (List.mem_map_of_mem mem)
    obtain ⟨v', inSource, -⟩ := complete.entry known mem'
    have source : Reach src.heap src.root (f r') :=
      (complete.reach known).tail ⟨_, v', inSource, .inl rfl⟩
    exact isolated.apart (f r') (isolated.reach (reach.tail link)) source
  have copy : ∀ r, Reach src.heap src.root r → ∃ q, s.cache q = some (f r) := by
    intro r reach
    induction reach with
    | refl => exact ⟨_, isolated.first ▸ complete.root⟩
    | tail reach link ih =>
        obtain ⟨q, known⟩ := ih
        obtain ⟨k, v, mem, found⟩ := link
        cases found with
        | inl key => exact absurd (key ▸ mem) (noKey _ q reach known _ v)
        | inr value =>
            subst value
            exact complete.value known
              ((isolated.same _ reach).symm.subset (List.mem_map_of_mem mem))
  intro r reach
  obtain ⟨q, known⟩ := copy r reach
  exact noKey r q reach known

end Whole

section Frame
variable [DecidableEq A] {room rel t c : Nat} {s s' : State A}

def Free (s : State A) : Prop := ∀ r, s.heap.next ≤ r → s.heap.entries r = []

/-- The tables that were there are as they were. -/
structure Keeps (s s' : State A) : Prop where
  le : s.heap.next ≤ s'.heap.next
  kept : ∀ r, r < s.heap.next → s'.heap.entries r = s.heap.entries r
  free : Free s'

/-- Of the tables that were there, one has been written, at one key. -/
structure Writes (rel : Nat) (k : Value A) (s s' : State A) : Prop where
  le : s.heap.next ≤ s'.heap.next
  kept : ∀ r, r < s.heap.next → r ≠ rel → s'.heap.entries r = s.heap.entries r
  written : ∃ v, s'.heap.entries rel = put (s.heap.entries rel) k v
  free : Free s'

theorem Keeps.writes (keeps : Keeps s s') (lt : rel < s.heap.next) (k v : Value A) :
    Writes rel k s (s'.set rel k v) where
  le := keeps.le
  kept r before ne := by
    rw [State.entries_set_of_ne ne]
    exact keeps.kept r before
  written := ⟨v, by simp [State.set, keeps.kept rel lt]⟩
  free r le := by
    have ne : r ≠ rel := Nat.ne_of_gt (Nat.lt_of_lt_of_le lt (Nat.le_trans keeps.le le))
    rw [State.entries_set_of_ne ne]
    exact keeps.free r le

theorem copyEntry_writes {clone : Nat → State A → Except String (Nat × State A)}
    (keeps : ∀ t s c s', Free s → clone t s = .ok (c, s') → Keeps s s')
    (lt : rel < s.heap.next) (free : Free s) {e : Entry A}
    (run : copyEntry clone rel s e = .ok s') : Writes rel e.1 s s' := by
  have none : Keeps s s := ⟨Nat.le_refl _, fun _ _ => rfl, free⟩
  obtain ⟨k, v⟩ := e
  cases v with
  | userdata u => cases run
  | atom a =>
      cases run
      exact none.writes lt k (.atom a)
  | table r =>
      rw [copyEntry] at run
      cases known : s.cache r with
      | some c =>
          rw [known] at run
          cases run
          exact none.writes lt k (.table c)
      | none =>
          rw [known, Loop.bind_ok] at run
          obtain ⟨⟨c, s₁⟩, cloned, written⟩ := run
          cases written
          have writes := (keeps r s c s₁ free cloned).writes lt k (.table c)
          exact ⟨writes.le, writes.kept, writes.written, writes.free⟩

theorem cloneTable_keeps (room : Nat) :
    ∀ t (s : State A) c s', Free s → cloneTable room t s = .ok (c, s') → Keeps s s' := by
  induction room with
  | zero =>
      intro t s c s' free run
      cases run
      exact ⟨Nat.le_refl _, fun _ _ => rfl, free⟩
  | succ room ih =>
      intro t s c s' free run
      rw [cloneTable, Loop.bind_ok] at run
      obtain ⟨s₁, filled, done⟩ := run
      cases done
      -- The loop writes the new table only.
      have loop : s.heap.next < s'.heap.next ∧
          (∀ r, r < s.heap.next → s'.heap.entries r = s.heap.entries r) ∧ Free s' := by
        refine Loop.foldlM_invariant (t := s.new.2) (fun _ s' => s.heap.next < s'.heap.next ∧
          (∀ r, r < s.heap.next → s'.heap.entries r = s.heap.entries r) ∧ Free s') ?_ ?_ filled
        · exact ⟨Nat.lt_succ_self _, fun _ _ => rfl, fun r le => free r (Nat.le_of_succ_le le)⟩
        · intro _ e s₁ s₂ holds run
          obtain ⟨lt, kept, free₁⟩ := holds
          have writes := copyEntry_writes ih lt free₁ run
          refine ⟨Nat.lt_of_lt_of_le lt writes.le, ?_, writes.free⟩
          intro r before
          rw [writes.kept r (Nat.lt_trans before lt) (Nat.ne_of_lt before)]
          exact kept r before
      exact ⟨Nat.le_of_lt loop.1, loop.2.1, loop.2.2⟩

/-- A loop that writes new keys of a table loses no entry of any table. -/
theorem fill_grows {l : List (Entry A)} (lt : rel < s.heap.next) (free : Free s)
    (keyed : ((l ++ s.heap.entries rel).map Prod.fst).Nodup)
    (run : l.foldlM (copyEntry (cloneTable room) rel) s = .ok s') (r : Nat) :
    s.heap.entries r ⊆ s'.heap.entries r := by
  induction l generalizing s with
  | nil =>
      cases run
      exact List.Subset.refl _
  | cons e l ih =>
      rw [List.foldlM_cons, Loop.bind_ok] at run
      obtain ⟨s₁, first, run⟩ := run
      have writes := copyEntry_writes (cloneTable_keeps room) lt free first
      obtain ⟨v, written⟩ := writes.written
      have fresh : e.1 ∉ (s.heap.entries rel).map Prod.fst := by
        rw [List.cons_append, List.map_cons, List.nodup_cons] at keyed
        intro present
        apply keyed.1
        rw [List.map_append]
        exact List.mem_append_right _ present
      rw [put, remove_absent fresh] at written
      have keyed' : ((l ++ s₁.heap.entries rel).map Prod.fst).Nodup := by
        rw [written]
        have middle : ((l ++ (e.1, v) :: s.heap.entries rel).map Prod.fst).Perm
            ((e :: l ++ s.heap.entries rel).map Prod.fst) := by
          simp only [List.map_append, List.map_cons, List.cons_append]
          exact List.perm_middle
        exact middle.nodup_iff.mpr keyed
      have later := ih (Nat.lt_of_lt_of_le lt writes.le) writes.free keyed' run
      refine List.Subset.trans ?_ later
      by_cases same : r = rel
      · rw [same, written]
        exact List.subset_cons_self _ _
      · by_cases before : r < s.heap.next
        · rw [writes.kept r before same]
          exact List.Subset.refl _
        · rw [free r (Nat.not_lt.mp before)]
          exact List.nil_subset _

/-- The value of the first entry, a table that is not in the cache, is copied first, and
everything that is written then stays. -/
theorem cloneTable_first {k : Value A} {r : Nat} {rest : List (Entry A)} (free : Free s)
    (split : s.heap.entries t = (k, .table r) :: rest)
    (keyed : ((s.heap.entries t).map Prod.fst).Nodup) (uncached : s.cache r = none)
    (run : cloneTable (room + 1) t s = .ok (c, s')) :
    ∃ c₁ s₁, cloneTable room r s.new.2 = .ok (c₁, s₁) ∧ Link s'.heap c c₁ ∧
      ∀ r', s₁.heap.entries r' ⊆ s'.heap.entries r' := by
  rw [cloneTable, Loop.bind_ok] at run
  obtain ⟨s₃, filled, done⟩ := run
  rw [show s.new.2.heap.entries t = _ from split, List.foldlM_cons, Loop.bind_ok] at filled
  obtain ⟨s₂, first, filled⟩ := filled
  rw [copyEntry, show s.new.2.cache r = none from uncached, Loop.bind_ok] at first
  obtain ⟨⟨c₁, s₁⟩, cloned, written⟩ := first
  have freeNew : Free s.new.2 := fun r' le => free r' (Nat.le_of_succ_le le)
  have inner := cloneTable_keeps room _ _ _ _ freeNew cloned
  have lt : s.new.1 < s.new.2.heap.next := Nat.lt_succ_self _
  have writes := inner.writes lt k (.table c₁)
  cases written
  cases done
  have before : s₁.heap.entries s.new.1 = [] :=
    (inner.kept s.new.1 lt).trans (free s.heap.next (Nat.le_refl _))
  have after : ((s₁.set s.new.1 k (.table c₁)).remember r c₁).heap.entries s.new.1 =
      [(k, .table c₁)] := by
    simp [State.set, State.remember, before, put, remove]
  have fresh : ((rest ++ [(k, Value.table c₁)]).map Prod.fst).Nodup := by
    rw [split] at keyed
    refine List.Perm.nodup ?_ keyed
    simpa using (List.perm_append_singleton k (rest.map Prod.fst)).symm
  have grows := fill_grows (s := (s₁.set s.new.1 k (.table c₁)).remember r c₁)
    (Nat.lt_of_lt_of_le lt writes.le) writes.free (after ▸ fresh) filled
  refine ⟨c₁, s₁, cloned, ⟨k, .table c₁, grows s.new.1 ?_, .inr rfl⟩, ?_⟩
  · rw [after]
    exact List.mem_singleton_self _
  · intro r'
    by_cases same : r' = s.new.1
    · rw [same, before]
      exact List.nil_subset _
    · rw [← State.entries_set_of_ne same]
      exact grows r'

end Frame

section DeepFirst

/-- `pairs` begins with a value from which the longest path goes. -/
def DeepFirst (h : Heap A) : Prop :=
  ∀ r r', Holds h r r' → ∃ k r₁ rest, h.entries r = (k, .table r₁) :: rest ∧
    ∀ n, Deep h (n + 1) r → Deep h n r₁

/-- Of two tables, the paths from one are as long as those from the other. -/
theorem deep_total (h : Heap A) (a b : Nat) :
    (∀ n, Deep h n a → Deep h n b) ∨ ∀ n, Deep h n b → Deep h n a := by
  by_contra neither
  rw [not_or] at neither
  obtain ⟨left, right⟩ := neither
  push Not at left right
  obtain ⟨n, deepA, notB⟩ := left
  obtain ⟨m, deepB, notA⟩ := right
  have antitone : ∀ r n m, m ≤ n → Deep h n r → Deep h m r := by
    intro r n m le deep
    induction le with
    | refl => exact deep
    | step _ ih => exact ih deep.of_succ
  cases Nat.le_total n m with
  | inl le => exact notB (antitone b m n le deepB)
  | inr le => exact notA (antitone a n m le deepA)

theorem finite_holds (h : Heap A) (r : Nat) : { r' | Holds h r r' }.Finite := by
  let table (e : Entry A) : Nat :=
    match e.2 with
    | .table r' => r'
    | _ => 0
  refine ((List.finite_toSet (h.entries r)).image table).subset ?_
  intro r' holds
  obtain ⟨k, mem⟩ := holds
  exact ⟨(k, .table r'), mem, rfl⟩

theorem exists_deepest {h : Heap A} {r r' : Nat} (holds : Holds h r r') :
    ∃ r₁, Holds h r r₁ ∧ ∀ n, Deep h (n + 1) r → Deep h n r₁ := by
  obtain ⟨r₁, holds₁, deepest⟩ := (finite_holds h r).exists_maximalFor
    (fun r' => { n | Deep h n r' }) _ ⟨r', holds⟩
  refine ⟨r₁, holds₁, ?_⟩
  intro n deep
  obtain ⟨r₂, holds₂, deep₂⟩ := deep
  cases deep_total h r₂ r₁ with
  | inl le => exact le n deep₂
  | inr le => exact deepest holds₂ le deep₂

section Perm
variable {h h' : Heap A} (perm : ∀ r, (h'.entries r).Perm (h.entries r))
include perm

theorem deep_perm (n r : Nat) : Deep h' n r ↔ Deep h n r := by
  induction n generalizing r with
  | zero => exact Iff.rfl
  | succ n ih =>
      have holds : ∀ r', Holds h' r r' ↔ Holds h r r' := fun r' =>
        exists_congr fun k => (perm r).mem_iff
      exact exists_congr fun r' => and_congr (holds r') (ih r')

theorem reach_perm : Reach h' = Reach h := by
  have link : Link h' = Link h := by
    funext r r'
    exact propext (exists_congr fun k => exists_congr fun v => and_congr_left' (perm r).mem_iff)
  rw [Reach, link, Reach]

end Perm

/-- Some order of `pairs` goes down the longest paths first. -/
theorem exists_deepFirst (src : Source A) :
    ∃ src', Reordered src src' ∧ DeepFirst src'.heap := by
  have orders : ∀ r, ∃ l, l.Perm (src.heap.entries r) ∧ ∀ r', Holds src.heap r r' →
      ∃ k r₁ rest, l = (k, .table r₁) :: rest ∧
        ∀ n, Deep src.heap (n + 1) r → Deep src.heap n r₁ := by
    intro r
    by_cases any : ∃ r', Holds src.heap r r'
    · obtain ⟨r', holds⟩ := any
      obtain ⟨r₁, ⟨k, mem⟩, deepest⟩ := exists_deepest holds
      obtain ⟨before, after, split⟩ := List.append_of_mem mem
      refine ⟨(k, .table r₁) :: (before ++ after), ?_, fun _ _ => ⟨k, r₁, _, rfl, deepest⟩⟩
      rw [split]
      exact List.perm_middle.symm
    · exact ⟨_, .rfl, fun r' holds => absurd ⟨r', holds⟩ any⟩
  choose order perm first using orders
  let heap : Heap A := ⟨order, src.heap.next⟩
  have reach : Reach heap = Reach src.heap := reach_perm perm
  let src' : Source A :=
    { heap := heap
      root := src.root
      keyed := fun r => ((perm r).map Prod.fst).nodup_iff.mpr (src.keyed r)
      made := fun r => reach ▸ src.made r
      free := fun r le => by
        have := perm r
        rw [src.free r le] at this
        exact this.eq_nil
      plain := fun r reaches k u mem =>
        src.plain r (reach ▸ reaches) k u ((perm r).mem_iff.mp mem) }
  refine ⟨src', ⟨rfl, rfl, perm⟩, ?_⟩
  intro r r' holds
  obtain ⟨k, mem⟩ := holds
  obtain ⟨k₁, r₁, rest, split, deepest⟩ := first r r' ⟨k, (perm r).mem_iff.mp mem⟩
  refine ⟨k₁, r₁, rest, split, ?_⟩
  intro n deep
  exact (deep_perm perm n r₁).mpr (deepest n ((deep_perm perm (n + 1) r).mp deep))

end DeepFirst

section Leads
variable {src : Source A}

theorem Reach.grows {h h' : Heap A} (grows : ∀ r, h.entries r ⊆ h'.entries r) {r r' : Nat}
    (reach : Reach h r r') : Reach h' r r' := by
  refine Relation.ReflTransGen.mono ?_ r r' reach
  intro a b link
  obtain ⟨k, v, mem, found⟩ := link
  exact ⟨k, v, grows a mem, found⟩

/-- When the loop goes down a path that is too long, before any copy is complete, the copy
leads to a table of the source. -/
theorem cloneTable_leads [DecidableEq A] (deepFirst : DeepFirst src.heap) {room t c : Nat}
    {s s' : State A} (reach : Reach src.heap src.root t) (deep : Deep src.heap room t)
    (empty : ∀ r, s.cache r = none) (keeps : Keeps ⟨src.heap, s.cache⟩ s)
    (run : cloneTable room t s = .ok (c, s')) :
    ∃ x, Reach src.heap src.root x ∧ Reach s'.heap c x := by
  induction room generalizing t c s s' with
  | zero =>
      cases run
      exact ⟨t, reach, .refl⟩
  | succ room ih =>
      obtain ⟨r', holds, -⟩ := id deep
      obtain ⟨k, r₁, rest, split, deepest⟩ := deepFirst t r' holds
      have entries := keeps.kept t (src.made t reach)
      obtain ⟨c₁, s₁, cloned, link, grows⟩ := cloneTable_first keeps.free (entries.trans split)
        (entries ▸ src.keyed t) (empty r₁) run
      have link₁ : Link src.heap t r₁ := ⟨k, .table r₁, split ▸ List.mem_cons_self, .inr rfl⟩
      have keepsNew : Keeps ⟨src.heap, s.new.2.cache⟩ s.new.2 :=
        ⟨Nat.le_succ_of_le keeps.le, keeps.kept,
          fun r le => keeps.free r (Nat.le_of_succ_le le)⟩
      obtain ⟨x, source, leads⟩ :=
        ih (s := s.new.2) (reach.tail link₁) (deepest room deep) empty keepsNew cloned
      exact ⟨x, source, (leads.grows grows).head link⟩

end Leads

section Main
variable [DecidableEq A]

theorem not_copied_of_deep {src : Source A} (deepFirst : DeepFirst src.heap)
    (deep : Deep src.heap (maxLevel + 1) src.root) : ¬ Copied src := by
  rintro ⟨d, h', f, run, isolated⟩
  rw [deepcopy, Loop.bind_ok] at run
  obtain ⟨⟨c, s⟩, cloned, done⟩ := run
  cases done
  have keeps : Keeps ⟨src.heap, fun _ => none⟩ ⟨src.heap, fun _ => none⟩ :=
    ⟨Nat.le_refl _, fun _ _ => rfl, src.free⟩
  obtain ⟨x, source, leads⟩ :=
    cloneTable_leads deepFirst .refl deep (fun _ => rfl) keeps cloned
  exact isolated.apart x leads source

/-- In every order of `pairs` the copy is isolated exactly when no path from the table goes
through more values than there are levels, as a cycle does, and no table is a key. -/
theorem copied_iff (src : Source A) :
    (∀ src', Reordered src src' → Copied src') ↔
      ¬ Deep src.heap (maxLevel + 1) src.root ∧ PlainKeys src := by
  constructor
  · intro copied
    have shallow : ¬ Deep src.heap (maxLevel + 1) src.root := by
      intro deep
      obtain ⟨src', reordered, deepFirst⟩ := exists_deepFirst src
      refine not_copied_of_deep deepFirst ?_ (copied src' reordered)
      rw [reordered.1]
      exact (deep_perm reordered.2.2 _ _).mpr deep
    refine ⟨shallow, ?_⟩
    obtain ⟨d, h', f, run, isolated⟩ := copied src ⟨rfl, rfl, fun _ => .rfl⟩
    obtain ⟨d', s, run', complete⟩ := deepcopy_complete shallow
    rw [run] at run'
    cases run'
    exact complete.plainKeys isolated
  · intro holds src' reordered
    obtain ⟨shallow, plain⟩ := holds
    have shallow' : ¬ Deep src'.heap (maxLevel + 1) src'.root := by
      rwa [reordered.1, deep_perm reordered.2.2]
    have plain' : PlainKeys src' := by
      intro r reach r' v mem
      rw [reach_perm reordered.2.2, reordered.1] at reach
      exact plain r reach r' v ((reordered.2.2 r).mem_iff.mp mem)
    obtain ⟨d, s, run, complete⟩ := deepcopy_complete shallow'
    exact ⟨d, s.heap, _, run, complete.isolated plain'⟩

/-- `t = {}; t.me = t`. -/
def selfHeap : Heap String where
  entries r := if r = 0 then [(.atom "me", .table 0)] else []
  next := 1

theorem selfHeap_link {r r' : Nat} (link : Link selfHeap r r') : r' = 0 := by
  obtain ⟨k, v, mem, found⟩ := link
  simp only [selfHeap] at mem
  split at mem
  · rw [List.mem_singleton, Prod.mk.injEq] at mem
    obtain ⟨rfl, rfl⟩ := mem
    simpa [eq_comm] using found
  · cases mem

theorem selfHeap_reach {r : Nat} (reach : Reach selfHeap 0 r) : r = 0 := by
  cases reach with
  | refl => rfl
  | tail _ link => exact selfHeap_link link

def selfTable : Source String where
  heap := selfHeap
  root := 0
  keyed r := by by_cases zero : r = 0 <;> simp [selfHeap, zero]
  made r reach := by simp [selfHeap_reach reach, selfHeap]
  free r le := by
    have ne : r ≠ 0 := Nat.ne_of_gt le
    simp [selfHeap, ne]
  plain r reach k u mem := by
    rw [selfHeap_reach reach] at mem
    simp [selfHeap] at mem

/-- The copies go down a hundred levels and end in the table itself. -/
theorem deepcopy_shares_cycle : ¬ Copied selfTable := by
  have holds : Holds selfHeap 0 0 := ⟨.atom "me", by simp [selfHeap]⟩
  have deep : ∀ n, Deep selfHeap n 0 := deep_of_cycle (.single holds)
  refine not_copied_of_deep ?_ (deep _)
  intro r r' found
  have zero : r = 0 := by
    by_contra ne
    obtain ⟨k, mem⟩ := found
    simp [selfTable, selfHeap, ne] at mem
  subst zero
  exact ⟨.atom "me", 0, [], by simp [selfTable, selfHeap], fun n _ => deep n⟩

end Main

end Qiuqiu.Extend.Deepcopy
