import Mathlib.Data.Option.Basic
import Qiuqiu.Skiplist.Model
import Qiuqiu.Base.LevelChain

/-!
The representation of a skip list: the level 1 chain is a list of node
identifiers, and every other pointer, span and back pointer is a function of
that list and of which entries `lvData[i]` exist. `Path` is what a reader
following `forwardNode` sees; it is derived from the representation, not
assumed. The spans at the end of a chain point to nothing: whether they count
the nodes after it is a parameter, since rank queries do not read them.
-/
namespace Qiuqiu.Skiplist
open LevelChain
variable {α : Type}

namespace SlData

/-- The node has an entry at level `i`. -/
def has (s : SlData α) (i : Nat) (n : NodeId) : Bool := (s.lv n i).isSome

/-- Replace all entries `lvData[i]` at once; nothing else changes. -/
def withLv (s : SlData α) (g : NodeId → Nat → Option LvSlot) : SlData α :=
  { s with heap := fun n => { s.heap n with
      lvData := { (s.heap n).lvData with slots := g n } } }

@[simp] theorem withLv_lv (s : SlData α) (g : NodeId → Nat → Option LvSlot) :
    (s.withLv g).lv = g := rfl

@[simp] theorem withLv_withLv (s : SlData α) (g g' : NodeId → Nat → Option LvSlot) :
    (s.withLv g).withLv g' = s.withLv g' := rfl

theorem withLv_self (s : SlData α) : s.withLv s.lv = s := rfl

/-- The entries after writing one of them. -/
def setLv (g : NodeId → Nat → Option LvSlot) (n : NodeId) (i : Nat) (slot : LvSlot) :
    NodeId → Nat → Option LvSlot :=
  fun m j => if m = n ∧ j = i then some slot else g m j

theorem modifyLv_eq (s : SlData α) {n : NodeId} {i : Nat} {slot : LvSlot}
    (h : s.lv n i = some slot) (f : LvSlot → LvSlot) :
    s.modifyLv n i f = some (s.withLv (setLv s.lv n i (f slot))) := by
  have heaps : Function.update s.heap n { s.heap n with
        lvData := { (s.heap n).lvData with
          slots := Function.update (s.heap n).lvData.slots i (some (f slot)) } } =
      (s.withLv (setLv s.lv n i (f slot))).heap := by
    funext m
    by_cases hm : m = n
    · subst hm
      simp only [Function.update_self, withLv, Node.mk.injEq, LvData.mk.injEq, true_and,
        and_true]
      funext j
      by_cases hj : j = i <;> simp [setLv, hj, lv]
    · have same : setLv s.lv n i (f slot) m = (s.heap m).lvData.slots := by
        funext j
        simp [setLv, hm, lv]
      simp only [Function.update_of_ne hm, withLv, same]
  simp only [modifyLv, h, Option.bind_eq_bind, Option.bind_some, heaps]
  rfl

@[simp] theorem setBackward_lv (s : SlData α) (n : NodeId) (b : Option NodeId) :
    (s.setBackward n b).lv = s.lv := by
  funext m j
  by_cases hm : m = n
  · subst hm
    simp [setBackward, lv]
  · simp [setBackward, lv, hm]

theorem setBackward_nData (s : SlData α) (n : NodeId) (b : Option NodeId) (m : NodeId) :
    ((s.setBackward n b).heap m).nData = (s.heap m).nData := by
  by_cases hm : m = n
  · subst hm
    simp [setBackward]
  · simp [setBackward, hm]

theorem setBackward_field (s : SlData α) (n : NodeId) (b : Option NodeId) (m : NodeId) :
    ((s.setBackward n b).heap m).lvData = (s.heap m).lvData := by
  by_cases hm : m = n
  · subst hm
    simp [setBackward]
  · simp [setBackward, hm]

theorem setBackward_back (s : SlData α) (n : NodeId) (b : Option NodeId) (m : NodeId) :
    ((s.setBackward n b).heap m).backwardNode =
      if m = n then b else (s.heap m).backwardNode := by
  by_cases hm : m = n
  · subst hm
    simp [setBackward]
  · simp [setBackward, hm]

end SlData

/-- A loop whose round at level `k` rewrites only the entries of level `k`, to
`e k`, rewrites exactly the levels it runs over. -/
theorem forLevels_eq (body : SlData α → Nat → Option (SlData α))
    (e : Nat → NodeId → Option LvSlot) (s : SlData α) (i todo : Nat)
    (round : ∀ k, i ≤ k → k < i + todo → ∀ g : NodeId → Nat → Option LvSlot,
      (∀ m, g m k = s.lv m k) →
      body (s.withLv g) k =
        some (s.withLv fun m j => if j = k then e k m else g m j)) :
    forLevels body s i todo =
      some (s.withLv fun m j => if i ≤ j ∧ j < i + todo then e j m else s.lv m j) := by
  have general : ∀ (todo i : Nat) (g : NodeId → Nat → Option LvSlot),
      (∀ k, i ≤ k → k < i + todo → ∀ m, g m k = s.lv m k) →
      (∀ k, i ≤ k → k < i + todo → ∀ g : NodeId → Nat → Option LvSlot,
        (∀ m, g m k = s.lv m k) →
        body (s.withLv g) k =
          some (s.withLv fun m j => if j = k then e k m else g m j)) →
      forLevels body (s.withLv g) i todo =
        some (s.withLv fun m j => if i ≤ j ∧ j < i + todo then e j m else g m j) := by
    intro todo
    induction todo with
    | zero =>
        intro i g _ _
        have none : ∀ j, ¬ (i ≤ j ∧ j < i + 0) := by omega
        simp only [forLevels, none, if_false]
    | succ todo ih =>
        intro i g hg hround
        rw [forLevels, hround i (Nat.le_refl i) (by omega) g (hg i (Nat.le_refl i) (by omega))]
        simp only [Option.bind_eq_bind, Option.bind_some]
        rw [ih (i + 1) _ _ (fun k h1 h2 => hround k (by omega) (by omega))]
        · congr 2
          funext m j
          by_cases hj : j = i
          · subst hj
            rw [if_neg (by omega), if_pos rfl, if_pos (by omega)]
          · have iff : (i + 1 ≤ j ∧ j < i + 1 + todo) ↔ (i ≤ j ∧ j < i + (todo + 1)) := by
              omega
            simp only [iff, if_neg hj]
        · intro k h1 h2 m
          rw [if_neg (by omega)]
          exact hg k (by omega) (by omega) m
  exact general todo i s.lv (fun _ _ _ _ => rfl) round

/-- `compDataFunc` is a three-way comparison of a total order up to the
equality that `sameDataFunc` decides. -/
structure ThreeWay (compDataFunc : α → α → Int) (sameDataFunc : α → α → Bool) :
    Prop where
  sign : ∀ a b, compDataFunc a b < 0 ↔ 0 < compDataFunc b a
  trans : ∀ a b c, compDataFunc a b ≤ 0 → compDataFunc b c ≤ 0 → compDataFunc a c ≤ 0
  same : ∀ a b, sameDataFunc a b = true ↔ compDataFunc a b = 0

namespace ThreeWay
variable {compDataFunc : α → α → Int} {sameDataFunc : α → α → Bool}

theorem not_lt_of_not_lt (o : ThreeWay compDataFunc sameDataFunc) {a b c : α}
    (hac : ¬ compDataFunc a c < 0) (hab : compDataFunc a b < 0) :
    0 < compDataFunc b c := by
  by_contra hbc
  have h1 := o.trans a b c (by omega) (by omega)
  have hca := o.trans b c a (by omega) (by
    by_contra h
    exact hac ((o.sign a c).mpr (by omega)))
  have := (o.sign a b).mp hab
  omega

theorem same_self (o : ThreeWay compDataFunc sameDataFunc) (a : α) : sameDataFunc a a = true := by
  have := o.sign a a
  exact (o.same a a).mpr (by omega)

end ThreeWay

theorem threeWay_int : ThreeWay (fun a b : Int => a - b) (fun a b => decide (a = b)) where
  sign := by
    intro a b
    omega
  trans := by
    intro a b c hab hbc
    omega
  same := by
    intro a b
    rw [decide_eq_true_iff]
    omega

/-- An entry at level `i` of a node with the nodes `after` behind it. -/
def SlotOk (endSpan : Prop) (p : NodeId → Bool) (after : List NodeId) (slot : LvSlot) :
    Prop :=
  match hop p after with
  | some (f, d) => slot.forwardNode = some f ∧ slot.span = d
  | none => slot.forwardNode = none ∧ (endSpan → slot.span = after.length)

section SlotOk
variable {P Q : Prop} {p q : NodeId → Bool} {after : List NodeId} {slot : LvSlot}

theorem slotOk_of_hop {f : NodeId} {d : Nat} (h : hop p after = some (f, d)) :
    SlotOk P p after slot ↔ slot.forwardNode = some f ∧ slot.span = d := by
  simp only [SlotOk, h]

theorem slotOk_of_none (h : ∀ y ∈ after, p y = false) :
    SlotOk P p after slot ↔
      slot.forwardNode = none ∧ (P → slot.span = after.length) := by
  simp only [SlotOk, (hop_eq_none after).mpr h]

theorem SlotOk.mono (h : SlotOk P p after slot) (imp : Q → P) : SlotOk Q p after slot := by
  cases hhop : hop p after with
  | some r => exact (slotOk_of_hop hhop).mpr ((slotOk_of_hop hhop).mp h)
  | none =>
      have none := (hop_eq_none after).mp hhop
      have ok := (slotOk_of_none none).mp h
      exact (slotOk_of_none none).mpr ⟨ok.1, fun q => ok.2 (imp q)⟩

theorem SlotOk.congr (h : SlotOk P p after slot) (agree : ∀ y ∈ after, q y = p y) :
    SlotOk P q after slot := by
  unfold SlotOk
  rw [hop_congr agree]
  exact h

/-- What stands behind the next node at a level does not matter to an entry. -/
theorem SlotOk.replace_rest {xs ys : List NodeId} {y : NodeId} (h : SlotOk P p (xs ++ ys) slot)
    (hy : y ∈ xs) (hit : p y = true) (zs : List NodeId) : SlotOk Q p (xs ++ zs) slot := by
  cases hhop : hop p xs with
  | none =>
      rw [(hop_eq_none xs).mp hhop y hy] at hit
      cases hit
  | some r =>
      have before := (hop_append_of_some hy hit ys).trans hhop
      have behind := (hop_append_of_some hy hit zs).trans hhop
      exact (slotOk_of_hop behind).mpr ((slotOk_of_hop before).mp h)

end SlotOk

/-- `s` is laid out as the level 1 chain `ids`. -/
structure Wf (compDataFunc : α → α → Int) (endSpan : Prop) (s : SlData α)
    (ids : List NodeId) : Prop where
  nodup : (s.headerNode :: ids).Nodup
  below : ∀ n ∈ s.headerNode :: ids, n < s.nextId
  data : ∀ n ∈ ids, ∃ d, (s.heap n).nData = some d
  sorted : ids.Pairwise fun a b => ∀ da db, (s.heap a).nData = some da →
    (s.heap b).nData = some db → compDataFunc da db < 0
  header : ∀ i, s.has i s.headerNode = true ↔ 1 ≤ i ∧ i ≤ SKIPLIST_MAXLEVEL
  base : ∀ n ∈ ids, s.has 1 n = true
  down : ∀ n ∈ ids, ∀ i, 1 ≤ i → s.has (i + 1) n = true → s.has i n = true
  top : ∀ n ∈ ids, ∀ i, s.has i n = true → 1 ≤ i ∧ i ≤ s.level
  level : 1 ≤ s.level ∧ s.level ≤ SKIPLIST_MAXLEVEL
  chain : ∀ before n after, s.headerNode :: ids = before ++ n :: after →
    ∀ i slot, s.lv n i = some slot →
      SlotOk (endSpan ∧ i ≤ s.level) (s.has i) after slot
  back : ∀ before n after, ids = before ++ n :: after →
    (s.heap n).backwardNode = before.getLast?
  tail : s.tailNode = ids.getLast?
  field : ∀ n, (s.heap n).lvData.forwardNode = none

/-- Following `forwardNode` at level `i` from `x` visits exactly these nodes. -/
inductive Path (s : SlData α) (i : Nat) : NodeId → List NodeId → Prop
  | stop {x slot} : s.lv x i = some slot → slot.forwardNode = none → Path s i x []
  | go {x slot y ys} : s.lv x i = some slot → slot.forwardNode = some y →
      Path s i y ys → Path s i x (y :: ys)

theorem Path.unique {s : SlData α} {i : Nat} {x : NodeId} {ys zs : List NodeId}
    (hy : Path s i x ys) (hz : Path s i x zs) : ys = zs := by
  induction hy generalizing zs with
  | stop hl hf =>
      cases hz with
      | stop _ _ => rfl
      | go hl' hf' _ => simp_all
  | go hl hf _ ih =>
      cases hz with
      | stop hl' hf' => simp_all
      | go hl' hf' rest =>
          rw [hl] at hl'
          cases hl'
          rw [hf] at hf'
          cases hf'
          rw [ih rest]

/-- What a skip list holding the elements `live` looks like from outside: the
level 1 chain visits them once each in increasing order, every other chain is
the sub-sequence of the nodes with that many levels, every span counts the
level 1 steps to its `forwardNode`, and the back pointers and the tail mirror
the level 1 chain. -/
structure Layout (compDataFunc : α → α → Int) (s : SlData α) (live : List α)
    (ids : List NodeId) (elems : List α) : Prop where
  visits : Path s 1 s.headerNode ids
  data : ids.map (fun n => (s.heap n).nData) = elems.map some
  live : elems.Perm live
  increasing : elems.Pairwise fun a b => compDataFunc a b < 0
  levels : ∀ i, 1 ≤ i → i ≤ SKIPLIST_MAXLEVEL →
    Path s i s.headerNode (ids.filter (s.has i))
  span : ∀ before n after, s.headerNode :: ids = before ++ n :: after →
    ∀ i slot f, s.lv n i = some slot → slot.forwardNode = some f →
      ∃ between rest, after = between ++ f :: rest ∧ slot.span = between.length + 1
  back : ∀ before n after, ids = before ++ n :: after →
    (s.heap n).backwardNode = before.getLast?
  tail : s.tailNode = ids.getLast?

def ListInvariant (compDataFunc : α → α → Int) (s : SlData α) (live : List α) : Prop :=
  ∃ (ids : List NodeId) (elems : List α), Layout compDataFunc s live ids elems

section Derived
variable {compDataFunc : α → α → Int} {endSpan : Prop} {s : SlData α} {ids : List NodeId}

theorem Wf.lv_of_has {n : NodeId} {i : Nat} (h : s.has i n = true) :
    ∃ slot, s.lv n i = some slot :=
  Option.isSome_iff_exists.mp h

theorem Wf.has_one (wf : Wf compDataFunc endSpan s ids) {n : NodeId}
    (hn : n ∈ s.headerNode :: ids) : s.has 1 n = true := by
  cases List.mem_cons.mp hn with
  | inl e => exact e ▸ (wf.header 1).mpr (by decide)
  | inr h => exact wf.base n h

theorem Wf.nodup_left {pre post : List NodeId} (wf : Wf compDataFunc endSpan s (pre ++ post)) :
    (s.headerNode :: pre).Nodup := by
  have nodup := wf.nodup
  rw [← List.cons_append] at nodup
  exact nodup.of_append_left

/-- Above the level of the list only the header has entries. -/
theorem Wf.has_above (wf : Wf compDataFunc endSpan s ids) {n : NodeId} (hn : n ∈ ids) {i : Nat}
    (high : s.level < i) : s.has i n = false := by
  cases hhas : s.has i n with
  | false => rfl
  | true =>
      have := (wf.top n hn i hhas).2
      omega

/-- From any node of the list the rest of its level is reached. -/
theorem Wf.path_from (wf : Wf compDataFunc endSpan s ids) (i : Nat) :
    ∀ (len : Nat) (before : List NodeId) (n : NodeId) (after : List NodeId),
      after.length ≤ len → s.headerNode :: ids = before ++ n :: after →
      s.has i n = true → Path s i n (after.filter (s.has i)) := by
  intro len
  induction len with
  | zero =>
      intro before n after hlen split hn
      obtain rfl : after = [] := List.eq_nil_of_length_eq_zero (by omega)
      obtain ⟨slot, hslot⟩ := Wf.lv_of_has hn
      exact .stop hslot (wf.chain before n [] split i slot hslot).1
  | succ len ih =>
      intro before n after hlen split hn
      obtain ⟨slot, hslot⟩ := Wf.lv_of_has hn
      have ok := wf.chain before n after split i slot hslot
      cases hhop : hop (s.has i) after with
      | none =>
          have none := (hop_eq_none after).mp hhop
          have empty : after.filter (s.has i) = [] := by
            rw [List.filter_eq_nil_iff]
            intro y hy
            simp [none y hy]
          rw [empty]
          exact .stop hslot ((slotOk_of_none none).mp ok).1
      | some r =>
          obtain ⟨f, d⟩ := r
          have forward := ((slotOk_of_hop hhop).mp ok).1
          obtain ⟨skipped, rest, rfl, -, hf, none⟩ := hop_eq_some hhop
          have empty : skipped.filter (s.has i) = [] := by
            rw [List.filter_eq_nil_iff]
            intro y hy
            simp [none y hy]
          rw [List.filter_append, empty, List.nil_append, List.filter_cons_of_pos hf]
          refine .go hslot forward (ih (before ++ n :: skipped) f rest ?_ ?_ hf)
          · simp only [List.length_append, List.length_cons] at hlen
            omega
          · rw [split]
            simp

theorem Wf.path (wf : Wf compDataFunc endSpan s ids) {i : Nat} (h1 : 1 ≤ i)
    (h2 : i ≤ SKIPLIST_MAXLEVEL) : Path s i s.headerNode (ids.filter (s.has i)) :=
  wf.path_from i ids.length [] s.headerNode ids (Nat.le_refl _) rfl
    ((wf.header i).mpr ⟨h1, h2⟩)

theorem Wf.path_one (wf : Wf compDataFunc endSpan s ids) : Path s 1 s.headerNode ids := by
  have h := wf.path (Nat.le_refl 1) (by decide)
  rwa [List.filter_eq_self.mpr wf.base] at h

/-- The elements along the level 1 chain. -/
theorem Wf.exists_elems (wf : Wf compDataFunc endSpan s ids) :
    ∃ elems : List α, ids.map (fun n => (s.heap n).nData) = elems.map some ∧
      elems.Pairwise fun a b => compDataFunc a b < 0 := by
  have data := wf.data
  have sorted := wf.sorted
  clear wf
  induction ids with
  | nil => exact ⟨[], rfl, List.Pairwise.nil⟩
  | cons n ids ih =>
      obtain ⟨d, hd⟩ := data n List.mem_cons_self
      rw [List.pairwise_cons] at sorted
      obtain ⟨elems, hmap, hsorted⟩ :=
        ih (fun m hm => data m (List.mem_cons_of_mem n hm)) sorted.2
      refine ⟨d :: elems, by simp [hd, hmap], List.pairwise_cons.mpr ⟨?_, hsorted⟩⟩
      intro e he
      have : some e ∈ ids.map fun n => (s.heap n).nData := by
        rw [hmap]
        exact List.mem_map_of_mem he
      obtain ⟨m, hm, hme⟩ := List.mem_map.mp this
      exact sorted.1 m hm d e hd hme

theorem Wf.listInvariant (wf : Wf compDataFunc endSpan s ids) {elems live : List α}
    (hmap : ids.map (fun n => (s.heap n).nData) = elems.map some)
    (perm : elems.Perm live) : ListInvariant compDataFunc s live := by
  have inj := List.map_injective_iff.mpr (Option.some_injective α)
  obtain ⟨elems', hmap', hsorted⟩ := wf.exists_elems
  obtain rfl : elems = elems' := inj (hmap.symm.trans hmap')
  refine ⟨ids, elems, wf.path_one, hmap, perm, hsorted, fun i h1 h2 => wf.path h1 h2, ?_,
    wf.back, wf.tail⟩
  intro before n after split i slot f hslot hf
  have ok := wf.chain before n after split i slot hslot
  cases hhop : hop (s.has i) after with
  | none =>
      have stop := (slotOk_of_none ((hop_eq_none after).mp hhop)).mp ok
      rw [stop.1] at hf
      cases hf
  | some r =>
      obtain ⟨g, d⟩ := r
      have ok := (slotOk_of_hop hhop).mp ok
      obtain ⟨skipped, rest, rfl, rfl, -⟩ := hop_eq_some hhop
      rw [ok.1] at hf
      cases hf
      exact ⟨skipped, rest, rfl, ok.2⟩

/-- The chain has fewer nodes than were ever allocated, so a loop bounded by
the allocation counter reaches its end. -/
theorem Wf.length_lt (wf : Wf compDataFunc endSpan s ids) : ids.length < s.nextId := by
  have allocated : s.headerNode :: ids ⊆ List.range s.nextId := fun n hn =>
    List.mem_range.mpr (wf.below n hn)
  have h := wf.nodup.length_le_of_subset allocated
  simp only [List.length_cons, List.length_range] at h
  omega

end Derived
end Qiuqiu.Skiplist
