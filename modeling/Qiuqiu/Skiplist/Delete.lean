import Qiuqiu.Skiplist.Layout
import Qiuqiu.Skiplist.Search

/-!
`M.Delete` on a laid out list. The node it looks at is the first one that is
not smaller than the target; when `sameDataFunc` accepts it, exactly that node
is unlinked on every level, and the level shrinks to the highest one in use.
The spans at the ends of chains are kept exact when they were exact before.
-/
namespace Qiuqiu.Skiplist
open LevelChain
variable {α : Type} {compDataFunc : α → α → Int} {sameDataFunc : α → α → Bool}
  {endSpan : Prop} {s : SlData α} {ids pre post : List NodeId} {nData : α} {x : NodeId}

/-- The entry of the last smaller node at a level once `x` is unlinked there. -/
def unlinkedSlot (x : NodeId) (slot xs : LvSlot) : LvSlot :=
  if slot.forwardNode = some x then
    { forwardNode := xs.forwardNode, span := slot.span + xs.span - 1 }
  else { slot with span := slot.span - 1 }

def unlinkedLv (s : SlData α) (x : NodeId) (u : Nat → NodeId) (slot xs : Nat → LvSlot) :
    NodeId → Nat → Option LvSlot := fun m j =>
  if (1 ≤ j ∧ j ≤ s.level) ∧ m = u j then some (unlinkedSlot x (slot j) (xs j))
  else s.lv m j

theorem unlinkAt_eq {update : Nat → Option NodeId} {u : NodeId} {j : Nat} {slot xs : LvSlot}
    (hu : update j = some u) (hslot : s.lv u j = some slot)
    (hx : slot.forwardNode = some x → s.lv x j = some xs) :
    unlinkAt x update s j = some (s.withLv fun m i => if i = j then
        (if m = u then some (unlinkedSlot x slot xs) else s.lv m j)
      else s.lv m i) := by
  have entries : ∀ new, SlData.setLv s.lv u j new = fun m i => if i = j then
      (if m = u then some new else s.lv m j) else s.lv m i := by
    intro new
    funext m i
    by_cases hi : i = j
    · subst hi
      by_cases hm : m = u <;> simp [SlData.setLv, hm]
    · simp [SlData.setLv, hi]
  by_cases hforward : slot.forwardNode = some x
  · simp only [unlinkAt, hu, hslot, hforward, if_true, hx hforward, Option.bind_eq_bind,
      Option.bind_some]
    rw [s.modifyLv_eq hslot, entries]
    simp [unlinkedSlot, hforward]
  · simp only [unlinkAt, hu, hslot, hforward, if_false, Option.bind_eq_bind, Option.bind_some]
    rw [s.modifyLv_eq hslot, entries]
    simp [unlinkedSlot, hforward]

theorem unlink_eq (s : SlData α) (x : NodeId) (update : Nat → Option NodeId)
    (u : Nat → NodeId) (slot xs : Nat → LvSlot)
    (hu : ∀ j, 1 ≤ j → j ≤ s.level → update j = some (u j))
    (hslot : ∀ j, 1 ≤ j → j ≤ s.level → s.lv (u j) j = some (slot j))
    (hx : ∀ j, 1 ≤ j → j ≤ s.level → (slot j).forwardNode = some x →
      s.lv x j = some (xs j)) :
    forLevels (unlinkAt x update) s 1 s.level =
      some (s.withLv (unlinkedLv s x u slot xs)) := by
  have run := forLevels_eq (unlinkAt x update)
    (fun j m => if m = u j then some (unlinkedSlot x (slot j) (xs j)) else s.lv m j)
    s 1 s.level (by
      intro j h1 h2 g hg
      have hslot' : (s.withLv g).lv (u j) j = some (slot j) :=
        (hg (u j)).trans (hslot j h1 (by omega))
      have hx' : (slot j).forwardNode = some x → (s.withLv g).lv x j = some (xs j) :=
        fun h => (hg x).trans (hx j h1 (by omega) h)
      rw [unlinkAt_eq (hu j h1 (by omega)) hslot' hx']
      simp only [SlData.withLv_withLv, SlData.withLv_lv, hg])
  rw [run]
  congr 2
  funext m j
  by_cases hj : 1 ≤ j ∧ j ≤ s.level
  · rw [if_pos (by omega)]
    simp only [unlinkedLv, hj, and_self, true_and]
  · rw [if_neg (by omega)]
    simp only [unlinkedLv, hj, false_and, if_false]

/-- The shrinking loop: the levels given up carry no node, the level kept
carries one unless it is level 1. -/
theorem shrinkLevel_spec (s : SlData α) :
    ∀ l, 1 ≤ l → (∀ j, 1 ≤ j → j ≤ l → s.has j s.headerNode = true) →
      ∃ l', shrinkLevel s l = some l' ∧ 1 ≤ l' ∧ l' ≤ l ∧
        (∀ j, l' < j → j ≤ l → ∃ slot, s.lv s.headerNode j = some slot ∧
          slot.forwardNode = none) ∧
        (l' = 1 ∨ ∃ slot f, s.lv s.headerNode l' = some slot ∧ slot.forwardNode = some f) := by
  intro l
  induction l with
  | zero => intro h; omega
  | succ l ih =>
      intro _ hhas
      cases l with
      | zero => exact ⟨1, rfl, Nat.le_refl 1, Nat.le_refl 1, fun j h1 h2 => by omega, Or.inl rfl⟩
      | succ l =>
          obtain ⟨slot, hslot⟩ := Wf.lv_of_has (hhas (l + 2) (by omega) (Nat.le_refl _))
          cases hforward : slot.forwardNode with
          | some f =>
              refine ⟨l + 2, ?_, by omega, Nat.le_refl _, fun j h1 h2 => by omega,
                Or.inr ⟨slot, f, hslot, hforward⟩⟩
              simp [shrinkLevel, hslot, hforward]
          | none =>
              obtain ⟨l', hrun, hpos, hle, hempty, hkept⟩ :=
                ih (by omega) fun j h1 h2 => hhas j h1 (by omega)
              refine ⟨l', ?_, hpos, by omega, ?_, hkept⟩
              · simp [shrinkLevel, hslot, hforward, hrun]
              · intro j h1 h2
                by_cases hj : j = l + 2
                · exact ⟨slot, hj ▸ hslot, hforward⟩
                · exact hempty j h1 (by omega)

/-- The state `_SLDeleteNode` leaves when `x` stood between `pre` and `post`. -/
structure Deleted (s : SlData α) (pre : List NodeId) (x : NodeId) (post : List NodeId)
    (s' : SlData α) : Prop where
  header : s'.headerNode = s.headerNode
  nextId : s'.nextId = s.nextId
  length : s'.length = s.length - 1
  data : ∀ n, (s'.heap n).nData = (s.heap n).nData
  back : ∀ n, (s'.heap n).backwardNode =
    if post.head? = some n then pre.getLast? else (s.heap n).backwardNode
  tail : s'.tailNode = if post = [] then pre.getLast? else s.tailNode
  field : ∀ n, (s'.heap n).lvData.forwardNode = (s.heap n).lvData.forwardNode
  has : ∀ j n, s'.has j n = s.has j n
  low : 1 ≤ s'.level ∧ s'.level ≤ s.level
  empty : ∀ j, s'.level < j → j ≤ s.level → ∃ slot, s'.lv s.headerNode j = some slot ∧
    slot.forwardNode = none
  kept : s'.level = 1 ∨ ∃ slot f, s'.lv s.headerNode s'.level = some slot ∧
    slot.forwardNode = some f
  last : ∀ j n k slot, 1 ≤ j → j ≤ s.level →
    LastWith (s.has j) (s.headerNode :: pre) k n → s.lv n j = some slot →
    ∃ xs, (slot.forwardNode = some x → s.lv x j = some xs) ∧
      s'.lv n j = some (unlinkedSlot x slot xs)
  other : ∀ j n, (∀ k, 1 ≤ j → j ≤ s.level →
    ¬ LastWith (s.has j) (s.headerNode :: pre) k n) → s'.lv n j = s.lv n j

/-- The node after the last smaller one on level 1. -/
theorem Wf.first_rest (wf : Wf compDataFunc endSpan s (pre ++ post)) {u : NodeId}
    {before : List NodeId} (split : s.headerNode :: pre = before ++ [u]) :
    ∃ slot, s.lv u 1 = some slot ∧ slot.forwardNode = post.head? := by
  have hmem : u ∈ s.headerNode :: (pre ++ post) := by
    rw [← List.cons_append, split]
    simp
  obtain ⟨slot, hslot⟩ := Wf.lv_of_has (wf.has_one hmem)
  refine ⟨slot, hslot, ?_⟩
  have ok := wf.chain before u post (by rw [← List.cons_append, split]; simp) 1 slot hslot
  cases post with
  | nil => exact ok.1
  | cons y post =>
      have hy := wf.base y (by simp)
      simp only [SlotOk, hop, hy, if_true] at ok
      exact ok.1

theorem Wf.old_unique (wf : Wf compDataFunc endSpan s (pre ++ x :: post)) :
    x ∉ s.headerNode :: pre ∧ (∀ n ∈ post, n ∉ s.headerNode :: pre ∧ n ≠ x) := by
  have nodup := wf.nodup
  rw [← List.cons_append] at nodup
  obtain ⟨-, right, apart⟩ := List.nodup_append.mp nodup
  refine ⟨fun h => apart x h x List.mem_cons_self rfl, ?_⟩
  intro n hn
  refine ⟨fun h => apart n h n (List.mem_cons_of_mem x hn) rfl, ?_⟩
  rintro rfl
  exact (List.nodup_cons.mp right).1 hn

theorem unlinkBack_spec (s : SlData α) (x : NodeId) {first : LvSlot}
    (h : s.lv x 1 = some first) :
    ∃ s', unlinkBack s x = some s' ∧ s'.headerNode = s.headerNode ∧ s'.nextId = s.nextId ∧
      s'.level = s.level ∧ s'.length = s.length ∧ s'.lv = s.lv ∧
      (∀ n, (s'.heap n).nData = (s.heap n).nData ∧ (s'.heap n).lvData = (s.heap n).lvData) ∧
      (∀ n, (s'.heap n).backwardNode = if first.forwardNode = some n then
        (s.heap x).backwardNode else (s.heap n).backwardNode) ∧
      s'.tailNode = if first.forwardNode = none then (s.heap x).backwardNode
        else s.tailNode := by
  cases hforward : first.forwardNode with
  | none =>
      refine ⟨{ s with tailNode := (s.heap x).backwardNode }, ?_, rfl, rfl, rfl, rfl, rfl,
        fun n => ⟨rfl, rfl⟩, fun n => by simp, by simp⟩
      simp [unlinkBack, h, hforward]
  | some f =>
      refine ⟨s.setBackward f (s.heap x).backwardNode, ?_, rfl, rfl, rfl, rfl,
        s.setBackward_lv f _, fun n => ⟨s.setBackward_nData f _ n, s.setBackward_field f _ n⟩,
        fun n => ?_, by simp [SlData.setBackward]⟩
      · simp [unlinkBack, h, hforward]
      · rw [s.setBackward_back]
        by_cases hn : n = f
        · simp [hn]
        · have : ¬ f = n := fun e => hn e.symm
          simp [hn, this]

theorem unlinkedLv_other {u : Nat → NodeId} {slot xs : Nat → LvSlot} {n : NodeId} {j : Nat}
    (h : 1 ≤ j → j ≤ s.level → n ≠ u j) : unlinkedLv s x u slot xs n j = s.lv n j := by
  unfold unlinkedLv
  rw [if_neg]
  rintro ⟨⟨h1, h2⟩, h3⟩
  exact h h1 h2 h3

theorem unlinkedLv_isSome {u : Nat → NodeId} {slot xs : Nat → LvSlot}
    (hu : ∀ j, 1 ≤ j → j ≤ s.level → s.has j (u j) = true) (j : Nat) (n : NodeId) :
    (unlinkedLv s x u slot xs n j).isSome = s.has j n := by
  unfold unlinkedLv
  split
  · rename_i h
    obtain ⟨⟨h1, h2⟩, rfl⟩ := h
    rw [hu j h1 h2]
    rfl
  · rfl

/-- Where the last smaller node leads to `x`, `x` has an entry. -/
theorem Wf.target_entry (wf : Wf compDataFunc endSpan s (pre ++ x :: post)) {u : NodeId}
    {k j : Nat} (last : LastWith (s.has j) (s.headerNode :: pre) k u) {slot : LvSlot}
    (hslot : s.lv u j = some slot) :
    ∃ xs, slot.forwardNode = some x → s.lv x j = some xs := by
  by_cases hforward : slot.forwardNode = some x
  · obtain ⟨before, after, split, -⟩ := last
    have ok := wf.chain before u (after ++ x :: post)
      (by rw [← List.cons_append, split]; simp) j slot hslot
    cases hhop : hop (s.has j) (after ++ x :: post) with
    | none =>
        have stop := (slotOk_of_none ((hop_eq_none _).mp hhop)).mp ok
        cases hforward.symm.trans stop.1
    | some r =>
        obtain ⟨f, d⟩ := r
        have link := (slotOk_of_hop hhop).mp ok
        obtain ⟨-, -, -, -, hf, -⟩ := hop_eq_some hhop
        cases hforward.symm.trans link.1
        obtain ⟨xs, hxs⟩ := Wf.lv_of_has hf
        exact ⟨xs, fun _ => hxs⟩
  · exact ⟨default, fun h => absurd h hforward⟩

/-- The entries named by the search, and those of `x` it leads to. -/
theorem unlink_run (wf : Wf compDataFunc endSpan s (pre ++ x :: post))
    {update : Nat → Option NodeId}
    (found : ∀ j, 1 ≤ j → j ≤ s.level → ∃ u k, update j = some u ∧
      LastWith (s.has j) (s.headerNode :: pre) k u) :
    ∃ (u : Nat → NodeId) (k : Nat → Nat) (slot xs : Nat → LvSlot),
      (∀ j, 1 ≤ j → j ≤ s.level → LastWith (s.has j) (s.headerNode :: pre) (k j) (u j) ∧
        s.lv (u j) j = some (slot j) ∧
        ((slot j).forwardNode = some x → s.lv x j = some (xs j))) ∧
      forLevels (unlinkAt x update) s 1 s.level =
        some (s.withLv (unlinkedLv s x u slot xs)) := by
  choose! u k hu last using found
  have slotsExist : ∀ j, 1 ≤ j → j ≤ s.level → ∃ slot, s.lv (u j) j = some slot := by
    intro j h1 h2
    obtain ⟨-, -, -, -, hhas, -⟩ := last j h1 h2
    exact Wf.lv_of_has hhas
  choose! slot slots using slotsExist
  have targetExist : ∀ j, 1 ≤ j → j ≤ s.level → ∃ xs, (slot j).forwardNode = some x →
      s.lv x j = some xs :=
    fun j h1 h2 => wf.target_entry (last j h1 h2) (slots j h1 h2)
  choose! xs targets using targetExist
  exact ⟨u, k, slot, xs, fun j h1 h2 => ⟨last j h1 h2, slots j h1 h2, targets j h1 h2⟩,
    unlink_eq s x update u slot xs hu slots targets⟩

theorem Wf.first_behind (wf : Wf compDataFunc endSpan s (pre ++ x :: post)) :
    ∃ first, s.lv x 1 = some first ∧ first.forwardNode = post.head? := by
  have wf' : Wf compDataFunc endSpan s ((pre ++ [x]) ++ post) := by simpa using wf
  have split : s.headerNode :: (pre ++ [x]) = (s.headerNode :: pre) ++ [x] := rfl
  exact wf'.first_rest split

/-- The state `_SLDeleteNode` leaves, from the entries that the search found. -/
structure Unlinked (s : SlData α) (x : NodeId) (u : Nat → NodeId) (slot xs : Nat → LvSlot)
    (first : LvSlot) (s' : SlData α) : Prop where
  header : s'.headerNode = s.headerNode
  nextId : s'.nextId = s.nextId
  length : s'.length = s.length - 1
  lv : s'.lv = unlinkedLv s x u slot xs
  data : ∀ n, (s'.heap n).nData = (s.heap n).nData
  field : ∀ n, (s'.heap n).lvData.forwardNode = (s.heap n).lvData.forwardNode
  back : ∀ n, (s'.heap n).backwardNode = if first.forwardNode = some n then
    (s.heap x).backwardNode else (s.heap n).backwardNode
  tail : s'.tailNode = if first.forwardNode = none then (s.heap x).backwardNode
    else s.tailNode
  low : 1 ≤ s'.level ∧ s'.level ≤ s.level
  empty : ∀ j, s'.level < j → j ≤ s.level → ∃ slot, s'.lv s.headerNode j = some slot ∧
    slot.forwardNode = none
  kept : s'.level = 1 ∨ ∃ slot f, s'.lv s.headerNode s'.level = some slot ∧
    slot.forwardNode = some f

theorem slDeleteNode_run {update : Nat → Option NodeId} {u : Nat → NodeId}
    {slot xs : Nat → LvSlot} {first : LvSlot} (low : 1 ≤ s.level)
    (header : ∀ j, 1 ≤ j → j ≤ s.level → s.has j s.headerNode = true)
    (hu : ∀ j, 1 ≤ j → j ≤ s.level → s.has j (u j) = true)
    (unlinked : forLevels (unlinkAt x update) s 1 s.level =
      some (s.withLv (unlinkedLv s x u slot xs)))
    (hfirst : unlinkedLv s x u slot xs x 1 = some first) :
    ∃ s', slDeleteNode s x update = some s' ∧ Unlinked s x u slot xs first s' := by
  let s1 : SlData α := s.withLv (unlinkedLv s x u slot xs)
  obtain ⟨s2, hback, header2, next2, level2, length2, lv2, data2, back2, tail2⟩ :=
    unlinkBack_spec s1 x hfirst
  have lv2' : s2.lv = unlinkedLv s x u slot xs := lv2
  obtain ⟨l, hshrink, lpos, lle, lempty, lkept⟩ := shrinkLevel_spec s2 s.level low (by
    intro j h1 h2
    rw [SlData.has, header2, lv2']
    exact (unlinkedLv_isSome hu j s.headerNode).trans (header j h1 h2))
  refine ⟨{ s2 with level := l, length := s2.length - 1 }, ?_, ?_⟩
  · rw [slDeleteNode, unlinked]
    simp only [Option.bind_eq_bind, Option.bind_some]
    change (unlinkBack s1 x).bind _ = _
    rw [hback]
    simp only [Option.bind_some, level2]
    change (shrinkLevel s2 s.level).bind _ = _
    rw [hshrink]
    rfl
  · refine {
      header := header2, nextId := next2, length := by simp only [length2]; rfl, lv := lv2'
      data := fun n => (data2 n).1, field := ?_, back := back2, tail := tail2
      low := ⟨lpos, lle⟩, empty := ?_, kept := ?_ }
    · intro n
      change (s2.heap n).lvData.forwardNode = _
      rw [(data2 n).2]
      rfl
    · intro j h1 h2
      obtain ⟨entry, hentry, hnone⟩ := lempty j h1 h2
      rw [header2] at hentry
      exact ⟨entry, hentry, hnone⟩
    · cases lkept with
      | inl h => exact Or.inl h
      | inr h =>
          obtain ⟨entry, f, hentry, hf⟩ := h
          rw [header2] at hentry
          exact Or.inr ⟨entry, f, hentry, hf⟩

theorem slDeleteNode_spec (wf : Wf compDataFunc endSpan s (pre ++ x :: post))
    {update : Nat → Option NodeId}
    (found : ∀ j, 1 ≤ j → j ≤ s.level → ∃ u k, update j = some u ∧
      LastWith (s.has j) (s.headerNode :: pre) k u) :
    ∃ s', slDeleteNode s x update = some s' ∧ Deleted s pre x post s' := by
  obtain ⟨u, k, slot, xs, named, unlinked⟩ := unlink_run wf found
  have hu : ∀ j, 1 ≤ j → j ≤ s.level → s.has j (u j) = true := by
    intro j h1 h2
    obtain ⟨-, -, -, -, hhas, -⟩ := (named j h1 h2).1
    exact hhas
  have xKeep : ∀ j, unlinkedLv s x u slot xs x j = s.lv x j := by
    intro j
    apply unlinkedLv_other
    intro h1 h2 e
    apply wf.old_unique.1
    rw [e]
    exact (named j h1 h2).1.mem
  obtain ⟨first, hfirst, hforward⟩ := wf.first_behind
  have backX : (s.heap x).backwardNode = pre.getLast? := wf.back pre x post rfl
  have header : ∀ j, 1 ≤ j → j ≤ s.level → s.has j s.headerNode = true := by
    intro j h1 h2
    have := wf.level.2
    exact (wf.header j).mpr ⟨h1, by omega⟩
  obtain ⟨s', run, after⟩ := slDeleteNode_run wf.level.1 header hu unlinked
    ((xKeep 1).trans hfirst)
  refine ⟨s', run, ?_⟩
  refine {
    header := after.header, nextId := after.nextId, length := after.length, data := after.data
    back := ?_, tail := ?_, field := after.field, has := ?_, low := after.low
    empty := after.empty, kept := after.kept, last := ?_, other := ?_ }
  · intro n
    rw [← hforward, ← backX]
    exact after.back n
  · have iff : (first.forwardNode = none) = (post = []) := by
      rw [hforward, eq_iff_iff, List.head?_eq_none_iff]
    simp only [after.tail, iff]
    rw [← backX]
  · intro j n
    rw [SlData.has, after.lv]
    exact unlinkedLv_isSome hu j n
  · intro j n c entry h1 h2 hlast hentry
    obtain ⟨last, slots, targets⟩ := named j h1 h2
    obtain ⟨-, rfl⟩ := hlast.unique last
    rw [slots, Option.some.injEq] at hentry
    subst hentry
    refine ⟨xs j, targets, ?_⟩
    rw [after.lv]
    unfold unlinkedLv
    rw [if_pos ⟨⟨h1, h2⟩, rfl⟩]
  · intro j n notLast
    rw [after.lv]
    apply unlinkedLv_other
    intro h1 h2 e
    rw [e] at notLast
    exact notLast (k j) h1 h2 (named j h1 h2).1

section Unlinked
variable {P : Prop} {p : NodeId → Bool} {skipped : List NodeId} {slot xs : LvSlot}

/-- The entry that led to `x` takes over where `x` led. -/
theorem SlotOk.unlink_next (ok : SlotOk P p (skipped ++ x :: post) slot)
    (none : ∀ y ∈ skipped, p y = false) (hx : p x = true) (okx : SlotOk P p post xs) :
    SlotOk P p (skipped ++ post) (unlinkedSlot x slot xs) := by
  have toX : hop p (skipped ++ x :: post) = some (x, skipped.length + 1) := by
    simp [hop_append_of_none none, hop, hx]
  have link := (slotOk_of_hop toX).mp ok
  rw [unlinkedSlot, if_pos link.1]
  cases hhop : hop p post with
  | some r =>
      obtain ⟨f, d⟩ := r
      have linkX := (slotOk_of_hop hhop).mp okx
      have next : hop p (skipped ++ post) = some (f, skipped.length + d) := by
        rw [hop_append_of_none none, hhop]
        rfl
      refine (slotOk_of_hop next).mpr ⟨linkX.1, ?_⟩
      have h1 := link.2
      have h2 := linkX.2
      push_cast at h1 ⊢
      omega
  | none =>
      have unused := (hop_eq_none post).mp hhop
      have linkX := (slotOk_of_none unused).mp okx
      have all : ∀ y ∈ skipped ++ post, p y = false :=
        List.forall_mem_append.mpr ⟨none, unused⟩
      refine (slotOk_of_none all).mpr ⟨linkX.1, ?_⟩
      intro exact
      have h1 := link.2
      have h2 := linkX.2 exact
      rw [List.length_append]
      push_cast at h1 ⊢
      omega

/-- An entry that leads past `x` loses one step. -/
theorem SlotOk.unlink_past (ok : SlotOk P p (skipped ++ x :: post) slot)
    (none : ∀ y ∈ skipped, p y = false) (hx : p x = false) (apart : x ∉ post) :
    SlotOk P p (skipped ++ post) (unlinkedSlot x slot xs) := by
  cases hhop : hop p post with
  | some r =>
      obtain ⟨f, d⟩ := r
      have past : hop p (skipped ++ x :: post) = some (f, skipped.length + (d + 1)) := by
        rw [hop_append_of_none none, hop, hhop]
        simp [hx]
      have next : hop p (skipped ++ post) = some (f, skipped.length + d) := by
        rw [hop_append_of_none none, hhop]
        rfl
      have link := (slotOk_of_hop past).mp ok
      have ne : ¬ slot.forwardNode = some x := by
        rw [link.1, Option.some.injEq]
        rintro rfl
        obtain ⟨a, b, rfl, -⟩ := hop_eq_some hhop
        exact apart (by simp)
      rw [unlinkedSlot, if_neg ne]
      refine (slotOk_of_hop next).mpr ⟨link.1, ?_⟩
      have h1 := link.2
      push_cast at h1 ⊢
      omega
  | none =>
      have unused := (hop_eq_none post).mp hhop
      have old : ∀ y ∈ skipped ++ x :: post, p y = false :=
        List.forall_mem_append.mpr ⟨none, List.forall_mem_cons.mpr ⟨hx, unused⟩⟩
      have link := (slotOk_of_none old).mp ok
      have ne : ¬ slot.forwardNode = some x := by
        rw [link.1]
        simp
      have all : ∀ y ∈ skipped ++ post, p y = false :=
        List.forall_mem_append.mpr ⟨none, unused⟩
      rw [unlinkedSlot, if_neg ne]
      refine (slotOk_of_none all).mpr ⟨link.1, ?_⟩
      intro exact
      have h1 := link.2 exact
      simp only [List.length_append, List.length_cons] at h1 ⊢
      push_cast at h1 ⊢
      omega

end Unlinked

section Chain
variable {s' : SlData α} {before skipped : List NodeId} {n : NodeId} {i : Nat}
  {oldSlot slot : LvSlot}

theorem Deleted.chain_behind (wf : Wf compDataFunc endSpan s (pre ++ x :: post))
    (del : Deleted s pre x post s') {after : List NodeId} (hpost : post = skipped ++ n :: after)
    (hslot : s'.lv n i = some slot) : SlotOk (endSpan ∧ i ≤ s'.level) (s.has i) after slot := by
  have hn : n ∈ post := by simp [hpost]
  have keep := del.other i n fun k _ _ hlast => (wf.old_unique.2 n hn).1 hlast.mem
  rw [keep] at hslot
  have ok := wf.chain (s.headerNode :: pre ++ x :: skipped) n after (by simp [hpost]) i slot hslot
  exact ok.mono fun h => ⟨h.1, Nat.le_trans h.2 del.low.2⟩

/-- The entry of the last smaller node at a level. -/
theorem Deleted.chain_last (wf : Wf compDataFunc endSpan s (pre ++ x :: post))
    (del : Deleted s pre x post s') (hpre : s.headerNode :: pre = before ++ n :: skipped)
    (hold : s.lv n i = some oldSlot) (hslot : s'.lv n i = some slot)
    (ok : SlotOk (endSpan ∧ i ≤ s.level) (s.has i) (skipped ++ x :: post) oldSlot)
    (none : ∀ y ∈ skipped, s.has i y = false) (pos : 1 ≤ i) :
    SlotOk (endSpan ∧ i ≤ s'.level) (s.has i) (skipped ++ post) slot := by
  have hlast : LastWith (s.has i) (s.headerNode :: pre) before.length n :=
    ⟨before, skipped, hpre, rfl, by simp [SlData.has, hold], none⟩
  by_cases level : i ≤ s.level
  · obtain ⟨xs, hxs, hnew⟩ := del.last i n _ oldSlot pos level hlast hold
    rw [hnew, Option.some.injEq] at hslot
    subst hslot
    have unlinked : SlotOk (endSpan ∧ i ≤ s.level) (s.has i) (skipped ++ post)
        (unlinkedSlot x oldSlot xs) := by
      cases hx : s.has i x with
      | true =>
          have toX : hop (s.has i) (skipped ++ x :: post) = some (x, skipped.length + 1) := by
            simp [hop_append_of_none none, hop, hx]
          have forward := ((slotOk_of_hop toX).mp ok).1
          have okx := wf.chain (s.headerNode :: pre) x post rfl i xs (hxs forward)
          exact ok.unlink_next none hx okx
      | false => exact ok.unlink_past none hx fun h => (wf.old_unique.2 x h).2 rfl
    exact unlinked.mono fun h => ⟨h.1, level⟩
  · have unused : ∀ y ∈ x :: post, s.has i y = false :=
      fun y hy => wf.has_above (List.mem_append_right pre hy) (by omega)
    have keep := del.other i n fun k _ h => absurd h level
    rw [keep, hold, Option.some.injEq] at hslot
    subst hslot
    have before : ∀ y ∈ skipped ++ x :: post, s.has i y = false :=
      List.forall_mem_append.mpr ⟨none, unused⟩
    have behind : ∀ y ∈ skipped ++ post, s.has i y = false :=
      List.forall_mem_append.mpr ⟨none, (List.forall_mem_cons.mp unused).2⟩
    refine (slotOk_of_none behind).mpr ⟨((slotOk_of_none before).mp ok).1, ?_⟩
    intro h
    exact absurd (Nat.le_trans h.2 del.low.2) level

theorem Deleted.chain (wf : Wf compDataFunc endSpan s (pre ++ x :: post))
    (del : Deleted s pre x post s') {after : List NodeId}
    (split : s.headerNode :: (pre ++ post) = before ++ n :: after)
    (hslot : s'.lv n i = some slot) : SlotOk (endSpan ∧ i ≤ s'.level) (s'.has i) after slot := by
  have sameHas : s'.has i = s.has i := funext fun n => del.has i n
  rw [sameHas]
  rw [← List.cons_append] at split
  cases split_append split with
  | inr h =>
      obtain ⟨skipped, rfl, hpost⟩ := h
      exact del.chain_behind wf hpost hslot
  | inl h =>
      obtain ⟨skipped, rfl, hpre⟩ := h
      have oldSplit : s.headerNode :: (pre ++ x :: post) =
          before ++ n :: (skipped ++ x :: post) := by
        rw [← List.cons_append, hpre]
        simp
      have hasI : s.has i n = true := by
        rw [← del.has]
        simp [SlData.has, hslot]
      obtain ⟨oldSlot, hold⟩ := Wf.lv_of_has hasI
      have ok := wf.chain before n (skipped ++ x :: post) oldSplit i oldSlot hold
      by_cases hit : ∃ y ∈ skipped, s.has i y = true
      · -- the successor at this level stays before the deleted node
        obtain ⟨y, hy, hhas⟩ := hit
        have keep := del.other i n fun k _ _ hlast => by
          have := (hlast.none_after wf.nodup_left hpre).2 y hy
          simp [hhas] at this
        rw [keep, hold, Option.some.injEq] at hslot
        subst hslot
        exact ok.replace_rest hy hhas post
      · have none : ∀ y ∈ skipped, s.has i y = false := by
          intro y hy
          simpa using fun h => hit ⟨y, hy, h⟩
        exact del.chain_last wf hpre hold hslot ok none (wf.has_pos oldSplit hasI)

end Chain

/-- A level given up by the shrinking loop has an empty chain. -/
theorem Deleted.top (wf : Wf compDataFunc endSpan s (pre ++ x :: post)) {s' : SlData α}
    (del : Deleted s pre x post s') {n : NodeId} (hn : n ∈ pre ++ post) {i : Nat}
    (hle : i ≤ s.level) (hi : s.has i n = true) : i ≤ s'.level := by
  by_contra high
  obtain ⟨slot, hslot, hnone⟩ := del.empty i (by omega) hle
  have ok := del.chain wf (List.nil_append (s.headerNode :: (pre ++ post))).symm hslot
  cases hhop : hop (s'.has i) (pre ++ post) with
  | some r =>
      have link := (slotOk_of_hop hhop).mp ok
      cases hnone.symm.trans link.1
  | none =>
      have unused := (hop_eq_none _).mp hhop n hn
      rw [del.has, hi] at unused
      cases unused

theorem Deleted.backward (wf : Wf compDataFunc endSpan s (pre ++ x :: post)) {s' : SlData α}
    (del : Deleted s pre x post s') {before after : List NodeId} {n : NodeId}
    (split : pre ++ post = before ++ n :: after) :
    (s'.heap n).backwardNode = before.getLast? := by
  rw [del.back]
  cases split_append split with
  | inl h =>
      obtain ⟨skipped, rfl, hpre⟩ := h
      have hn : n ∈ s.headerNode :: pre := by simp [hpre]
      rw [if_neg, wf.back before n (skipped ++ x :: post) (by rw [hpre]; simp)]
      intro e
      exact (wf.old_unique.2 n (List.mem_of_mem_head? e)).1 hn
  | inr h =>
      obtain ⟨skipped, rfl, hpost⟩ := h
      cases skipped with
      | nil => rw [if_pos (by simp [hpost]), List.append_nil]
      | cons y skipped =>
          have hy : y ≠ n := by
            rintro rfl
            have nodup := wf.nodup.of_cons.of_append_right.of_cons
            rw [hpost, List.cons_append, List.nodup_cons] at nodup
            exact nodup.1 (by simp)
          rw [if_neg (by simp [hpost, hy]),
            wf.back (pre ++ x :: y :: skipped) n after (by simp [hpost])]
          simp [List.getLast?_append, List.getLast?_cons_cons]

theorem Deleted.wf (wf : Wf compDataFunc endSpan s (pre ++ x :: post)) {s' : SlData α}
    (del : Deleted s pre x post s') : Wf compDataFunc endSpan s' (pre ++ post) := by
  have sublist : (pre ++ post).Sublist (pre ++ x :: post) :=
    List.Sublist.append_left (List.sublist_cons_self x post) pre
  have sub : ∀ n ∈ pre ++ post, n ∈ pre ++ x :: post := fun n hn => sublist.subset hn
  refine {
    nodup := ?_, below := ?_, data := ?_, sorted := ?_, header := ?_, base := ?_, down := ?_
    top := ?_, level := ?_, chain := ?_, back := ?_, tail := ?_, field := ?_ }
  · rw [del.header]
    exact wf.nodup.sublist (sublist.cons_cons s.headerNode)
  · intro n hn
    rw [del.header] at hn
    rw [del.nextId]
    exact wf.below n ((sublist.cons_cons s.headerNode).subset hn)
  · intro n hn
    rw [del.data]
    exact wf.data n (sub n hn)
  · have := wf.sorted.sublist sublist
    simpa only [del.data] using this
  · intro i
    rw [del.header, del.has]
    exact wf.header i
  · intro n hn
    rw [del.has]
    exact wf.base n (sub n hn)
  · intro n hn i hi
    rw [del.has, del.has]
    exact wf.down n (sub n hn) i hi
  · intro n hn i hi
    rw [del.has] at hi
    obtain ⟨hpos, hle⟩ := wf.top n (sub n hn) i hi
    exact ⟨hpos, del.top wf hn hle hi⟩
  · have := wf.level.2
    have := del.low
    omega
  · intro before n after split i slot hslot
    rw [del.header] at split
    exact del.chain wf split hslot
  · intro before n after split
    exact del.backward wf split
  · rw [del.tail, wf.tail]
    cases post with
    | nil => simp
    | cons y post => simp [List.getLast?_append, List.getLast?_cons_cons]
  · intro n
    rw [del.field, wf.field]

/-- `M.Delete` unlinks the first node that is not smaller when `sameDataFunc`
accepts it, and otherwise changes nothing. -/
theorem delete_spec (sameDataFunc : α → α → Bool) (wf : Wf compDataFunc endSpan s (pre ++ post))
    (cut : Cut compDataFunc s nData pre post) :
    (∀ x rest d, post = x :: rest → (s.heap x).nData = some d →
      sameDataFunc d nData = true →
      ∃ s', delete compDataFunc sameDataFunc s nData = some (s', some d) ∧
        Deleted s pre x rest s') ∧
    ((∀ x d, post.head? = some x → (s.heap x).nData = some d →
      sameDataFunc d nData = false) →
      delete compDataFunc sameDataFunc s nData = some (s, none)) := by
  obtain ⟨last, update, search, found, -, hone⟩ := deleteSearch_from wf cut s.level
    s.headerNode (fun _ => none) [] pre (Nat.le_refl _) rfl
    (fun h => (wf.header s.level).mpr ⟨h, wf.level.2⟩)
  obtain ⟨u, k, hu, hlast⟩ := found 1 (Nat.le_refl 1) wf.level.1
  rw [hone wf.level.1, Option.some.injEq] at hu
  subst hu
  obtain ⟨before, split, -, -⟩ := wf.last_one hlast
  obtain ⟨slot, hslot, hforward⟩ := wf.first_rest split
  constructor
  · rintro x rest d rfl hd hsame
    obtain ⟨s', hrun, del⟩ := slDeleteNode_spec wf found
    refine ⟨s', ?_, del⟩
    simp only [delete, search, Option.bind_eq_bind, Option.bind_some, hslot, hforward,
      List.head?_cons, hd, hsame, if_true, hrun]
    rw [del.data, hd]
  · intro hother
    cases post with
    | nil => simp [delete, search, hslot, hforward]
    | cons x rest =>
        obtain ⟨d, hd⟩ := wf.data x (by simp)
        have := hother x d rfl hd
        simp [delete, search, hslot, hforward, hd, this]

/-- The level of the list is the highest one with a node, and at least 1. -/
def TopLevel (s : SlData α) (ids : List NodeId) : Prop :=
  (∀ n ∈ ids, ∀ i, s.has i n = true → i ≤ s.level) ∧
    (s.level = 1 ∨ ∃ n ∈ ids, s.has s.level n = true)

theorem Deleted.topLevel (wf : Wf compDataFunc endSpan s (pre ++ x :: post)) {s' : SlData α}
    (del : Deleted s pre x post s') : TopLevel s' (pre ++ post) := by
  have wf' := del.wf wf
  refine ⟨fun n hn i hi => (wf'.top n hn i hi).2, ?_⟩
  cases del.kept with
  | inl one => exact .inl one
  | inr used =>
      obtain ⟨slot, f, hslot, hf⟩ := used
      right
      rw [← del.header] at hslot
      have ok := wf'.chain [] s'.headerNode (pre ++ post) rfl s'.level slot hslot
      cases hhop : hop (s'.has s'.level) (pre ++ post) with
      | none =>
          have stop := (slotOk_of_none ((hop_eq_none _).mp hhop)).mp ok
          cases hf.symm.trans stop.1
      | some r =>
          obtain ⟨g, d⟩ := r
          obtain ⟨skipped, rest, split, -, hg, -⟩ := hop_eq_some hhop
          exact ⟨g, by simp [split], hg⟩

/-- What stands behind an element equal to the target is greater. -/
theorem Wf.greater_behind (wf : Wf compDataFunc endSpan s ids)
    (order : ThreeWay compDataFunc sameDataFunc) {before after : List NodeId} {d : α}
    (split : ids = before ++ x :: after) (hd : (s.heap x).nData = some d)
    (same : sameDataFunc d nData = true) :
    ∀ n ∈ after, ∀ e, (s.heap n).nData = some e → 0 < compDataFunc e nData := by
  intro n hn e he
  have equal := (order.same d nData).mp same
  have sorted := wf.sorted
  rw [split, List.pairwise_append, List.pairwise_cons] at sorted
  exact order.not_lt_of_not_lt (by omega) (sorted.2.1.1 n hn d e hd he)

/-- A stored element that equals the target is the first one that is not smaller. -/
theorem Wf.cut_at_same (wf : Wf compDataFunc endSpan s ids)
    (order : ThreeWay compDataFunc sameDataFunc) {before after : List NodeId} {d : α}
    (split : ids = before ++ x :: after) (hd : (s.heap x).nData = some d)
    (same : sameDataFunc d nData = true) : Cut compDataFunc s nData before (x :: after) := by
  have equal := (order.same d nData).mp same
  refine ⟨?_, ?_⟩
  · intro n hn e he
    have sorted := wf.sorted
    rw [split, List.pairwise_append] at sorted
    have less := sorted.2.2 n hn x List.mem_cons_self e d he hd
    by_contra notLess
    have := order.not_lt_of_not_lt notLess less
    omega
  · intro n hn e he less
    cases List.mem_cons.mp hn with
    | inl here =>
        rw [here, hd, Option.some.injEq] at he
        rw [← he] at less
        omega
    | inr later =>
        have := wf.greater_behind order split hd same n later e he
        omega

/-- `M.Delete` on a well-formed list, the spans at the ends of the chains included.
An element that is present is returned, its node alone is taken out of all chains, and
the level shrinks to the highest one in use; without one the list stays as it is. -/
theorem delete_removes (order : ThreeWay compDataFunc sameDataFunc)
    (wf : Wf compDataFunc True s ids) (nData : α) :
    (∀ before x after d, ids = before ++ x :: after → (s.heap x).nData = some d →
      sameDataFunc d nData = true →
      ∃ s', delete compDataFunc sameDataFunc s nData = some (s', some d) ∧
        Wf compDataFunc True s' (before ++ after) ∧ TopLevel s' (before ++ after) ∧
        s'.headerNode = s.headerNode ∧ s'.length = s.length - 1 ∧
        ∀ n, (s'.heap n).nData = (s.heap n).nData ∧ ∀ i, s'.has i n = s.has i n) ∧
    ((∀ x ∈ ids, ∀ d, (s.heap x).nData = some d → sameDataFunc d nData = false) →
      delete compDataFunc sameDataFunc s nData = some (s, none)) := by
  constructor
  · rintro before x after d rfl hd same
    have cut := wf.cut_at_same order rfl hd same
    obtain ⟨s', run, del⟩ := (delete_spec sameDataFunc wf cut).1 x after d rfl hd same
    exact ⟨s', run, del.wf wf, del.topLevel wf, del.header, del.length,
      fun n => ⟨del.data n, fun i => del.has i n⟩⟩
  · intro absent
    obtain ⟨pre, post, rfl, cut⟩ := wf.exists_cut order nData
    refine (delete_spec sameDataFunc wf cut).2 fun x d first hd => ?_
    exact absent x (List.mem_append_right pre (List.mem_of_mem_head? first)) d hd

def Level.one : Level := ⟨1, by decide, by decide⟩

/-- Four elements on up to three levels. -/
def fourElements : List (Int × Level) :=
  [(1, ⟨2, by decide, by decide⟩), (3, .one), (5, ⟨3, by decide, by decide⟩),
    (7, ⟨2, by decide, by decide⟩)]

theorem wf_fourElements :
    Wf (fun a b : Int => a - b) True (layOut fourElements) [1, 2, 3, 4] :=
  wf_layOut (by decide)

/-- The element that alone is on the third level is taken out of all three; a missing one
changes nothing. -/
theorem delete_removes_inner :
    (∃ s', delete (fun a b : Int => a - b) (fun a b => decide (a = b)) (layOut fourElements) 5 =
        some (s', some 5) ∧ Wf (fun a b : Int => a - b) True s' [1, 2, 4] ∧
      TopLevel s' [1, 2, 4]) ∧
    delete (fun a b : Int => a - b) (fun a b => decide (a = b)) (layOut fourElements) 4 =
      some (layOut fourElements, none) := by
  constructor
  · obtain ⟨s', run, wf, top, -⟩ :=
      (delete_removes threeWay_int wf_fourElements 5).1 [1, 2] 3 [4] 5 rfl rfl rfl
    exact ⟨s', run, wf, top⟩
  · apply (delete_removes threeWay_int wf_fourElements 4).2
    decide

end Qiuqiu.Skiplist
