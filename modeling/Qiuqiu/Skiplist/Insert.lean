import Qiuqiu.Skiplist.Search

/-!
What `M.Insert` leaves behind. The splice reads `update[i].lvData.forwardNode`,
a field no code ever writes, so the new node always gets the successor nil: at
the end of the list this is right and the representation is kept, anywhere else
the level 1 chain ends at the new node.
-/
namespace Qiuqiu.Skiplist
open LevelChain
variable {α : Type} {compDataFunc : α → α → Int} {endSpan : Prop} {s : SlData α}
  {ids pre post : List NodeId} {nData : α}

/-- The header's entries once the levels from `lo` below `hi` were raised. -/
def raisedLv (s : SlData α) (lo hi : Nat) : NodeId → Nat → Option LvSlot := fun m j =>
  if m = s.headerNode ∧ lo ≤ j ∧ j < hi then
    (s.lv m j).map fun slot => { slot with span := s.length }
  else s.lv m j

def raisedSearch (s : SlData α) (v : InsertSearch) (lo hi : Nat) : InsertSearch :=
  { v with
    rank := fun j => if lo ≤ j ∧ j < hi then some 0 else v.rank j
    update := fun j => if lo ≤ j ∧ j < hi then some s.headerNode else v.update j }

theorem raiseLevel_eq (todo : Nat) :
    ∀ (s : SlData α) (v : InsertSearch) (i : Nat),
      (∀ j, i ≤ j → j < i + todo → s.has j s.headerNode = true) →
      raiseLevel s v i todo =
        some (s.withLv (raisedLv s i (i + todo)), raisedSearch s v i (i + todo)) := by
  induction todo with
  | zero =>
      intro s v i _
      have none : ∀ j, ¬ (i ≤ j ∧ j < i + 0) := by omega
      have entries : raisedLv s i (i + 0) = s.lv := by
        funext m j
        simp only [raisedLv, none, and_false, if_false]
      simp only [raiseLevel, raisedSearch, none, if_false, entries, SlData.withLv_self]
  | succ todo ih =>
      intro s v i hhas
      obtain ⟨slot, hslot⟩ := Wf.lv_of_has (hhas i (Nat.le_refl i) (by omega))
      rw [raiseLevel, s.modifyLv_eq hslot]
      simp only [Option.bind_eq_bind, Option.bind_some]
      rw [ih]
      · simp only [Option.some.injEq, Prod.mk.injEq, SlData.withLv_withLv]
        constructor
        · congr 1
          funext m j
          by_cases hm : m = s.headerNode
          · by_cases hj : j = i
            · subst hm hj
              simp [raisedLv, SlData.withLv, SlData.setLv, SlData.lv] at hslot ⊢
              simp [hslot]
            · have iff : (i + 1 ≤ j ∧ j < i + 1 + todo) ↔ (i ≤ j ∧ j < i + (todo + 1)) := by
                omega
              simp only [raisedLv, SlData.withLv_lv, SlData.setLv, hj, and_false, if_false, iff]
              rfl
          · have hm' : m ≠ (s.withLv (SlData.setLv s.lv s.headerNode i
                { slot with span := s.length })).headerNode := hm
            simp [raisedLv, SlData.setLv, hm, hm']
        · simp only [raisedSearch, InsertSearch.mk.injEq, true_and, and_true]
          constructor
          · funext j
            by_cases hj : j = i
            · subst hj
              rw [if_neg (by omega), if_pos (by omega), Function.update_self]
            · rw [Function.update_of_ne hj]
              congr 1
              simp only [eq_iff_iff]
              omega
          · funext j
            by_cases hj : j = i
            · subst hj
              rw [if_neg (by omega), if_pos (by omega), Function.update_self]
            · rw [Function.update_of_ne hj]
              congr 1
              simp only [eq_iff_iff]
              omega
      · intro j h1 h2
        have := hhas j (by omega) (by omega)
        simp only [SlData.has, SlData.withLv_lv, SlData.setLv] at this ⊢
        split
        · rfl
        · exact this

/-- The level test of `M.Insert`: nothing is raised to a level the list has. -/
theorem raiseTo_eq (v : InsertSearch) (level : Level)
    (header : ∀ j, 1 ≤ j → j ≤ SKIPLIST_MAXLEVEL → s.has j s.headerNode = true) :
    raiseTo s v level.val =
      some ({ s.withLv (raisedLv s (s.level + 1) (level.val + 1)) with
          level := max s.level level.val },
        raisedSearch s v (s.level + 1) (level.val + 1)) := by
  by_cases raise : s.level < level.val
  · have bound : s.level + 1 + (level.val - s.level) = level.val + 1 := by omega
    have run := raiseLevel_eq (level.val - s.level) s v (s.level + 1) (by
      intro j h1 h2
      have := level.le
      exact header j (by omega) (by omega))
    rw [bound] at run
    have top : max s.level level.val = level.val := by omega
    rw [raiseTo, if_pos raise, run]
    simp [top]
  · have none : ∀ j, ¬ (s.level + 1 ≤ j ∧ j < level.val + 1) := by omega
    have top : max s.level level.val = s.level := by omega
    have entries : raisedLv s (s.level + 1) (level.val + 1) = s.lv := by
      funext m j
      simp only [raisedLv, none, and_false, if_false]
    simp only [raiseTo, if_neg raise, raisedSearch, none, if_false, entries, top]
    rfl

theorem raisedLv_forward (lo hi : Nat) (m : NodeId) (j : Nat) :
    (raisedLv s lo hi m j).map LvSlot.forwardNode = (s.lv m j).map LvSlot.forwardNode := by
  unfold raisedLv
  split
  · cases s.lv m j <;> rfl
  · rfl

/-- At a level no node of the list has, the header is the last node. -/
theorem Wf.last_above (wf : Wf compDataFunc endSpan s (pre ++ post)) {j : Nat}
    (high : s.level < j) (max : j ≤ SKIPLIST_MAXLEVEL) :
    LastWith (s.has j) (s.headerNode :: pre) 0 s.headerNode :=
  ⟨[], pre, rfl, rfl, (wf.header j).mpr ⟨by omega, max⟩,
    fun _ hy => wf.has_above (List.mem_append_left post hy) high⟩

/-- The state after the level test of `M.Insert`, with the search extended to
the raised levels. -/
theorem raiseTo_spec (wf : Wf compDataFunc endSpan s (pre ++ post)) {v : InsertSearch}
    (found : ∀ j, 1 ≤ j → j ≤ s.level → FoundAt s pre v j) (level : Level) :
    ∃ g v', raiseTo s v level.val =
        some ({ s.withLv g with level := max s.level level.val }, v') ∧
      (∀ m j, (g m j).map LvSlot.forwardNode = (s.lv m j).map LvSlot.forwardNode) ∧
      (∀ m j, m ≠ s.headerNode ∨ j ≤ s.level ∨ level.val < j → g m j = s.lv m j) ∧
      ∀ j, 1 ≤ j → j ≤ max s.level level.val → FoundAt s pre v' j := by
  have header := raiseTo_eq v level fun j h1 h2 => (wf.header j).mpr ⟨h1, h2⟩
  refine ⟨_, _, header, raisedLv_forward _ _, ?_, ?_⟩
  · intro m j h
    unfold raisedLv
    rw [if_neg]
    rintro ⟨hm, h1, h2⟩
    cases h with
    | inl ne => exact ne hm
    | inr out => omega
  · intro j h1 h2
    by_cases hj : j ≤ s.level
    · obtain ⟨u, k, hu, hk, hlast⟩ := found j h1 hj
      refine ⟨u, k, ?_, ?_, hlast⟩
      · simp only [raisedSearch]
        rw [if_neg (by omega), hu]
      · simp only [raisedSearch]
        rw [if_neg (by omega), hk]
    · have range : s.level + 1 ≤ j ∧ j < level.val + 1 := by omega
      have := level.le
      exact ⟨s.headerNode, 0, if_pos range, if_pos range,
        wf.last_above (by omega) (by omega)⟩

/-- The entries after the two loops of `M.Insert` over the state `s`, with the
new node `x` and, per level, the last smaller node `u` and its rank `k`. -/
def splicedLv (s : SlData α) (x : NodeId) (level : Nat) (u : Nat → NodeId) (k : Nat → Int)
    (slot : Nat → LvSlot) : NodeId → Nat → Option LvSlot := fun m j =>
  if 1 ≤ j ∧ j ≤ level then
    if m = x then
      some { forwardNode := (s.heap (u j)).lvData.forwardNode
             span := (slot j).span - (k 1 - k j) }
    else if m = u j then some { forwardNode := some x, span := k 1 - k j + 1 }
    else s.lv m j
  else if level < j ∧ j ≤ s.level ∧ m = u j then
    some { slot j with span := (slot j).span + 1 }
  else s.lv m j

theorem spliceAt_eq {v : InsertSearch} {x u : NodeId} {j : Nat} {r1 r : Int}
    {slot new : LvSlot} (hu : v.update j = some u) (h1 : v.rank 1 = some r1)
    (hr : v.rank j = some r) (hslot : s.lv u j = some slot) (hnew : s.lv x j = some new)
    (ne : u ≠ x) :
    spliceAt v x s j = some (s.withLv fun m i => if i = j then
        (if m = x then some { forwardNode := (s.heap u).lvData.forwardNode
                              span := slot.span - (r1 - r) }
         else if m = u then some { forwardNode := some x, span := r1 - r + 1 }
         else s.lv m j)
      else s.lv m i) := by
  have ne' : x ≠ u := fun h => ne h.symm
  let g1 := SlData.setLv s.lv x j { new with forwardNode := (s.heap u).lvData.forwardNode }
  let g2 := SlData.setLv g1 u j { slot with forwardNode := some x }
  have hu1 : (s.withLv g1).lv u j = some slot := by simp [g1, SlData.setLv, ne, hslot]
  have hu2 : (s.withLv g2).lv u j = some { slot with forwardNode := some x } := by
    simp [g2, SlData.setLv]
  have hx2 : (s.withLv g2).lv x j =
      some { new with forwardNode := (s.heap u).lvData.forwardNode } := by
    simp [g2, g1, SlData.setLv, ne']
  let g3 := SlData.setLv g2 x j
    { forwardNode := (s.heap u).lvData.forwardNode, span := slot.span - (r1 - r) }
  have hu3 : (s.withLv g3).lv u j = some { slot with forwardNode := some x } := by
    simp [g3, g2, SlData.setLv, ne]
  have step1 := s.modifyLv_eq hnew fun slot =>
    { slot with forwardNode := (s.heap u).lvData.forwardNode }
  have step2 := (s.withLv g1).modifyLv_eq hu1 fun slot => { slot with forwardNode := some x }
  have step3 := (s.withLv g2).modifyLv_eq hx2 fun new =>
    { new with span := slot.span - (r1 - r) }
  have step4 := (s.withLv g3).modifyLv_eq hu3 fun slot => { slot with span := r1 - r + 1 }
  simp only [spliceAt, hu, h1, hr, Option.bind_eq_bind, Option.bind_some]
  rw [step1, Option.bind_some]
  change ((s.withLv g1).modifyLv u j _).bind _ = _
  rw [step2, Option.bind_some]
  change ((s.withLv g2).lv u j).bind _ = _
  rw [hu2, Option.bind_some]
  change ((s.withLv g2).modifyLv x j _).bind _ = _
  rw [step3, Option.bind_some]
  change (s.withLv g3).modifyLv u j _ = _
  rw [step4, SlData.withLv_withLv]
  congr 2
  funext m i
  by_cases hi : i = j
  · subst hi
    by_cases hm : m = x
    · subst hm
      simp [SlData.setLv, g3, ne']
    · by_cases hmu : m = u <;> simp [SlData.setLv, g3, g2, g1, hm, hmu, ne]
  · simp [SlData.setLv, g3, g2, g1, hi]

theorem widenAt_eq {v : InsertSearch} {u : NodeId} {j : Nat} {slot : LvSlot}
    (hu : v.update j = some u) (hslot : s.lv u j = some slot) :
    widenAt v s j = some (s.withLv fun m i => if i = j then
        (if m = u then some { slot with span := slot.span + 1 } else s.lv m j)
      else s.lv m i) := by
  simp only [widenAt, hu, Option.bind_eq_bind, Option.bind_some]
  rw [s.modifyLv_eq hslot]
  congr 2
  funext m i
  by_cases hi : i = j
  · subst hi
    by_cases hm : m = u <;> simp [SlData.setLv, hm]
  · simp [SlData.setLv, hi]

theorem splice_eq (s : SlData α) (v : InsertSearch) (x : NodeId) (level : Nat)
    (u : Nat → NodeId) (k : Nat → Int) (slot : Nat → LvSlot) (h1 : 1 ≤ level) (h2 : level ≤ s.level)
    (update : ∀ j, 1 ≤ j → j ≤ s.level → v.update j = some (u j))
    (rank : ∀ j, 1 ≤ j → j ≤ s.level → v.rank j = some (k j))
    (slots : ∀ j, 1 ≤ j → j ≤ s.level → s.lv (u j) j = some (slot j))
    (other : ∀ j, 1 ≤ j → j ≤ s.level → u j ≠ x)
    (new : ∀ j, 1 ≤ j → j ≤ level → s.has j x = true) :
    ((forLevels (spliceAt v x) s 1 level).bind fun s' =>
        forLevels (widenAt v) s' (level + 1) (s'.level - level)) =
      some (s.withLv (splicedLv s x level u k slot)) := by
  let e1 : Nat → NodeId → Option LvSlot := fun j m =>
    if m = x then some { forwardNode := (s.heap (u j)).lvData.forwardNode
                         span := (slot j).span - (k 1 - k j) }
    else if m = u j then some { forwardNode := some x, span := k 1 - k j + 1 }
    else s.lv m j
  let e2 : Nat → NodeId → Option LvSlot := fun j m =>
    if m = u j then some { slot j with span := (slot j).span + 1 } else s.lv m j
  have first := forLevels_eq (spliceAt v x) e1 s 1 level (by
    intro j hj1 hj2 g hg
    obtain ⟨fresh, hfresh⟩ := Wf.lv_of_has (new j hj1 (by omega))
    have hslot : (s.withLv g).lv (u j) j = some (slot j) :=
      (hg (u j)).trans (slots j hj1 (by omega))
    have hx : (s.withLv g).lv x j = some fresh := (hg x).trans hfresh
    rw [spliceAt_eq (update j hj1 (by omega)) (rank 1 (Nat.le_refl 1) (by omega))
      (rank j hj1 (by omega)) hslot hx (other j hj1 (by omega))]
    simp only [SlData.withLv_withLv, SlData.withLv_lv, hg, e1]
    rfl)
  let g1 : NodeId → Nat → Option LvSlot := fun m j =>
    if 1 ≤ j ∧ j < 1 + level then e1 j m else s.lv m j
  have second := forLevels_eq (widenAt v) e2 (s.withLv g1) (level + 1) (s.level - level) (by
    intro j hj1 hj2 g hg
    have above : g1 (u j) j = s.lv (u j) j := by
      simp only [g1]
      rw [if_neg (by omega)]
    have hslot : ((s.withLv g1).withLv g).lv (u j) j = some (slot j) :=
      ((hg (u j)).trans above).trans (slots j (by omega) (by omega))
    rw [widenAt_eq (update j (by omega) (by omega)) hslot]
    have rest : ∀ m, g m j = s.lv m j := by
      intro m
      rw [hg m]
      simp only [SlData.withLv_lv, g1]
      rw [if_neg (by omega)]
    simp only [SlData.withLv_withLv, SlData.withLv_lv, rest, e2])
  rw [first, Option.bind_some]
  change forLevels (widenAt v) (s.withLv g1) (level + 1) (s.level - level) = _
  rw [second, SlData.withLv_withLv]
  congr 2
  funext m j
  simp only [splicedLv, SlData.withLv_lv, g1, e1, e2]
  by_cases low : 1 ≤ j ∧ j ≤ level
  · rw [if_neg (by omega), if_pos (by omega), if_pos low]
  · by_cases high : level < j ∧ j ≤ s.level
    · rw [if_pos (by omega), if_neg low]
      simp only [high.1, high.2, true_and]
    · rw [if_neg (by omega), if_neg (by omega), if_neg low, if_neg (fun h => high ⟨h.1, h.2.1⟩)]

section Spliced
variable {x n f : NodeId} {level j : Nat} {u : Nat → NodeId} {k : Nat → Int}
  {slot : Nat → LvSlot} {entry : LvSlot}

theorem splicedLv_other (room : level ≤ s.level) (hn : n ≠ x)
    (hu : ¬ (n = u j ∧ 1 ≤ j ∧ j ≤ s.level)) :
    splicedLv s x level u k slot n j = s.lv n j := by
  unfold splicedLv
  by_cases low : 1 ≤ j ∧ j ≤ level
  · have ne : n ≠ u j := fun e => hu ⟨e, low.1, by omega⟩
    rw [if_pos low, if_neg hn, if_neg ne]
  · rw [if_neg low, if_neg]
    rintro ⟨h1, h2, h3⟩
    exact hu ⟨h3, by omega, h2⟩

theorem splicedLv_new_out (pos : 1 ≤ level) (old : ∀ j, 1 ≤ j → j ≤ s.level → u j ≠ x)
    (none : s.lv x j = none) (low : ¬ (1 ≤ j ∧ j ≤ level)) :
    splicedLv s x level u k slot x j = Option.none := by
  have miss : ¬ (level < j ∧ j ≤ s.level ∧ x = u j) := by
    rintro ⟨h1, h2, h3⟩
    exact old j (by omega) h2 h3.symm
  simp only [splicedLv, if_neg low, if_neg miss, none]

theorem splicedLv_update (ne : u j ≠ x) (pos : 1 ≤ j) (le : j ≤ s.level) :
    (splicedLv s x level u k slot (u j) j).isSome = true := by
  by_cases low : j ≤ level
  · simp [splicedLv, pos, low, ne]
  · have high : level < j := by omega
    simp [splicedLv, low, high, le]

theorem splicedLv_isSome (room : level ≤ s.level) (hn : n ≠ x)
    (slots : ∀ j, 1 ≤ j → j ≤ s.level → s.lv (u j) j = some (slot j)) :
    (splicedLv s x level u k slot n j).isSome = s.has j n := by
  by_cases hu : n = u j ∧ 1 ≤ j ∧ j ≤ s.level
  · obtain ⟨rfl, h1, h2⟩ := hu
    rw [splicedLv_update hn h1 h2, SlData.has, slots j h1 h2]
    rfl
  · rw [splicedLv_other room hn hu]
    rfl

/-- A link of an old node leads to the new one, or where it led before. -/
theorem splicedLv_link (room : level ≤ s.level) (hn : n ≠ x)
    (slots : ∀ j, 1 ≤ j → j ≤ s.level → s.lv (u j) j = some (slot j))
    (spliced : splicedLv s x level u k slot n j = some entry) (link : entry.forwardNode = some f) :
    (f = x ∧ 1 ≤ j ∧ j ≤ level) ∨ ∃ old, s.lv n j = some old ∧ old.forwardNode = some f := by
  by_cases hu : n = u j ∧ 1 ≤ j ∧ j ≤ s.level
  · obtain ⟨rfl, h1, h2⟩ := hu
    by_cases low : j ≤ level
    · simp only [splicedLv, h1, low, and_self, if_true, if_neg hn, Option.some.injEq] at spliced
      rw [← spliced] at link
      cases link
      exact .inl ⟨rfl, h1, low⟩
    · have high : level < j := by omega
      simp only [splicedLv, low, high, h2, and_false, if_false, and_self, if_true,
        Option.some.injEq] at spliced
      rw [← spliced] at link
      exact .inr ⟨slot j, slots j h1 h2, link⟩
  · rw [splicedLv_other room hn hu] at spliced
    exact .inr ⟨entry, spliced, link⟩

end Spliced

/-- The state in which the new node was allocated, with the levels raised. -/
def allocated (s : SlData α) (g : NodeId → Nat → Option LvSlot) (level : Nat) (nData : α) :
    SlData α :=
  (SlData.alloc { s.withLv g with level := max s.level level }
    (slCreateNode level (some nData))).2

section Allocated
variable (g : NodeId → Nat → Option LvSlot) (level : Nat) {m : NodeId} {j : Nat}

theorem allocated_heap (m : NodeId) : (allocated s g level nData).heap m =
    if m = s.nextId then slCreateNode level (some nData) else (s.withLv g).heap m := by
  by_cases hm : m = s.nextId
  · subst hm
    simp [allocated, SlData.alloc, SlData.withLv]
  · simp [allocated, SlData.alloc, SlData.withLv, hm]

theorem allocated_lv (hm : m ≠ s.nextId) : (allocated s g level nData).lv m j = g m j := by
  simp [SlData.lv, allocated_heap, hm, SlData.withLv]

theorem allocated_lv_new : (allocated s g level nData).lv s.nextId j =
    if 1 ≤ j ∧ j ≤ level then some {} else none := by
  simp only [SlData.lv, allocated_heap, if_true, slCreateNode]

theorem allocated_field (noField : ∀ n, (s.heap n).lvData.forwardNode = none) (m : NodeId) :
    ((allocated s g level nData).heap m).lvData.forwardNode = none := by
  rw [allocated_heap]
  split
  · rfl
  · exact noField m

end Allocated

/-- The state `M.Insert` leaves, for a target behind the nodes `pre`. The new
node is `s.nextId`. -/
structure Inserted (s : SlData α) (pre : List NodeId) (nData : α) (level : Nat)
    (s' : SlData α) : Prop where
  header : s'.headerNode = s.headerNode
  nextId : s'.nextId = s.nextId + 1
  top : s'.level = max s.level level
  length : s'.length = s.length + 1
  tail : s'.tailNode = some s.nextId
  data : ∀ n, (s'.heap n).nData = if n = s.nextId then some nData else (s.heap n).nData
  back : ∀ n, (s'.heap n).backwardNode =
    if n = s.nextId then pre.getLast? else (s.heap n).backwardNode
  field : ∀ n, (s'.heap n).lvData.forwardNode = none
  newHas : ∀ j, s'.has j s.nextId = true ↔ 1 ≤ j ∧ j ≤ level
  newSlot : ∀ j slot, s'.lv s.nextId j = some slot → slot.forwardNode = none
  has : ∀ j n, n ≠ s.nextId → s'.has j n = s.has j n
  link : ∀ j u k, 1 ≤ j → j ≤ level → LastWith (s.has j) (s.headerNode :: pre) k u →
    s'.lv u j = some { forwardNode := some s.nextId, span := (pre.length : Int) - k + 1 }
  above : ∀ j n, level < j → n ≠ s.nextId →
    (s'.lv n j).map LvSlot.forwardNode = (s.lv n j).map LvSlot.forwardNode
  other : ∀ j n, n ≠ s.nextId → 1 ≤ j → j ≤ max s.level level →
    (∀ k, ¬ LastWith (s.has j) (s.headerNode :: pre) k n) → s'.lv n j = s.lv n j

theorem isSome_of_map_forward {a b : Option LvSlot}
    (h : a.map LvSlot.forwardNode = b.map LvSlot.forwardNode) : a.isSome = b.isSome := by
  have := congrArg Option.isSome h
  simpa using this

/-- What `M.Insert` does to the links: the new node `s.nextId` leads nowhere, and the other
links lead to it or where they led before. -/
structure Extended (s : SlData α) (nData : α) (level : Nat) (s' : SlData α) : Prop where
  header : s'.headerNode = s.headerNode
  nextId : s'.nextId = s.nextId + 1
  top : s'.level = max s.level level
  field : ∀ n, (s'.heap n).lvData.forwardNode = none
  data : ∀ n, (s'.heap n).nData = if n = s.nextId then some nData else (s.heap n).nData
  has : ∀ n j, n ≠ s.nextId → s'.has j n = s.has j n
  newHas : ∀ j, s'.has j s.nextId = true ↔ 1 ≤ j ∧ j ≤ level
  link : ∀ n j entry f, s'.lv n j = some entry → entry.forwardNode = some f →
    n ≠ s.nextId ∧ ((f = s.nextId ∧ 1 ≤ j ∧ j ≤ level) ∨
      ∃ before, s.lv n j = some before ∧ before.forwardNode = some f)

theorem extended_spliced (nData : α) (noField : ∀ n, (s.heap n).lvData.forwardNode = none)
    {g : NodeId → Nat → Option LvSlot}
    (forward : ∀ m j, (g m j).map LvSlot.forwardNode = (s.lv m j).map LvSlot.forwardNode)
    (level : Level) {u : Nat → NodeId} (k : Nat → Int) {slot : Nat → LvSlot}
    (old : ∀ j, 1 ≤ j → j ≤ max s.level level.val → u j ≠ s.nextId)
    (slots : ∀ j, 1 ≤ j → j ≤ max s.level level.val → g (u j) j = some (slot j))
    (b : Option NodeId) (length : Int) :
    Extended s nData level.val { ((allocated s g level.val nData).withLv
        (splicedLv (allocated s g level.val nData) s.nextId level.val u k slot)).setBackward
        s.nextId b with
      tailNode := some s.nextId
      length := length } := by
  set s2 : SlData α := allocated s g level.val nData with hs2
  set s' : SlData α := { (s2.withLv (splicedLv s2 s.nextId level.val u k slot)).setBackward
      s.nextId b with
    tailNode := some s.nextId
    length := length } with hs'
  have room : level.val ≤ s2.level := Nat.le_max_right _ _
  have lvNew : s'.lv = splicedLv s2 s.nextId level.val u k slot :=
    (s2.withLv _).setBackward_lv s.nextId b
  have slots2 : ∀ j, 1 ≤ j → j ≤ s2.level → s2.lv (u j) j = some (slot j) := by
    intro j h1 h2
    rw [hs2, allocated_lv g level.val (old j h1 h2), slots j h1 h2]
  have noField2 : ∀ n, (s2.heap n).lvData.forwardNode = none := by
    rw [hs2]
    exact allocated_field g level.val noField
  have new : ∀ j, s'.lv s.nextId j = if 1 ≤ j ∧ j ≤ level.val then
      some { forwardNode := none, span := (slot j).span - (k 1 - k j) } else none := by
    intro j
    rw [lvNew]
    split
    · rename_i low
      simp only [splicedLv, if_pos low, if_true, noField2]
    · rename_i low
      refine splicedLv_new_out level.pos old ?_ low
      rw [hs2, allocated_lv_new, if_neg low]
  refine ⟨rfl, rfl, rfl, ?_, ?_, ?_, ?_, ?_⟩
  · intro n
    rw [hs', SlData.setBackward_field]
    exact noField2 n
  · intro n
    rw [hs', SlData.setBackward_nData]
    change (s2.heap n).nData = _
    rw [hs2, allocated_heap]
    split
    · rfl
    · rfl
  · intro n j hn
    rw [SlData.has, lvNew, splicedLv_isSome room hn slots2, SlData.has, hs2,
      allocated_lv g level.val hn]
    exact isSome_of_map_forward (forward n j)
  · intro j
    rw [SlData.has, new]
    split
    · exact iff_of_true rfl (by assumption)
    · exact iff_of_false nofun (by assumption)
  · intro n j entry f found link
    by_cases hn : n = s.nextId
    · rw [hn, new] at found
      split at found
      · cases found
        cases link
      · cases found
    · rw [lvNew] at found
      refine ⟨hn, (splicedLv_link room hn slots2 found link).imp_right ?_⟩
      rintro ⟨raised, entered, led⟩
      rw [hs2, allocated_lv g level.val hn] at entered
      have same := forward n j
      rw [entered, Option.map_some, led] at same
      exact Option.map_eq_some_iff.mp same.symm

theorem linkBack_eq {x : NodeId} (u1 : NodeId) {slot : LvSlot} (hslot : s.lv x 1 = some slot)
    (last : slot.forwardNode = none) :
    linkBack s x u1 = some { s.setBackward x (if u1 = s.headerNode then none else some u1) with
      tailNode := some x
      length := s.length + 1 } := by
  have keep : ∀ b, (s.setBackward x b).lv x 1 = some slot := by
    intro b
    rw [← hslot]
    simp [SlData.setBackward, SlData.lv]
  by_cases hu : u1 = s.headerNode
  · simp only [linkBack, hu, if_true, keep, Option.bind_eq_bind, Option.bind_some, last]
    rfl
  · simp only [linkBack, hu, if_false, keep, Option.bind_eq_bind, Option.bind_some, last]
    rfl

/-- The run of `M.Insert` on entries that the search found on every level. -/
theorem insert_eq {v v' : InsertSearch} {g : NodeId → Nat → Option LvSlot} {level : Level}
    {u : Nat → NodeId} {k : Nat → Int} {slot : Nat → LvSlot} (low : 1 ≤ s.level)
    (noField : ∀ n, (s.heap n).lvData.forwardNode = none)
    (search : insertSearch compDataFunc s nData s.level
      { x := s.headerNode, update := fun _ => none, rank := fun _ => none, ro := 0 } = some v)
    (raise : raiseTo s v level.val =
      some ({ s.withLv g with level := max s.level level.val }, v'))
    (update : ∀ j, 1 ≤ j → j ≤ max s.level level.val → v'.update j = some (u j))
    (rank : ∀ j, 1 ≤ j → j ≤ max s.level level.val → v'.rank j = some (k j))
    (old : ∀ j, 1 ≤ j → j ≤ max s.level level.val → u j ≠ s.nextId)
    (slots : ∀ j, 1 ≤ j → j ≤ max s.level level.val → g (u j) j = some (slot j)) :
    insert compDataFunc s nData level = some
      ({ ((allocated s g level.val nData).withLv (splicedLv (allocated s g level.val nData)
            s.nextId level.val u k slot)).setBackward
            s.nextId (if u 1 = s.headerNode then none else some (u 1)) with
          tailNode := some s.nextId
          length := s.length + 1 }, s.nextId, v.ro + 1) := by
  let s2 : SlData α := allocated s g level.val nData
  have newLv : ∀ j, 1 ≤ j → j ≤ level.val → s2.has j s.nextId = true := by
    intro j h1 h2
    simp only [s2, SlData.has, allocated_lv_new, h1, h2, and_self, if_true, Option.isSome_some]
  have slots2 : ∀ j, 1 ≤ j → j ≤ max s.level level.val → s2.lv (u j) j = some (slot j) := by
    intro j h1 h2
    rw [allocated_lv g level.val (old j h1 h2), slots j h1 h2]
  have spliced := splice_eq s2 v' s.nextId level.val u k slot level.pos
    (Nat.le_max_right _ _) update rank slots2 old newLv
  have one : 1 ≤ max s.level level.val := by omega
  have firstSlot : (s2.withLv (splicedLv s2 s.nextId level.val u k slot)).lv
      s.nextId 1 = some { forwardNode := (s2.heap (u 1)).lvData.forwardNode
                          span := (slot 1).span - (k 1 - k 1) } := by
    simp [splicedLv, level.pos]
  have link := linkBack_eq (u 1) firstSlot (allocated_field g level.val noField (u 1))
  rw [insert, search]
  simp only [Option.bind_eq_bind, Option.bind_some, raise]
  rw [← Option.bind_assoc]
  change (((forLevels (spliceAt v' s.nextId) s2 1 level.val).bind fun s' =>
    forLevels (widenAt v') s' (level.val + 1) (s'.level - level.val)).bind fun s' =>
      (v'.update 1).bind fun u1 => (linkBack s' s.nextId u1).bind fun s' =>
        some (s', s.nextId, v.ro + 1)) = _
  rw [spliced, Option.bind_some, update 1 (Nat.le_refl 1) one,
    Option.bind_some, link, Option.bind_some]
  rfl

/-- The predecessor of the new node, as the back pointer stores it. -/
theorem Wf.predecessor (wf : Wf compDataFunc endSpan s (pre ++ post)) {before : List NodeId}
    {u : NodeId} (split : s.headerNode :: pre = before ++ [u]) :
    (if u = s.headerNode then none else some u) = pre.getLast? := by
  cases before with
  | nil =>
      simp only [List.nil_append, List.cons.injEq] at split
      simp [← split.1, split.2]
  | cons b before =>
      simp only [List.cons_append, List.cons.injEq] at split
      have ne : u ≠ s.headerNode := by
        intro e
        have := (List.nodup_cons.mp wf.nodup).1
        simp [split.2, ← e] at this
      simp [ne, split.2]

/-- The run of `M.Insert` up to the final state, with the search results named. -/
theorem insert_run (wf : Wf compDataFunc endSpan s (pre ++ post))
    (cut : Cut compDataFunc s nData pre post) (level : Level) :
    ∃ (g : NodeId → Nat → Option LvSlot) (s2 : SlData α) (u : Nat → NodeId) (k : Nat → Nat)
      (slot : Nat → LvSlot),
      s2 = allocated s g level.val nData ∧
      (∀ m j, (g m j).map LvSlot.forwardNode = (s.lv m j).map LvSlot.forwardNode) ∧
      (∀ m j, m ≠ s.headerNode ∨ j ≤ s.level ∨ level.val < j → g m j = s.lv m j) ∧
      (∀ j, 1 ≤ j → j ≤ max s.level level.val →
        LastWith (s.has j) (s.headerNode :: pre) (k j) (u j) ∧ u j ≠ s.nextId ∧
        s2.lv (u j) j = some (slot j)) ∧
      insert compDataFunc s nData level = some
        ({ (s2.withLv (splicedLv s2 s.nextId level.val u (fun j => (k j : Int)) slot)).setBackward
              s.nextId pre.getLast? with
            tailNode := some s.nextId
            length := s.length + 1 }, s.nextId, (pre.length : Int) + 1) := by
  obtain ⟨v, search, found, hro⟩ := insertSearch_spec wf cut
  obtain ⟨g, v', raise, forward, same, found'⟩ := raiseTo_spec wf found level
  choose! u k update rank last using found'
  have old : ∀ j, 1 ≤ j → j ≤ max s.level level.val → u j ≠ s.nextId := by
    intro j h1 h2 e
    have := wf.below (u j) (by
      rw [← List.cons_append]
      exact List.mem_append_left post (last j h1 h2).mem)
    rw [e] at this
    exact Nat.lt_irrefl _ this
  have slotsExist : ∀ j, 1 ≤ j → j ≤ max s.level level.val →
      ∃ slot, g (u j) j = some slot := by
    intro j h1 h2
    obtain ⟨before, after, -, -, hhas, -⟩ := last j h1 h2
    exact Option.isSome_iff_exists.mp ((isSome_of_map_forward (forward (u j) j)).trans hhas)
  choose! slot slots using slotsExist
  refine ⟨g, allocated s g level.val nData, u, k, slot, rfl, forward, same, ?_, ?_⟩
  · intro j h1 h2
    refine ⟨last j h1 h2, old j h1 h2, ?_⟩
    rw [allocated_lv g level.val (old j h1 h2), slots j h1 h2]
  · have one : 1 ≤ max s.level level.val := by
      have := wf.level.1
      omega
    obtain ⟨before, split, -, -⟩ := wf.last_one (last 1 (Nat.le_refl 1) one)
    rw [insert_eq wf.level.1 wf.field search raise update rank old slots, wf.predecessor split,
      hro]

theorem insert_spec (wf : Wf compDataFunc endSpan s (pre ++ post))
    (cut : Cut compDataFunc s nData pre post) (level : Level) :
    ∃ s', insert compDataFunc s nData level = some (s', s.nextId, (pre.length : Int) + 1) ∧
      Inserted s pre nData level.val s' := by
  obtain ⟨g, s2, u, k, slot, rfl, forward, same, found, run⟩ := insert_run wf cut level
  have old : ∀ j, 1 ≤ j → j ≤ max s.level level.val → u j ≠ s.nextId :=
    fun j h1 h2 => (found j h1 h2).2.1
  have slots : ∀ j, 1 ≤ j → j ≤ max s.level level.val → g (u j) j = some (slot j) := by
    intro j h1 h2
    rw [← allocated_lv g level.val (old j h1 h2)]
    exact (found j h1 h2).2.2
  have ext := extended_spliced nData wf.field forward level (fun j => (k j : Int)) old
    slots pre.getLast? (s.length + 1)
  set s2 : SlData α := allocated s g level.val nData with hs2
  set s' : SlData α := { (s2.withLv (splicedLv s2 s.nextId level.val u
      (fun j => (k j : Int)) slot)).setBackward s.nextId pre.getLast? with
    tailNode := some s.nextId
    length := s.length + 1 } with hs'
  have one : 1 ≤ max s.level level.val := by
    have := wf.level.1
    omega
  obtain ⟨-, -, -, rank1⟩ := wf.last_one (found 1 (Nat.le_refl 1) one).1
  have lvNew : s'.lv = splicedLv s2 s.nextId level.val u (fun j => (k j : Int)) slot :=
    (s2.withLv _).setBackward_lv s.nextId pre.getLast?
  have keepLv : ∀ n j, n ≠ s.nextId → ¬ (n = u j ∧ 1 ≤ j ∧ j ≤ max s.level level.val) →
      s'.lv n j = g n j := by
    intro n j hn hu
    rw [lvNew, splicedLv_other (Nat.le_max_right _ _) hn hu, hs2, allocated_lv g level.val hn]
  refine ⟨s', run, ?_⟩
  refine {
    header := ext.header, nextId := ext.nextId, top := ext.top, length := rfl, tail := rfl
    data := ext.data, back := ?_, field := ext.field, newHas := ext.newHas, newSlot := ?_
    has := fun j n hn => ext.has n j hn, link := ?_, above := ?_, other := ?_ }
  · intro n
    rw [SlData.setBackward_back]
    split
    · rfl
    · change (s2.heap n).backwardNode = _
      rw [hs2, allocated_heap, if_neg (by assumption)]
      rfl
  · intro j entry hentry
    cases hf : entry.forwardNode with
    | none => rfl
    | some f => exact absurd rfl (ext.link s.nextId j entry f hentry hf).1
  · intro j w c h1 h2 hlast
    have inRange : j ≤ max s.level level.val := by omega
    obtain ⟨hfound, old, -⟩ := found j h1 inRange
    obtain ⟨rfl, rfl⟩ := hlast.unique hfound
    rw [lvNew]
    simp only [splicedLv, if_pos (And.intro h1 h2), if_neg old, if_true, rank1]
  · intro j n h1 hn
    by_cases hu : n = u j ∧ 1 ≤ j ∧ j ≤ max s.level level.val
    · obtain ⟨rfl, hj1, hj2⟩ := hu
      have low : ¬ (1 ≤ j ∧ j ≤ level.val) := by omega
      have inRange : j ≤ s2.level := hj2
      rw [← forward, slots j hj1 hj2, lvNew]
      simp [splicedLv, low, h1, inRange]
    · rw [keepLv n j hn hu, forward]
  · intro j n hn h1 h2 notLast
    have hu : ¬ (n = u j ∧ 1 ≤ j ∧ j ≤ max s.level level.val) := by
      rintro ⟨rfl, -, -⟩
      exact notLast _ (found j h1 h2).1
    rw [keepLv n j hn hu]
    apply same
    by_contra both
    have hheader : n = s.headerNode := by
      by_contra ne
      exact both (Or.inl ne)
    subst hheader
    have := level.le
    exact notLast 0 (wf.last_above (by omega) (by omega))

theorem Inserted.has_old {s' : SlData α} {level : Nat} (ins : Inserted s pre nData level s')
    (wf : Wf compDataFunc endSpan s ids) {n : NodeId} (hn : n ∈ s.headerNode :: ids) :
    n ≠ s.nextId ∧ ∀ j, s'.has j n = s.has j n := by
  have ne : n ≠ s.nextId := Nat.ne_of_lt (wf.below n hn)
  exact ⟨ne, fun j => ins.has j n ne⟩

/-- Behind an insertion, wherever it was, the level 1 chain ends at the new node. -/
theorem Inserted.path (wf : Wf compDataFunc endSpan s (pre ++ post)) {s' : SlData α}
    {level : Level} (ins : Inserted s pre nData level.val s') :
    Path s' 1 s'.headerNode (pre ++ [s.nextId]) := by
  have stop : Path s' 1 s.nextId [] := by
    obtain ⟨slot, hslot⟩ := Wf.lv_of_has ((ins.newHas 1).mpr ⟨Nat.le_refl 1, level.pos⟩)
    exact .stop hslot (ins.newSlot 1 slot hslot)
  have one : 1 ≤ max s.level level.val := by
    have := wf.level.1
    omega
  have walk : ∀ (after before : List NodeId) (n : NodeId),
      s.headerNode :: pre = before ++ n :: after → Path s' 1 n (after ++ [s.nextId]) := by
    intro after
    induction after with
    | nil =>
        intro before n split
        have hn : s.has 1 n = true := by
          apply wf.has_one
          rw [← List.cons_append, split]
          simp
        have last : LastWith (s.has 1) (s.headerNode :: pre) before.length n :=
          ⟨before, [], split, rfl, hn, by simp⟩
        exact .go (ins.link 1 n _ (Nat.le_refl 1) level.pos last) rfl stop
    | cons y after ih =>
        intro before n split
        have hmem : n ∈ s.headerNode :: (pre ++ post) := by
          rw [← List.cons_append, split]
          simp
        have hy : s.has 1 y = true :=
          wf.base y (List.mem_append_left post (mem_tail_of_split split List.mem_cons_self))
        have notLast : ∀ k, ¬ LastWith (s.has 1) (s.headerNode :: pre) k n := by
          intro k last
          have := (last.none_after wf.nodup_left split).2 y List.mem_cons_self
          simp [hy] at this
        obtain ⟨slot, hslot⟩ := Wf.lv_of_has (wf.has_one hmem)
        have ok := wf.chain before n (y :: after ++ post)
          (by rw [← List.cons_append, split]; simp) 1 slot hslot
        simp only [SlotOk, List.cons_append, hop, hy, if_true] at ok
        have keep := ins.other 1 n (ins.has_old wf hmem).1 (Nat.le_refl 1) one notLast
        exact .go (keep.trans hslot) ok.1 (ih (before ++ [n]) y (by rw [split]; simp))
  rw [ins.header]
  exact walk pre [] s.headerNode rfl

private theorem singleton_split {a b : List NodeId} {x y : NodeId} (h : [x] = a ++ y :: b) :
    a = [] ∧ y = x ∧ b = [] := by
  cases a <;> simp_all

section Chain
variable {s' : SlData α} {level : Level} {before after : List NodeId} {n : NodeId} {i : Nat}
  {oldSlot slot : LvSlot}

/-- The entry of the last node at a level: the new node follows, or nothing. -/
theorem Inserted.chain_last (wf : Wf compDataFunc endSpan s ids)
    (ins : Inserted s ids nData level.val s')
    (split : s.headerNode :: ids = before ++ n :: after) (hold : s.lv n i = some oldSlot)
    (hslot : s'.lv n i = some slot)
    (ok : SlotOk (endSpan ∧ i ≤ s.level) (s.has i) after oldSlot)
    (none : ∀ y ∈ after, s.has i y = false) (pos : 1 ≤ i) :
    SlotOk False (s'.has i) (after ++ [s.nextId]) slot := by
  have hn : n ∈ s.headerNode :: ids := by simp [split]
  have none' : ∀ y ∈ after, s'.has i y = false := fun y hy =>
    ((ins.has_old wf (by simp [split, hy])).2 i).trans (none y hy)
  have hlast : LastWith (s.has i) (s.headerNode :: ids) before.length n :=
    ⟨before, after, split, rfl, by simp [SlData.has, hold], none⟩
  by_cases low : i ≤ level.val
  · rw [ins.link i n _ pos low hlast, Option.some.injEq] at hslot
    have new : s'.has i s.nextId = true := (ins.newHas i).mpr ⟨pos, low⟩
    have next : hop (s'.has i) (after ++ [s.nextId]) = some (s.nextId, after.length + 1) := by
      simp [hop_append_of_none none', hop, new]
    have count := congrArg List.length split
    simp only [List.length_cons, List.length_append] at count
    rw [slotOk_of_hop next, ← hslot]
    refine ⟨rfl, ?_⟩
    push_cast
    omega
  · have unused : ∀ y ∈ after ++ [s.nextId], s'.has i y = false := by
      intro y hy
      cases List.mem_append.mp hy with
      | inl h => exact none' y h
      | inr h =>
          rw [List.mem_singleton.mp h]
          apply eq_false_of_ne_true
          intro new
          exact low ((ins.newHas i).mp new).2
    have keep := ins.above i n (by omega) (ins.has_old wf hn).1
    rw [hslot, hold] at keep
    simp only [Option.map_some, Option.some.injEq] at keep
    exact (slotOk_of_none unused).mpr
      ⟨keep.trans ((slotOk_of_none none).mp ok).1, fun h => h.elim⟩

theorem Inserted.chain (wf : Wf compDataFunc endSpan s ids)
    (ins : Inserted s ids nData level.val s')
    (split : s.headerNode :: (ids ++ [s.nextId]) = before ++ n :: after)
    (hslot : s'.lv n i = some slot) :
    SlotOk (False ∧ i ≤ s'.level) (s'.has i) after slot := by
  rw [← List.cons_append] at split
  cases split_append split with
  | inr h =>
      obtain ⟨skipped, -, single⟩ := h
      obtain ⟨rfl, rfl, rfl⟩ := singleton_split single
      exact ⟨ins.newSlot i slot hslot, fun h => h.1.elim⟩
  | inl h =>
      obtain ⟨after', rfl, split'⟩ := h
      have hn := ins.has_old wf (n := n) (by simp [split'])
      have hasI : s.has i n = true := by
        rw [← hn.2]
        simp [SlData.has, hslot]
      have pos := wf.has_pos split' hasI
      obtain ⟨oldSlot, hold⟩ := Wf.lv_of_has hasI
      have ok := wf.chain before n after' split' i oldSlot hold
      by_cases last : ∃ y ∈ after', s.has i y = true
      · -- a later node has this level: nothing changed here
        obtain ⟨y, hy, hhas⟩ := last
        have keep : s'.lv n i = s.lv n i := by
          have := wf.top y (mem_tail_of_split split' hy) i hhas
          apply ins.other i n hn.1 pos (by omega)
          intro k hlast
          have := (hlast.none_after wf.nodup split').2 y hy
          simp [hhas] at this
        rw [keep, hold, Option.some.injEq] at hslot
        subst hslot
        have agree : ∀ y ∈ after', s'.has i y = s.has i y := fun y hy =>
          (ins.has_old wf (by simp [split', hy])).2 i
        have same : SlotOk (endSpan ∧ i ≤ s.level) (s'.has i) (after' ++ []) oldSlot := by
          rw [List.append_nil]
          exact ok.congr agree
        exact same.replace_rest hy ((agree y hy).trans hhas) [s.nextId]
      · have none : ∀ y ∈ after', s.has i y = false := by
          intro y hy
          simpa using fun h => last ⟨y, hy, h⟩
        have ok := ins.chain_last wf split' hold hslot ok none pos
        exact ok.mono fun h => h.1

end Chain

/-- An insertion behind every node keeps the representation. -/
theorem Inserted.wf (wf : Wf compDataFunc endSpan s ids)
    (cut : Cut compDataFunc s nData ids []) {s' : SlData α} {level : Level}
    (ins : Inserted s ids nData level.val s') :
    Wf compDataFunc False s' (ids ++ [s.nextId]) := by
  have old : ∀ n ∈ s.headerNode :: ids, n ≠ s.nextId ∧ ∀ j, s'.has j n = s.has j n :=
    fun n hn => ins.has_old wf hn
  have oldIds : ∀ n ∈ ids, n ≠ s.nextId ∧ ∀ j, s'.has j n = s.has j n :=
    fun n hn => old n (List.mem_cons_of_mem _ hn)
  have oldData : ∀ n ∈ ids, (s'.heap n).nData = (s.heap n).nData := by
    intro n hn
    rw [ins.data, if_neg (oldIds n hn).1]
  have newData : (s'.heap s.nextId).nData = some nData := by rw [ins.data, if_pos rfl]
  refine {
    nodup := ?_, below := ?_, data := ?_, sorted := ?_, header := ?_, base := ?_, down := ?_
    top := ?_, level := ?_, chain := ?_, back := ?_, tail := ?_, field := ins.field }
  · rw [ins.header, ← List.cons_append]
    refine List.nodup_append.mpr ⟨wf.nodup, by simp, ?_⟩
    intro n hn m hm
    rw [List.mem_singleton.mp hm]
    exact (old n hn).1
  · intro n hn
    rw [ins.header, ← List.cons_append] at hn
    rw [ins.nextId]
    cases List.mem_append.mp hn with
    | inl h => exact Nat.lt_succ_of_lt (wf.below n h)
    | inr h => rw [List.mem_singleton.mp h]; exact Nat.lt_succ_self _
  · intro n hn
    cases List.mem_append.mp hn with
    | inl h => rw [oldData n h]; exact wf.data n h
    | inr h => rw [List.mem_singleton.mp h]; exact ⟨nData, newData⟩
  · refine List.pairwise_append.mpr ⟨?_, by simp, ?_⟩
    · apply wf.sorted.imp_of_mem
      intro a b ha hb h
      rw [oldData a ha, oldData b hb]
      exact h
    · intro a ha b hb da db hda hdb
      rw [oldData a ha] at hda
      rw [List.mem_singleton.mp hb, newData] at hdb
      cases hdb
      exact cut.smaller a ha da hda
  · intro i
    rw [ins.header, (old s.headerNode List.mem_cons_self).2]
    exact wf.header i
  · intro n hn
    cases List.mem_append.mp hn with
    | inl h => rw [(oldIds n h).2]; exact wf.base n h
    | inr h =>
        rw [List.mem_singleton.mp h]
        exact (ins.newHas 1).mpr ⟨Nat.le_refl 1, level.pos⟩
  · intro n hn i hi
    cases List.mem_append.mp hn with
    | inl h => rw [(oldIds n h).2, (oldIds n h).2]; exact wf.down n h i hi
    | inr h =>
        rw [List.mem_singleton.mp h, ins.newHas, ins.newHas]
        omega
  · intro n hn i hi
    rw [ins.top]
    cases List.mem_append.mp hn with
    | inl h =>
        rw [(oldIds n h).2] at hi
        have := wf.top n h i hi
        omega
    | inr h =>
        rw [List.mem_singleton.mp h, ins.newHas] at hi
        omega
  · rw [ins.top]
    have := wf.level
    have := level.le
    omega
  · intro before n after split i slot hslot
    rw [ins.header] at split
    exact ins.chain wf split hslot
  · intro before n after split
    cases split_append split with
    | inr h =>
        obtain ⟨skipped, hbefore, single⟩ := h
        obtain ⟨rfl, rfl, rfl⟩ := singleton_split single
        rw [ins.back, if_pos rfl, hbefore, List.append_nil]
    | inl h =>
        obtain ⟨after', -, split'⟩ := h
        have hn : n ∈ ids := by simp [split']
        rw [ins.back, if_neg (oldIds n hn).1]
        exact wf.back before n after' split'
  · rw [ins.tail]
    simp

end Qiuqiu.Skiplist
