import Qiuqiu.Skiplist.Runs

/-!
The length of the list. `M.Create` starts it at 1, so behind every run it is one
more than the inserts less the deletes that returned an element, and so is the
span that `M.Insert` gives the header at a level it raises. This holds for any
two functions to compare with, whatever an insertion has lost: a run needs
only that the links of the nodes lead nowhere in a circle.
-/
namespace Qiuqiu.Skiplist
variable {α : Type}

def getLength (s : SlData α) : Int := s.length

section Links

/-- A node that a search can go on to at level `i`. -/
structure Target (s : SlData α) (i : Nat) (f : NodeId) : Prop where
  old : f < s.nextId
  has : s.has i f = true
  data : ∃ d, (s.heap f).nData = some d

/-- Every forward link leads further down. -/
def Falls (s : SlData α) (depth : NodeId → Nat) : Prop :=
  ∀ n i slot f, s.lv n i = some slot → slot.forwardNode = some f → depth f < depth n

/-- What every run keeps. -/
structure Linked (s : SlData α) : Prop where
  header : ∀ i, 1 ≤ i → i ≤ SKIPLIST_MAXLEVEL → s.has i s.headerNode = true
  old : s.headerNode < s.nextId
  level : 1 ≤ s.level ∧ s.level ≤ SKIPLIST_MAXLEVEL
  field : ∀ n, (s.heap n).lvData.forwardNode = none
  down : ∀ n i, 1 ≤ i → s.has (i + 1) n = true → s.has i n = true
  target : ∀ n i slot f, s.lv n i = some slot → slot.forwardNode = some f → Target s i f
  depth : ∃ depth : NodeId → Nat, (∀ n, depth n < s.nextId) ∧ Falls s depth

theorem linked_create : Linked (create : SlData α) := by
  have slots : ∀ n i, (create : SlData α).lv n i =
      if 1 ≤ i ∧ i ≤ SKIPLIST_MAXLEVEL then some {} else none := fun _ _ => rfl
  have noLink : ∀ n i slot f, (create : SlData α).lv n i = some slot →
      slot.forwardNode = some f → False := by
    intro n i slot f entry link
    rw [slots] at entry
    split at entry
    · cases entry
      cases link
    · cases entry
  have level : 1 ≤ (create : SlData α).level ∧ (create : SlData α).level ≤ SKIPLIST_MAXLEVEL := by
    simp [create, SKIPLIST_MAXLEVEL]
  refine ⟨?_, Nat.zero_lt_one, level, fun _ => rfl, ?_, ?_, fun _ => 0, ?_, ?_⟩
  · intro i h1 h2
    rw [SlData.has, slots, if_pos ⟨h1, h2⟩]
    rfl
  · intro n i h1 h
    rw [SlData.has, slots] at h ⊢
    split at h
    · rw [if_pos (by omega)]
      rfl
    · cases h
  · intro n i slot f entry link
    exact (noLink n i slot f entry link).elim
  · intro n
    exact Nat.zero_lt_one
  · intro n i slot f entry link
    exact (noLink n i slot f entry link).elim

variable {s : SlData α} {compDataFunc : α → α → Int} {nData : α}

theorem Linked.walkLevel_from (linked : Linked s) {β : Type} (add : Int → β → β) (i : Nat)
    {depth : NodeId → Nat} (falls : Falls s depth) :
    ∀ (fuel : Nat) (x : NodeId) (acc : β), s.has i x = true → x < s.nextId → depth x < fuel →
      ∃ y acc', walkLevel s (beforeTest compDataFunc s nData) add i fuel x acc = some (y, acc') ∧
        s.has i y = true ∧ y < s.nextId := by
  intro fuel
  induction fuel with
  | zero => intro x acc _ _ short; omega
  | succ fuel ih =>
      intro x acc has old short
      obtain ⟨slot, entry⟩ := Wf.lv_of_has has
      cases link : slot.forwardNode with
      | none => exact ⟨x, acc, by simp [walkLevel, entry, link], has, old⟩
      | some f =>
          have target := linked.target x i slot f entry link
          obtain ⟨d, data⟩ := target.data
          by_cases before : compDataFunc d nData < 0
          · have further := falls x i slot f entry link
            obtain ⟨y, acc', walk, found⟩ := ih f (add slot.span acc) target.has target.old
              (by omega)
            refine ⟨y, acc', ?_, found⟩
            simp [walkLevel, entry, link, beforeTest_eq _ slot data, before, walk]
          · refine ⟨x, acc, ?_, has, old⟩
            simp [walkLevel, entry, link, beforeTest_eq _ slot data, before]

/-- A level of a search ends at a node that has the level. -/
theorem Linked.walkLevel (linked : Linked s) (compDataFunc : α → α → Int) (nData : α) {β : Type}
    (add : Int → β → β) {i : Nat} {x : NodeId} (has : s.has i x = true) (old : x < s.nextId)
    (acc : β) :
    ∃ y acc', walkLevel s (beforeTest compDataFunc s nData) add i s.nextId x acc =
        some (y, acc') ∧ s.has i y = true ∧ y < s.nextId := by
  obtain ⟨depth, bound, falls⟩ := linked.depth
  exact linked.walkLevel_from add i falls s.nextId x acc has old (bound x)

/-- The search names a node at level `j`. -/
def NamedAt (s : SlData α) (update : Nat → Option NodeId) (j : Nat) : Prop :=
  ∃ u, update j = some u ∧ s.has j u = true ∧ u < s.nextId

theorem Linked.insertSearch_from (linked : Linked s) (compDataFunc : α → α → Int) (nData : α) :
    ∀ (i : Nat) (v : InsertSearch), i ≤ s.level → v.x < s.nextId →
      (1 ≤ i → s.has i v.x = true) → (i < s.level → ∃ k, v.rank (i + 1) = some k) →
      ∃ v', insertSearch compDataFunc s nData i v = some v' ∧
        (∀ j, 1 ≤ j → j ≤ i → NamedAt s v'.update j ∧ ∃ k, v'.rank j = some k) ∧
        ∀ j, i < j → v'.update j = v.update j ∧ v'.rank j = v.rank j := by
  intro i
  induction i with
  | zero =>
      intro v _ _ _ _
      exact ⟨v, rfl, fun j h1 h2 => by omega, fun j _ => ⟨rfl, rfl⟩⟩
  | succ i ih =>
      intro v hi old has rank
      have start : ∃ k, (if i + 1 = s.level then some 0 else v.rank (i + 2)) = some k := by
        split
        · exact ⟨0, rfl⟩
        · exact rank (by omega)
      obtain ⟨k, start⟩ := start
      obtain ⟨u, ⟨r, ro⟩, walk, hasU, oldU⟩ := linked.walkLevel compDataFunc nData
        (fun span (acc : Int × Int) => (acc.1 + span, acc.2 + span)) (has (by omega)) old (k, v.ro)
      obtain ⟨v', run, named, keep⟩ := ih
        { x := u
          update := Function.update v.update (i + 1) (some u)
          rank := Function.update v.rank (i + 1) (some r)
          ro := ro } (by omega) oldU (fun h => linked.down u i h hasU) (fun _ => ⟨r, by simp⟩)
      have top := keep (i + 1) (by omega)
      simp only [Function.update_self] at top
      refine ⟨v', ?_, ?_, ?_⟩
      · rw [insertSearch]
        simp only [start, Option.bind_eq_bind, Option.bind_some, walk]
        exact run
      · intro j h1 h2
        by_cases hj : j = i + 1
        · subst hj
          exact ⟨⟨u, top.1, hasU, oldU⟩, r, top.2⟩
        · exact named j h1 (by omega)
      · intro j hj
        have := keep j (by omega)
        simpa [Function.update_of_ne (show j ≠ i + 1 by omega)] using this

theorem Linked.deleteSearch_from (linked : Linked s) (compDataFunc : α → α → Int) (nData : α) :
    ∀ (i : Nat) (x : NodeId) (update : Nat → Option NodeId), i ≤ s.level → x < s.nextId →
      (1 ≤ i → s.has i x = true) →
      ∃ x' update', deleteSearch compDataFunc s nData i x update = some (x', update') ∧
        (∀ j, 1 ≤ j → j ≤ i → NamedAt s update' j) ∧
        (∀ j, i < j → update' j = update j) ∧ (1 ≤ i → update' 1 = some x') := by
  intro i
  induction i with
  | zero =>
      intro x update _ _ _
      exact ⟨x, update, rfl, fun j h1 h2 => by omega, fun j _ => rfl, fun h => by omega⟩
  | succ i ih =>
      intro x update hi old has
      obtain ⟨u, _, walk, hasU, oldU⟩ := linked.walkLevel compDataFunc nData
        (fun _ (acc : Unit) => acc) (has (by omega)) old ()
      obtain ⟨x', update', run, named, keep, last⟩ := ih u
        (Function.update update (i + 1) (some u)) (by omega) oldU
        (fun h => linked.down u i h hasU)
      have top := keep (i + 1) (by omega)
      rw [Function.update_self] at top
      refine ⟨x', update', ?_, ?_, ?_, ?_⟩
      · rw [deleteSearch, walk]
        exact run
      · intro j h1 h2
        by_cases hj : j = i + 1
        · subst hj
          exact ⟨u, top, hasU, oldU⟩
        · exact named j h1 (by omega)
      · intro j hj
        rw [keep j (by omega), Function.update_of_ne (by omega)]
      · intro _
        cases i with
        | zero =>
            simp only [deleteSearch, Option.some.injEq, Prod.mk.injEq] at run
            rw [top, run.1]
        | succ i => exact last (by omega)

end Links

section Insertion
variable {s : SlData α} {compDataFunc : α → α → Int} {nData : α}

/-- The new node is a dead end: it gets the depth 0, and all others one more. -/
theorem Linked.extend (linked : Linked s) {level : Level} {s' : SlData α}
    (ext : Extended s nData level.val s') : Linked s' := by
  refine ⟨?_, ?_, ?_, ext.field, ?_, ?_, ?_⟩
  · intro i h1 h2
    rw [ext.header, ext.has _ i (Nat.ne_of_lt linked.old)]
    exact linked.header i h1 h2
  · rw [ext.header, ext.nextId]
    exact Nat.lt_succ_of_lt linked.old
  · have := linked.level
    have := level.le
    rw [ext.top]
    omega
  · intro n i h1 h
    by_cases hn : n = s.nextId
    · rw [hn, ext.newHas] at h ⊢
      omega
    · rw [ext.has n _ hn] at h ⊢
      exact linked.down n i h1 h
  · intro n i entry f found link
    obtain ⟨-, ⟨rfl, low⟩ | ⟨before, held, led⟩⟩ := ext.link n i entry f found link
    · refine ⟨ext.nextId ▸ Nat.lt_succ_self _, (ext.newHas i).mpr low, nData, ?_⟩
      rw [ext.data, if_pos rfl]
    · have target := linked.target n i before f held led
      have ne : f ≠ s.nextId := Nat.ne_of_lt target.old
      refine ⟨ext.nextId ▸ Nat.lt_succ_of_lt target.old, (ext.has f i ne).trans target.has, ?_⟩
      rw [ext.data, if_neg ne]
      exact target.data
  · obtain ⟨depth, bound, falls⟩ := linked.depth
    refine ⟨fun n => if n = s.nextId then 0 else depth n + 1, ?_, ?_⟩
    · intro n
      have := bound n
      rw [ext.nextId]
      dsimp only
      split
      · omega
      · omega
    · intro n i entry f found link
      obtain ⟨hn, ⟨rfl, -⟩ | ⟨before, held, led⟩⟩ := ext.link n i entry f found link
      · simp only [if_true, if_neg hn]
        omega
      · have ne : f ≠ s.nextId := Nat.ne_of_lt (linked.target n i before f held led).old
        have := falls n i before f held led
        simp only [if_neg ne, if_neg hn]
        omega

/-- The search of `M.Insert`, and what it finds once the levels are raised. -/
theorem Linked.insertSearch (linked : Linked s) (compDataFunc : α → α → Int) (nData : α)
    (level : Level) :
    ∃ v, insertSearch compDataFunc s nData s.level
        { x := s.headerNode, update := fun _ => none, rank := fun _ => none, ro := 0 } = some v ∧
      ∀ j, 1 ≤ j → j ≤ max s.level level.val →
        NamedAt s (raisedSearch s v (s.level + 1) (level.val + 1)).update j ∧
          ∃ k, (raisedSearch s v (s.level + 1) (level.val + 1)).rank j = some k := by
  obtain ⟨v, search, found, -⟩ := linked.insertSearch_from compDataFunc nData s.level
    { x := s.headerNode, update := fun _ => none, rank := fun _ => none, ro := 0 }
    (Nat.le_refl _) linked.old (fun h => linked.header s.level h linked.level.2)
    (fun h => absurd h (Nat.lt_irrefl _))
  refine ⟨v, search, ?_⟩
  intro j h1 h2
  by_cases raised : s.level + 1 ≤ j ∧ j < level.val + 1
  · have := level.le
    simp only [raisedSearch, if_pos raised, NamedAt]
    exact ⟨⟨s.headerNode, rfl, linked.header j h1 (by omega), linked.old⟩, 0, rfl⟩
  · simp only [raisedSearch, if_neg raised, NamedAt]
    exact found j h1 (by omega)

/-- `M.Insert` always returns, and the length grows by one. -/
theorem Linked.insert (linked : Linked s) (compDataFunc : α → α → Int) (nData : α)
    (level : Level) :
    ∃ s' r, insert compDataFunc s nData level = some (s', r) ∧ Linked s' ∧
      s'.length = s.length + 1 := by
  obtain ⟨v, search, found⟩ := linked.insertSearch compDataFunc nData level
  have raise := raiseTo_eq v level linked.header
  choose! named rank using found
  choose! u update has old using named
  choose! k rank using rank
  have ne : ∀ j, 1 ≤ j → j ≤ max s.level level.val → u j ≠ s.nextId :=
    fun j h1 h2 => Nat.ne_of_lt (old j h1 h2)
  have slotsExist : ∀ j, 1 ≤ j → j ≤ max s.level level.val →
      ∃ slot, raisedLv s (s.level + 1) (level.val + 1) (u j) j = some slot := by
    intro j h1 h2
    exact Option.isSome_iff_exists.mp
      ((isSome_of_map_forward (raisedLv_forward _ _ (u j) j)).trans (has j h1 h2))
  choose! slot slots using slotsExist
  refine ⟨_, _, insert_eq linked.level.1 linked.field search raise update rank ne slots, ?_, rfl⟩
  exact linked.extend
    (extended_spliced nData linked.field (raisedLv_forward _ _) level k ne slots _ _)

end Insertion

section Deletion
variable {s : SlData α} {x : NodeId}

/-- A link of a node leads where it led before, or where that of `x` led. -/
theorem unlinkedLv_link {u : Nat → NodeId} {slot xs : Nat → LvSlot} {n f : NodeId} {j : Nat}
    {entry : LvSlot} (slots : ∀ j, 1 ≤ j → j ≤ s.level → s.lv (u j) j = some (slot j))
    (targets : ∀ j, 1 ≤ j → j ≤ s.level → (slot j).forwardNode = some x →
      s.lv x j = some (xs j))
    (found : unlinkedLv s x u slot xs n j = some entry) (link : entry.forwardNode = some f) :
    ∃ before, s.lv n j = some before ∧ (before.forwardNode = some f ∨
      before.forwardNode = some x ∧ ∃ behind, s.lv x j = some behind ∧
        behind.forwardNode = some f) := by
  unfold unlinkedLv at found
  split at found
  · rename_i range
    obtain ⟨⟨h1, h2⟩, rfl⟩ := range
    refine ⟨slot j, slots j h1 h2, ?_⟩
    cases found
    unfold unlinkedSlot at link
    split at link
    · rename_i leads
      exact .inr ⟨leads, xs j, targets j h1 h2 leads, link⟩
    · exact .inl link
  · exact ⟨entry, found, .inl link⟩

/-- A link that skips `x` falls at least as far as the two it replaces. -/
theorem Linked.unlink (linked : Linked s) {u : Nat → NodeId} {slot xs : Nat → LvSlot}
    {first : LvSlot} {s' : SlData α}
    (has : ∀ j, 1 ≤ j → j ≤ s.level → s.has j (u j) = true)
    (slots : ∀ j, 1 ≤ j → j ≤ s.level → s.lv (u j) j = some (slot j))
    (targets : ∀ j, 1 ≤ j → j ≤ s.level → (slot j).forwardNode = some x →
      s.lv x j = some (xs j))
    (after : Unlinked s x u slot xs first s') : Linked s' := by
  have hasSame : ∀ n j, s'.has j n = s.has j n := by
    intro n j
    rw [SlData.has, after.lv]
    exact unlinkedLv_isSome has j n
  refine ⟨?_, ?_, ?_, ?_, ?_, ?_, ?_⟩
  · intro i h1 h2
    rw [after.header, hasSame]
    exact linked.header i h1 h2
  · rw [after.header, after.nextId]
    exact linked.old
  · exact ⟨after.low.1, Nat.le_trans after.low.2 linked.level.2⟩
  · intro n
    rw [after.field, linked.field]
  · intro n i h1 h
    rw [hasSame] at h ⊢
    exact linked.down n i h1 h
  · intro n i entry f found led
    rw [after.lv] at found
    have target : Target s i f := by
      obtain ⟨before, held, direct | ⟨-, behind, heldX, ledX⟩⟩ :=
        unlinkedLv_link slots targets found led
      · exact linked.target n i before f held direct
      · exact linked.target x i behind f heldX ledX
    refine ⟨after.nextId ▸ target.old, (hasSame f i).trans target.has, ?_⟩
    rw [after.data]
    exact target.data
  · obtain ⟨depth, bound, falls⟩ := linked.depth
    refine ⟨depth, after.nextId ▸ bound, ?_⟩
    intro n i entry f found led
    rw [after.lv] at found
    obtain ⟨before, held, direct | ⟨toX, behind, heldX, ledX⟩⟩ :=
      unlinkedLv_link slots targets found led
    · exact falls n i before f held direct
    · exact Nat.lt_trans (falls x i behind f heldX ledX) (falls n i before x held toX)

/-- `_SLDeleteNode` on a node that a search found. -/
theorem Linked.slDeleteNode (linked : Linked s) {update : Nat → Option NodeId}
    (named : ∀ j, 1 ≤ j → j ≤ s.level → NamedAt s update j) (has : s.has 1 x = true) :
    ∃ s', slDeleteNode s x update = some s' ∧ Linked s' ∧ s'.length = s.length - 1 ∧
      ∀ n, (s'.heap n).nData = (s.heap n).nData := by
  choose! u hu hasU old using named
  have slotsExist : ∀ j, 1 ≤ j → j ≤ s.level → ∃ slot, s.lv (u j) j = some slot :=
    fun j h1 h2 => Wf.lv_of_has (hasU j h1 h2)
  choose! slot slots using slotsExist
  have targetExist : ∀ j, 1 ≤ j → j ≤ s.level → ∃ xs, (slot j).forwardNode = some x →
      s.lv x j = some xs := by
    intro j h1 h2
    by_cases leads : (slot j).forwardNode = some x
    · obtain ⟨xs, entry⟩ := Wf.lv_of_has (linked.target _ _ _ _ (slots j h1 h2) leads).has
      exact ⟨xs, fun _ => entry⟩
    · exact ⟨default, fun h => absurd h leads⟩
  choose! xs targets using targetExist
  have entry : (unlinkedLv s x u slot xs x 1).isSome = true :=
    (unlinkedLv_isSome hasU 1 x).trans has
  obtain ⟨first, hfirst⟩ := Option.isSome_iff_exists.mp entry
  have header : ∀ j, 1 ≤ j → j ≤ s.level → s.has j s.headerNode = true :=
    fun j h1 h2 => linked.header j h1 (Nat.le_trans h2 linked.level.2)
  obtain ⟨s', run, after⟩ := slDeleteNode_run linked.level.1 header hasU
    (unlink_eq s x update u slot xs hu slots targets) hfirst
  exact ⟨s', run, linked.unlink hasU slots targets after, after.length, after.data⟩

/-- `M.Delete` always returns, and the length shrinks when it returns an element. -/
theorem Linked.delete (linked : Linked s) (compDataFunc : α → α → Int)
    (sameDataFunc : α → α → Bool) (nData : α) :
    ∃ s' r, delete compDataFunc sameDataFunc s nData = some (s', r) ∧ Linked s' ∧
      s'.length = if r.isSome then s.length - 1 else s.length := by
  obtain ⟨last, update, search, named, -, hone⟩ := linked.deleteSearch_from compDataFunc nData
    s.level s.headerNode (fun _ => none) (Nat.le_refl _) linked.old
    (fun h => linked.header s.level h linked.level.2)
  obtain ⟨u, hu, has, -⟩ := named 1 (Nat.le_refl 1) linked.level.1
  rw [hone linked.level.1, Option.some.injEq] at hu
  subst hu
  obtain ⟨first, entry⟩ := Wf.lv_of_has has
  cases link : first.forwardNode with
  | none =>
      refine ⟨s, none, ?_, linked, rfl⟩
      simp [Skiplist.delete, search, entry, link]
  | some x =>
      have target := linked.target last 1 first x entry link
      obtain ⟨d, data⟩ := target.data
      cases same : sameDataFunc d nData with
      | false =>
          refine ⟨s, none, ?_, linked, rfl⟩
          simp [Skiplist.delete, search, entry, link, data, same]
      | true =>
          obtain ⟨s', run, linked', length, keeps⟩ := linked.slDeleteNode named target.has
          refine ⟨s', some d, ?_, linked', length⟩
          simp only [Skiplist.delete, search, Option.bind_eq_bind, Option.bind_some, entry, link,
            data, same, if_true, run]
          rw [keeps, data]

end Deletion

section Counted
variable (compDataFunc : α → α → Int) (sameDataFunc : α → α → Bool)

/-- A step, with the number of inserts less that of the deletes that returned an element. -/
def countedStep (s : SlData α) (n : Int) : Op α → Option (SlData α × Int)
  | .insert nData level => (insert compDataFunc s nData level).map fun r => (r.1, n + 1)
  | .delete nData => (delete compDataFunc sameDataFunc s nData).map fun r =>
      (r.1, if r.2.isSome then n - 1 else n)

def countedRun (s : SlData α) (n : Int) : List (Op α) → Option (SlData α × Int)
  | [] => some (s, n)
  | op :: ops => do
      let (s', n') ← countedStep compDataFunc sameDataFunc s n op
      countedRun s' n' ops

/-- The counting changes nothing. -/
theorem countedRun_run (s : SlData α) (n : Int) (ops : List (Op α)) :
    (countedRun compDataFunc sameDataFunc s n ops).map Prod.fst =
      run compDataFunc sameDataFunc s ops := by
  induction ops generalizing s n with
  | nil => rfl
  | cons op ops ih =>
      have step : (countedStep compDataFunc sameDataFunc s n op).map Prod.fst =
          step compDataFunc sameDataFunc s op := by
        cases op with
        | insert nData level =>
            rw [countedStep, Skiplist.step, Option.map_map]
            rfl
        | delete nData =>
            rw [countedStep, Skiplist.step, Option.map_map]
            rfl
      rw [countedRun, run, ← step]
      cases countedStep compDataFunc sameDataFunc s n op with
      | none => rfl
      | some r => exact ih r.1 r.2

/-- Every level that an insertion into `s` raises gets the number of elements as its span. -/
def SpansElements (s : SlData α) (n : Int) (nData : α) (level : Level) : Prop :=
  ∃ v raised, insertSearch compDataFunc s nData s.level
      { x := s.headerNode, update := fun _ => none, rank := fun _ => none, ro := 0 } = some v ∧
    raiseTo s v level.val = some raised ∧
    ∀ i, s.level < i → i ≤ level.val →
      (raised.1.lv s.headerNode i).map LvSlot.span = some n

variable {compDataFunc sameDataFunc}

theorem Linked.countedRun {s : SlData α} (linked : Linked s) {n : Int} (length : s.length = n + 1)
    (ops : List (Op α)) :
    ∃ s' n', countedRun compDataFunc sameDataFunc s n ops = some (s', n') ∧ Linked s' ∧
      s'.length = n' + 1 := by
  induction ops generalizing s n with
  | nil => exact ⟨s, n, rfl, linked, length⟩
  | cons op ops ih =>
      have one : ∃ s' n', countedStep compDataFunc sameDataFunc s n op = some (s', n') ∧
          Linked s' ∧ s'.length = n' + 1 := by
        cases op with
        | insert nData level =>
            obtain ⟨s', r, run, linked', longer⟩ := linked.insert compDataFunc nData level
            refine ⟨s', n + 1, ?_, linked', ?_⟩
            · rw [countedStep, run]
              rfl
            · rw [longer, length]
        | delete nData =>
            obtain ⟨s', r, run, linked', shorter⟩ :=
              linked.delete compDataFunc sameDataFunc nData
            refine ⟨s', if r.isSome then n - 1 else n, ?_, linked', ?_⟩
            · rw [countedStep, run]
              rfl
            · rw [shorter, length]
              split
              · omega
              · rfl
      obtain ⟨s', n', step, linked', length'⟩ := one
      obtain ⟨s'', n'', run, rest⟩ := ih linked' length'
      refine ⟨s'', n'', ?_, rest⟩
      rw [Skiplist.countedRun, step]
      exact run

/-- The header is given the length as the span of every level that is raised. -/
theorem Linked.spansElements_length {s : SlData α} (linked : Linked s)
    (compDataFunc : α → α → Int) (nData : α) (level : Level) :
    SpansElements compDataFunc s s.length nData level := by
  obtain ⟨v, search, -⟩ := linked.insertSearch compDataFunc nData level
  refine ⟨v, _, search, raiseTo_eq v level linked.header, ?_⟩
  intro i h1 h2
  have := level.le
  obtain ⟨slot, entry⟩ := Wf.lv_of_has (linked.header i (by omega) (by omega))
  change (raisedLv s (s.level + 1) (level.val + 1) s.headerNode i).map LvSlot.span = _
  rw [raisedLv, if_pos ⟨rfl, by omega⟩, entry]
  rfl

/-- A level that is raised has one span. -/
theorem SpansElements.unique {s : SlData α} {m n : Int} {nData : α} {level : Level}
    (higher : s.level < level.val) (one : SpansElements compDataFunc s m nData level)
    (other : SpansElements compDataFunc s n nData level) : m = n := by
  obtain ⟨v, raised, search, raise, spans⟩ := one
  obtain ⟨v', raised', search', raise', spans'⟩ := other
  rw [search, Option.some.injEq] at search'
  subst search'
  rw [raise, Option.some.injEq] at raise'
  subst raise'
  have span := spans level.val higher (Nat.le_refl _)
  rw [spans' level.val higher (Nat.le_refl _), Option.some.injEq] at span
  exact span.symm

/-- Behind every run the length is one more than the number of elements, and so is the span
of every level that the next insertion raises. -/
theorem getLength_never_counts (compDataFunc : α → α → Int) (sameDataFunc : α → α → Bool)
    (ops : List (Op α)) :
    ∃ s n, countedRun compDataFunc sameDataFunc create 0 ops = some (s, n) ∧
      (getLength s ≠ n ∧ getLength s = n + 1) ∧
      ∀ (nData : α) (level : Level), SpansElements compDataFunc s (n + 1) nData level ∧
        (s.level < level.val → ¬ SpansElements compDataFunc s n nData level) := by
  obtain ⟨s, n, run, linked, length⟩ := linked_create.countedRun (n := 0) rfl ops
  refine ⟨s, n, run, ⟨?_, length⟩, ?_⟩
  · rw [getLength, length]
    omega
  · intro nData level
    have spans := linked.spansElements_length compDataFunc nData level
    rw [length] at spans
    refine ⟨spans, fun higher counted => ?_⟩
    have := spans.unique higher counted
    omega

/-- One element comes and goes, and the length stays 1: the next insertion on two levels
spans one element in an empty list. -/
theorem getLength_emptied :
    ∃ s, countedRun (fun a b : Int => a - b) (fun a b => decide (a = b)) create 0
        [.insert 1 .one, .delete 1] = some (s, 0) ∧ getLength s ≠ 0 ∧
      ¬ SpansElements (fun a b : Int => a - b) s 0 2 ⟨2, by decide, by decide⟩ := by
  refine ⟨_, rfl, by decide, ?_⟩
  rintro ⟨_, _, ⟨⟩, ⟨⟩, spans⟩
  have span := spans 2 (by decide) (by decide)
  cases span

end Counted

end Qiuqiu.Skiplist
