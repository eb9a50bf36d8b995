import Qiuqiu.Skiplist.Invariant

/-!
The descending search shared by insertion and deletion. For a target that cuts
the level 1 chain into `pre` (smaller) and `post`, the search leaves in
`update[i]` the last node of `header :: pre` with an entry at level `i` and in
`rank[i]` the number of level 1 steps to it, and it never runs out of bound.
-/
namespace Qiuqiu.Skiplist
open LevelChain
variable {α : Type} {compDataFunc : α → α → Int} {sameDataFunc : α → α → Bool}
  {endSpan : Prop} {s : SlData α} {ids pre post : List NodeId} {nData : α}

/-- The target falls behind `pre` and before `post`. -/
structure Cut (compDataFunc : α → α → Int) (s : SlData α) (nData : α)
    (pre post : List NodeId) : Prop where
  smaller : ∀ n ∈ pre, ∀ d, (s.heap n).nData = some d → compDataFunc d nData < 0
  rest : ∀ n ∈ post, ∀ d, (s.heap n).nData = some d → ¬ compDataFunc d nData < 0

/-- A sorted chain is cut by every target. -/
theorem Wf.exists_cut (wf : Wf compDataFunc endSpan s ids)
    (order : ThreeWay compDataFunc sameDataFunc) (nData : α) :
    ∃ pre post, ids = pre ++ post ∧ Cut compDataFunc s nData pre post := by
  have data := wf.data
  have sorted := wf.sorted
  clear wf
  induction ids with
  | nil => exact ⟨[], [], rfl, by simp, by simp⟩
  | cons n ids ih =>
      obtain ⟨d, hd⟩ := data n List.mem_cons_self
      rw [List.pairwise_cons] at sorted
      by_cases hlt : compDataFunc d nData < 0
      · obtain ⟨pre, post, rfl, cut⟩ :=
          ih (fun m hm => data m (List.mem_cons_of_mem n hm)) sorted.2
        refine ⟨n :: pre, post, rfl, ?_, cut.rest⟩
        intro m hm e he
        rcases List.mem_cons.mp hm with rfl | hm
        · rw [hd] at he
          cases he
          exact hlt
        · exact cut.smaller m hm e he
      · refine ⟨[], n :: ids, rfl, by simp, ?_⟩
        intro m hm e he
        rcases List.mem_cons.mp hm with rfl | hm
        · rw [hd] at he
          cases he
          exact hlt
        · have := order.not_lt_of_not_lt hlt (sorted.1 m hm d e hd he)
          omega

theorem beforeTest_eq {β : Type} (acc : β) (slot : LvSlot) {f : NodeId} {d : α}
    (hd : (s.heap f).nData = some d) :
    beforeTest compDataFunc s nData acc slot f = some (decide (compDataFunc d nData < 0)) := by
  simp [beforeTest, hd]

/-- A node of the smaller part has an entry at a level below one it has. -/
theorem Wf.has_below (wf : Wf compDataFunc endSpan s ids) {n : NodeId}
    (hn : n ∈ s.headerNode :: ids) {i : Nat} (hi : 1 ≤ i) (h : s.has (i + 1) n = true) :
    s.has i n = true := by
  rcases List.mem_cons.mp hn with rfl | hn
  · have := (wf.header (i + 1)).mp h
    exact (wf.header i).mpr ⟨hi, by omega⟩
  · exact wf.down n hn i hi h

theorem Wf.has_pos (wf : Wf compDataFunc endSpan s ids) {before after : List NodeId}
    {n : NodeId} (split : s.headerNode :: ids = before ++ n :: after) {i : Nat}
    (h : s.has i n = true) : 1 ≤ i := by
  have hn : n ∈ s.headerNode :: ids := by simp [split]
  cases List.mem_cons.mp hn with
  | inl e => exact ((wf.header i).mp (e ▸ h)).1
  | inr hn => exact (wf.top n hn i h).1

section Walk
variable {β : Type}

/-- A test that accepts the nodes of `pre` and rejects those behind it, at a walk that
has accumulated `accAt k` when it stands `k` steps behind the header. -/
structure Guides (s : SlData α) (pre post : List NodeId) (i : Nat)
    (test : β → LvSlot → NodeId → Option Bool) (add : Int → β → β) (accAt : Nat → β) : Prop where
  add : ∀ k d : Nat, add d (accAt k) = accAt (k + d)
  goes : ∀ before n skipped f rest slot,
    s.headerNode :: pre = before ++ n :: (skipped ++ f :: rest) →
    slot.span = ((skipped.length + 1 : Nat) : Int) → test (accAt before.length) slot f = some true
  stops : ∀ before n after skipped f rest slot, s.headerNode :: pre = before ++ n :: after →
    post = skipped ++ f :: rest →
    slot.span = ((after.length + (skipped.length + 1) : Nat) : Int) →
    test (accAt before.length) slot f = some false

/-- One level of a search ends at the last node of `header :: pre` with an entry
there, having added up exactly the steps taken. -/
theorem walkLevel_to (wf : Wf compDataFunc endSpan s (pre ++ post)) {i : Nat}
    {test : β → LvSlot → NodeId → Option Bool} {add : Int → β → β} {accAt : Nat → β}
    (guides : Guides s pre post i test add accAt) :
    ∀ (fuel : Nat) (before : List NodeId) (n : NodeId) (after : List NodeId),
      s.headerNode :: pre = before ++ n :: after → s.has i n = true → after.length < fuel →
      ∃ u k, LastWith (s.has i) (s.headerNode :: pre) k u ∧
        walkLevel s test add i fuel n (accAt before.length) = some (u, accAt k) := by
  intro fuel
  induction fuel with
  | zero => intro _ _ after _ _ short; omega
  | succ fuel ih =>
      intro before n after split hn short
      obtain ⟨slot, hslot⟩ := Wf.lv_of_has hn
      have ok := wf.chain before n (after ++ post)
        (by rw [← List.cons_append, split]; simp) i slot hslot
      cases hhop : hop (s.has i) after with
      | some r =>
          obtain ⟨f, d⟩ := r
          obtain ⟨skipped, rest, rfl, rfl, hf, -⟩ := hop_eq_some hhop
          have link := (slotOk_of_hop ((hop_append_of_some (by simp) hf post).trans hhop)).mp ok
          simp only [List.length_append, List.length_cons] at short
          obtain ⟨u, k, last, walk⟩ := ih (before ++ n :: skipped) f rest
            (by rw [split]; simp) hf (by omega)
          have go := guides.goes before n skipped f rest slot split link.2
          have reached : add slot.span (accAt before.length) =
              accAt (before ++ n :: skipped).length := by
            rw [link.2, guides.add, List.length_append, List.length_cons]
          refine ⟨u, k, last, ?_⟩
          rw [walkLevel]
          simp only [hslot, link.1, Option.bind_eq_bind, Option.bind_some, go, ite_true, reached]
          exact walk
      | none =>
          have none := (hop_eq_none after).mp hhop
          refine ⟨n, before.length, ⟨before, after, split, rfl, hn, none⟩, ?_⟩
          cases hpost : hop (s.has i) post with
          | none =>
              have unused : ∀ y ∈ after ++ post, s.has i y = false :=
                List.forall_mem_append.mpr ⟨none, (hop_eq_none post).mp hpost⟩
              have link := ((slotOk_of_none unused).mp ok).1
              simp [walkLevel, hslot, link]
          | some r =>
              obtain ⟨f, d⟩ := r
              have next : hop (s.has i) (after ++ post) = some (f, after.length + d) := by
                rw [hop_append_of_none none, hpost]
                rfl
              have link := (slotOk_of_hop next).mp ok
              obtain ⟨skipped, rest, hrest, rfl, -⟩ := hop_eq_some hpost
              have stop := guides.stops before n after skipped f rest slot split hrest link.2
              simp [walkLevel, hslot, link.1, stop]

/-- A test of the data alone, at the cut of the chain that it makes. -/
theorem walkLevel_search (wf : Wf compDataFunc endSpan s (pre ++ post))
    (cut : Cut compDataFunc s nData pre post) (i : Nat) (add : Int → β → β)
    (addZero : ∀ b, add 0 b = b)
    (addAdd : ∀ m k b, add k (add m b) = add (m + k) b)
    (fuel : Nat) (before : List NodeId) (n : NodeId) (after : List NodeId) (acc : β)
    (split : s.headerNode :: pre = before ++ n :: after) (hn : s.has i n = true)
    (short : after.length < fuel) :
    ∃ u k, LastWith (s.has i) (s.headerNode :: pre) k u ∧
      walkLevel s (beforeTest compDataFunc s nData) add i fuel n acc =
        some (u, add ((k : Int) - before.length) acc) := by
  have guides : Guides s pre post i (beforeTest compDataFunc s nData) add
      fun k => add ((k : Int) - before.length) acc := by
    refine ⟨?_, ?_, ?_⟩
    · intro k d
      rw [addAdd]
      congr 1
      push_cast
      omega
    · intro before' n' skipped f rest slot split' _
      have hf : f ∈ pre := mem_tail_of_split split' (by simp)
      obtain ⟨e, he⟩ := wf.data f (List.mem_append_left post hf)
      rw [beforeTest_eq _ slot he, decide_eq_true (cut.smaller f hf e he)]
    · intro before' n' after' skipped f rest slot _ hrest _
      have hf : f ∈ post := by simp [hrest]
      obtain ⟨e, he⟩ := wf.data f (List.mem_append_right pre hf)
      rw [beforeTest_eq _ slot he, decide_eq_false (cut.rest f hf e he)]
  have walk := walkLevel_to wf guides fuel before n after split hn short
  simpa only [Int.sub_self, addZero] using walk

theorem Wf.length_after_lt (wf : Wf compDataFunc endSpan s (pre ++ post))
    {before after : List NodeId} {n : NodeId}
    (split : s.headerNode :: pre = before ++ n :: after) : after.length < s.nextId := by
  have hlen := congrArg List.length split
  have := wf.length_lt
  simp only [List.length_append, List.length_cons] at hlen this
  omega

end Walk

/-- What the search has to leave behind for one level. -/
def FoundAt (s : SlData α) (pre : List NodeId) (v : InsertSearch) (j : Nat) : Prop :=
  ∃ (u : NodeId) (k : Nat), v.update j = some u ∧ v.rank j = some (k : Int) ∧
    LastWith (s.has j) (s.headerNode :: pre) k u

/-- The loop of `M.Insert` from level `i` down, entered at a node that stands
`before.length` steps behind the header. -/
theorem insertSearch_from (wf : Wf compDataFunc endSpan s (pre ++ post))
    (cut : Cut compDataFunc s nData pre post) :
    ∀ (i : Nat) (v : InsertSearch) (before after : List NodeId), i ≤ s.level →
      s.headerNode :: pre = before ++ v.x :: after → v.ro = before.length →
      (1 ≤ i → s.has i v.x = true) →
      (if i = s.level then some 0 else v.rank (i + 1)) = some (before.length : Int) →
      ∃ v', insertSearch compDataFunc s nData i v = some v' ∧
        (∀ j, 1 ≤ j → j ≤ i → FoundAt s pre v' j) ∧
        (∀ j, i < j → v'.update j = v.update j ∧ v'.rank j = v.rank j) ∧
        (1 ≤ i → v'.rank 1 = some v'.ro) := by
  intro i
  induction i with
  | zero =>
      intro v before after _ _ _ _ _
      exact ⟨v, rfl, fun j h1 h2 => by omega, fun j _ => ⟨rfl, rfl⟩, fun h => by omega⟩
  | succ i ih =>
      intro v before after hi split hro hhas hstart
      obtain ⟨u, k, hlast, hwalk⟩ := walkLevel_search wf cut (i + 1)
        (fun span (acc : Int × Int) => (acc.1 + span, acc.2 + span)) (by simp)
        (by intro m k b; simp; omega) s.nextId before v.x after
        ((before.length : Int), (before.length : Int)) split (hhas (by omega))
        (wf.length_after_lt split)
      have ⟨before', after', split', hlen', hu, _⟩ := hlast
      obtain ⟨v', hrun, hfound, hkeep, hone⟩ := ih
        { x := u
          update := Function.update v.update (i + 1) (some u)
          rank := Function.update v.rank (i + 1) (some (k : Int))
          ro := k } before' after' (by omega) split' (by simp [hlen'])
        (fun h1 => wf.has_below (by rw [← List.cons_append, split']; simp) h1 hu)
        (by rw [if_neg (by omega)]; simp [hlen'])
      have keepTop := hkeep (i + 1) (by omega)
      simp only [Function.update_self] at keepTop
      refine ⟨v', ?_, ?_, ?_, ?_⟩
      · rw [insertSearch]
        have advance : (before.length : Int) + ((k : Int) - before.length) = k := by omega
        simp only [hstart, hro, Option.bind_eq_bind, Option.bind_some, hwalk, advance]
        exact hrun
      · intro j h1 h2
        by_cases hj : j = i + 1
        · subst hj
          exact ⟨u, k, keepTop.1, keepTop.2, hlast⟩
        · exact hfound j h1 (by omega)
      · intro j hj
        have := hkeep j (by omega)
        simpa [Function.update_of_ne (show j ≠ i + 1 by omega)] using this
      · intro _
        cases i with
        | zero =>
            simp only [insertSearch, Option.some.injEq] at hrun
            subst hrun
            simp
        | succ i => exact hone (by omega)

/-- On level 1 the last smaller node is the last one of `header :: pre`. -/
theorem Wf.last_one (wf : Wf compDataFunc endSpan s (pre ++ post)) {u : NodeId} {k : Nat}
    (h : LastWith (s.has 1) (s.headerNode :: pre) k u) :
    ∃ before, s.headerNode :: pre = before ++ [u] ∧ before.length = k ∧ k = pre.length := by
  obtain ⟨before, after, split, hlen, -, none⟩ := h
  cases after with
  | nil =>
      refine ⟨before, split, hlen, ?_⟩
      have := congrArg List.length split
      simp only [List.length_append, List.length_cons, List.length_nil] at this
      omega
  | cons y after =>
      have hy : y ∈ pre := mem_tail_of_split split List.mem_cons_self
      have h1 := wf.base y (List.mem_append_left post hy)
      rw [none y List.mem_cons_self] at h1
      cases h1

/-- The search phase of `M.Insert`: on every level of the list the last
smaller node and its rank, and the rank of the target in `ro`. -/
theorem insertSearch_spec (wf : Wf compDataFunc endSpan s (pre ++ post))
    (cut : Cut compDataFunc s nData pre post) :
    ∃ v, insertSearch compDataFunc s nData s.level
        { x := s.headerNode, update := fun _ => none, rank := fun _ => none, ro := 0 } =
          some v ∧
      (∀ j, 1 ≤ j → j ≤ s.level → FoundAt s pre v j) ∧ v.ro = pre.length := by
  obtain ⟨v, hrun, hfound, -, hone⟩ := insertSearch_from wf cut s.level
    { x := s.headerNode, update := fun _ => none, rank := fun _ => none, ro := 0 }
    [] pre (Nat.le_refl _) rfl rfl
    (fun h => (wf.header s.level).mpr ⟨h, wf.level.2⟩) (by simp)
  refine ⟨v, hrun, hfound, ?_⟩
  obtain ⟨u, k, -, hrank, hlast⟩ := hfound 1 (Nat.le_refl 1) wf.level.1
  obtain ⟨-, -, -, hk⟩ := wf.last_one hlast
  have hro := hone wf.level.1
  rw [hrank, Option.some.injEq] at hro
  omega

/-- The search of `M.Delete` finds the same nodes and ends at the last one. -/
theorem deleteSearch_from (wf : Wf compDataFunc endSpan s (pre ++ post))
    (cut : Cut compDataFunc s nData pre post) :
    ∀ (i : Nat) (x : NodeId) (update : Nat → Option NodeId) (before after : List NodeId),
      i ≤ s.level → s.headerNode :: pre = before ++ x :: after →
      (1 ≤ i → s.has i x = true) →
      ∃ x' update', deleteSearch compDataFunc s nData i x update = some (x', update') ∧
        (∀ j, 1 ≤ j → j ≤ i → ∃ u k, update' j = some u ∧
          LastWith (s.has j) (s.headerNode :: pre) k u) ∧
        (∀ j, i < j → update' j = update j) ∧ (1 ≤ i → update' 1 = some x') := by
  intro i
  induction i with
  | zero =>
      intro x update before after _ _ _
      exact ⟨x, update, rfl, fun j h1 h2 => by omega, fun j _ => rfl, fun h => by omega⟩
  | succ i ih =>
      intro x update before after hi split hhas
      obtain ⟨u, k, hlast, hwalk⟩ := walkLevel_search wf cut (i + 1)
        (fun _ (acc : Unit) => acc) (fun _ => rfl) (fun _ _ _ => rfl) s.nextId before x after
        () split (hhas (by omega)) (wf.length_after_lt split)
      have ⟨before', after', split', hlen', hu, _⟩ := hlast
      obtain ⟨x', update', hrun, hfound, hkeep, hone⟩ := ih u
        (Function.update update (i + 1) (some u)) before' after' (by omega) split'
        (fun h1 => wf.has_below (by rw [← List.cons_append, split']; simp) h1 hu)
      have keepTop := hkeep (i + 1) (by omega)
      rw [Function.update_self] at keepTop
      refine ⟨x', update', ?_, ?_, ?_, ?_⟩
      · rw [deleteSearch]
        simp only [hwalk, Option.bind_eq_bind, Option.bind_some, hrun]
      · intro j h1 h2
        by_cases hj : j = i + 1
        · subst hj
          exact ⟨u, k, keepTop, hlast⟩
        · exact hfound j h1 (by omega)
      · intro j hj
        rw [hkeep j (by omega), Function.update_of_ne (by omega)]
      · intro _
        cases i with
        | zero =>
            simp only [deleteSearch, Option.some.injEq, Prod.mk.injEq] at hrun
            rw [← hrun.2, ← hrun.1, Function.update_self]
        | succ i => exact hone (by omega)

end Qiuqiu.Skiplist
