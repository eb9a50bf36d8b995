import Qiuqiu.Skiplist.Runs

/-!
The list of elements from a rank on (lualib/skiplist.lua, `M.GetElementList`), and
the length of the list beside its chain. `M.Create` starts the length at 1, so it
is one more than the number of elements, and a search for the rank that equals
the length finds nothing.
-/
namespace Qiuqiu.Skiplist
open LevelChain
variable {α : Type}

/-- The descending loop over the levels: the node at which `traversed == rank`. -/
def rankSearch (s : SlData α) (rank : Int) : Nat → NodeId → Int → Option (Option NodeId)
  | 0, _, _ => some none
  | i + 1, x, traversed => do
      let r ← walkLevel s (fun traversed slot _ => some (decide (traversed + slot.span ≤ rank)))
        (fun span traversed => traversed + span) (i + 1) s.nextId x traversed
      if r.2 = rank then some (some r.1) else rankSearch s rank i r.1 r.2

/-- `for i = 1, length`, from the node that was found. -/
def collectFrom (s : SlData α) : Nat → NodeId → Option (List α)
  | 0, _ => some []
  | todo + 1, n =>
      match (s.heap n).nData with
      | none => some []
      | some d => do
          let slot ← s.lv n 1
          match slot.forwardNode with
          | none => some [d]
          | some f => (collectFrom s todo f).map (d :: ·)

/-- `M.GetElementList` without `dealFunc`; nil when no node has this rank. -/
def getElementList (s : SlData α) (rank : Int) (length : Nat) : Option (Option (List α)) := do
  match ← rankSearch s rank s.level s.headerNode 0 with
  | none => some none
  | some n => (collectFrom s length n).map some

section Position
variable {compDataFunc : α → α → Int} {endSpan : Prop} {s : SlData α} {ids pre post : List NodeId}
  {rank : Int}

/-- The rank is that of the end of `pre`, or lies behind the whole list. -/
structure Ranked (rank : Int) (pre post : List NodeId) : Prop where
  near : pre.length ≤ rank
  far : post = [] ∨ rank = pre.length

theorem Ranked.guides (ranked : Ranked rank pre post) (i : Nat) :
    Guides s pre post i (fun traversed slot _ => some (decide (traversed + slot.span ≤ rank)))
      (fun span traversed => traversed + span) fun k => (k : Int) where
  add := by
    intro k d
    push_cast
    rfl
  goes := by
    intro before n skipped f rest slot split span
    have count := congrArg List.length split
    have near := ranked.near
    simp only [List.length_append, List.length_cons] at count
    simp only [Option.some.injEq, decide_eq_true_eq]
    omega
  stops := by
    intro before n after skipped f rest slot split hrest span
    have count := congrArg List.length split
    have far := ranked.far.resolve_left (by simp [hrest])
    simp only [List.length_append, List.length_cons] at count
    simp only [Option.some.injEq, decide_eq_false_iff_not]
    omega

/-- From level `i` down the search finds the last node of `header :: pre` when the
rank is its place. -/
theorem rankSearch_from (wf : Wf compDataFunc endSpan s (pre ++ post))
    (ranked : Ranked rank pre post) :
    ∀ (i : Nat) (before : List NodeId) (n : NodeId) (after : List NodeId),
      s.headerNode :: pre = before ++ n :: after → (1 ≤ i → s.has i n = true) →
      rankSearch s rank i n before.length =
        some (if 1 ≤ i ∧ rank = pre.length then (s.headerNode :: pre).getLast? else none) := by
  intro i
  induction i with
  | zero => intros; rfl
  | succ i ih =>
      intro before n after split hn
      obtain ⟨u, k, last, walk⟩ := walkLevel_to wf (ranked.guides (i + 1)) s.nextId before n after
        split (hn (by omega)) (wf.length_after_lt split)
      have ⟨before', after', split', hlen, hu, _⟩ := last
      have count := congrArg List.length split'
      have near := ranked.near
      simp only [List.length_cons, List.length_append] at count
      simp only [rankSearch, walk, Option.bind_eq_bind, Option.bind_some]
      by_cases here : (k : Int) = rank
      · have full : after'.length = 0 := by omega
        rw [List.length_eq_zero_iff] at full
        subst full
        rw [if_pos here, if_pos ⟨by omega, by omega⟩, split']
        simp
      · rw [if_neg here, ← hlen,
          ih before' u after' split' fun pos =>
            wf.has_below (by rw [← List.cons_append, split']; simp) pos hu]
        congr 1
        by_cases found : rank = pre.length
        · -- on level 1 the walk would have ended at this node
          have above : 1 ≤ i := by
            by_contra low
            obtain rfl : i = 0 := by omega
            obtain ⟨-, -, -, place⟩ := wf.last_one last
            omega
          rw [if_pos ⟨above, found⟩, if_pos ⟨by omega, found⟩]
        · rw [if_neg fun h => found h.2, if_neg fun h => found h.2]

theorem rankSearch_spec (wf : Wf compDataFunc endSpan s (pre ++ post))
    (ranked : Ranked rank pre post) :
    rankSearch s rank s.level s.headerNode 0 =
      some (if rank = pre.length then (s.headerNode :: pre).getLast? else none) := by
  have search := rankSearch_from wf ranked s.level [] s.headerNode pre rfl
    fun pos => (wf.header s.level).mpr ⟨pos, wf.level.2⟩
  simp only [wf.level.1, true_and] at search
  exact search

theorem rankSearch_beyond (wf : Wf compDataFunc endSpan s ids) (beyond : ids.length < rank) :
    rankSearch s rank s.level s.headerNode 0 = some none := by
  have wf' : Wf compDataFunc endSpan s (ids ++ []) := by rwa [List.append_nil]
  rw [rankSearch_spec wf' ⟨by omega, .inl rfl⟩, if_neg (by omega)]

/-- There is no element at a rank behind the whole list. -/
theorem getElementList_beyond (wf : Wf compDataFunc endSpan s ids) (beyond : ids.length < rank)
    (length : Nat) : getElementList s rank length = some none := by
  simp [getElementList, rankSearch_beyond wf beyond]

end Position

section Sized
variable {compDataFunc : α → α → Int} {sameDataFunc : α → α → Bool} {s : SlData α}
  {live : List α} {nData : α}

/-- The list holds the elements `live`, and its length is what `M.Create` made of
their number. -/
structure Sized (compDataFunc : α → α → Int) (s : SlData α) (live : List α) : Prop where
  holds : Holds compDataFunc s live
  length : s.length = live.length + 1

theorem sized_create : Sized compDataFunc (create : SlData α) [] :=
  ⟨holds_create, rfl⟩

theorem Sized.perm {live' : List α} (sized : Sized compDataFunc s live)
    (perm : live.Perm live') : Sized compDataFunc s live' := by
  obtain ⟨ids, elems, wf, data, same⟩ := sized.holds
  refine ⟨⟨ids, elems, wf, data, same.trans perm⟩, ?_⟩
  rw [sized.length, perm.length_eq]

/-- Nothing is found at the rank that equals the length. -/
theorem Sized.getElementList_length (sized : Sized compDataFunc s live) (length : Nat) :
    getElementList s s.length length = some none := by
  obtain ⟨ids, elems, wf, data, perm⟩ := sized.holds
  have count := congrArg List.length data
  simp only [List.length_map] at count
  refine getElementList_beyond wf ?_ length
  have := sized.length
  have := perm.length_eq
  omega

theorem Sized.insert (sized : Sized compDataFunc s live) (level : Level)
    (atEnd : ∀ e ∈ live, compDataFunc e nData < 0) :
    ∃ s' rank, insert compDataFunc s nData level = some (s', s.nextId, rank) ∧
      Sized compDataFunc s' (nData :: live) := by
  obtain ⟨s', rank, run, length, holds⟩ := insert_atEnd sized.holds level atEnd
  refine ⟨s', rank, run, holds, ?_⟩
  rw [length, sized.length, List.length_cons]
  omega

/-- Deleting an element that is present takes out this element. -/
theorem Sized.delete (sized : Sized compDataFunc s live)
    (order : ThreeWay compDataFunc fun a b => decide (compDataFunc a b = 0))
    (self : sameDataFunc nData nData = true) {rest : List α} (split : live.Perm (nData :: rest)) :
    ∃ s', delete compDataFunc sameDataFunc s nData = some (s', some nData) ∧
      Sized compDataFunc s' rest := by
  obtain ⟨ids, elems, wf, hmap, perm⟩ := sized.holds
  obtain ⟨pre, post, rfl, cut⟩ := wf.exists_cut order nData
  obtain ⟨hit, -⟩ := delete_spec sameDataFunc wf cut
  obtain ⟨epre, epost, rfl, hpre, hpost⟩ := List.map_eq_append_iff.mp
    (hmap.symm.trans (List.map_append ..))
  have notBefore : ¬ compDataFunc nData nData < 0 := by
    intro lt
    have := (order.sign nData nData).mp lt
    omega
  have mem : nData ∈ epre ++ epost :=
    perm.mem_iff.mpr (split.mem_iff.mpr List.mem_cons_self)
  have behind : nData ∈ epost := by
    refine (List.mem_append.mp mem).resolve_left fun before => notBefore ?_
    have stored : some nData ∈ pre.map fun n => (s.heap n).nData :=
      hpre ▸ List.mem_map_of_mem before
    obtain ⟨n, hn, hd⟩ := List.mem_map.mp stored
    exact cut.smaller n hn nData hd
  cases post with
  | nil =>
      obtain rfl : epost = [] := by simpa using hpost.symm
      cases behind
  | cons x ids =>
      cases epost with
      | nil => cases behind
      | cons d erest =>
          simp only [List.map_cons, List.cons.injEq] at hpost
          have hd : (s.heap x).nData = some d := hpost.1.symm
          have first : d = nData := by
            by_contra differ
            have later := (List.mem_cons.mp behind).resolve_left fun e => differ e.symm
            have stored : some nData ∈ ids.map fun n => (s.heap n).nData :=
              hpost.2 ▸ List.mem_map_of_mem later
            obtain ⟨n, hn, hn'⟩ := List.mem_map.mp stored
            have sorted := (List.pairwise_append.mp wf.sorted).2.1
            exact cut.rest x List.mem_cons_self d hd
              ((List.pairwise_cons.mp sorted).1 n hn d nData hd hn')
          subst first
          obtain ⟨s', run, del⟩ := hit x ids d rfl hd self
          have left : (epre ++ erest).Perm rest :=
            List.Perm.cons_inv (List.perm_middle.symm.trans (perm.trans split))
          refine ⟨s', run, ⟨pre ++ ids, epre ++ erest, del.wf wf, ?_, left⟩, ?_⟩
          · simp only [del.data, List.map_append, hpre, hpost.2]
          · rw [del.length, sized.length, split.length_eq, List.length_cons]
            omega

end Sized

end Qiuqiu.Skiplist
