import Qiuqiu.Skiplist.Ranks

/-!
The rank queries of lualib/skiplist.lua. Every one of them adds up spans along a
descent through the levels; on a laid out list the sums are places in the level 1
chain, so the answers are those of the list of elements.
-/
namespace Qiuqiu.Skiplist
open LevelChain
variable {α : Type}

section Operations
variable (compDataFunc : α → α → Int) (sameDataFunc : α → α → Bool)

/-- `slData.compDataFunc(forwardNode.nData, nData) <= 0`. -/
def atMostTest (s : SlData α) (nData : α) (_ : Int) (_ : LvSlot) (f : NodeId) : Option Bool := do
  let d ← (s.heap f).nData
  some (decide (compDataFunc d nData ≤ 0))

/-- `x.nData and slData.sameDataFunc(x.nData, nData)`. -/
def hits (s : SlData α) (nData : α) (x : NodeId) : Bool :=
  (s.heap x).nData.any (sameDataFunc · nData)

/-- The descending loop of `M.GetRank`. -/
def rankDescent (s : SlData α) (nData : α) : Nat → NodeId → Int → Option Int
  | 0, _, _ => some 0
  | i + 1, x, rank => do
      let r ← walkLevel s (atMostTest compDataFunc s nData) (fun span rank => rank + span)
        (i + 1) s.nextId x rank
      if hits sameDataFunc s nData r.1 then some r.2
      else rankDescent s nData i r.1 r.2

def getRank (s : SlData α) (nData : α) : Option Int :=
  rankDescent compDataFunc sameDataFunc s nData s.level s.headerNode 0

end Operations

def getNodeByRank (s : SlData α) (rank : Int) : Option (Option NodeId) :=
  rankSearch s rank s.level s.headerNode 0

def getElementByRank (s : SlData α) (rank : Int) : Option (Option α) := do
  match ← rankSearch s rank s.level s.headerNode 0 with
  | none => some none
  | some n => some (s.heap n).nData

section Polling
variable {V σ : Type} (key : α → V) (dealFunc : σ → Int → V → σ)

/-- `for i = 1, length` of `M.PollingValueList`, from the node that was found; `rank`
is `rank + i - 1`. -/
def pollFrom (s : SlData α) : Nat → Int → NodeId → σ → Option σ
  | 0, _, _, w => some w
  | todo + 1, rank, n, w =>
      match (s.heap n).nData with
      | none => some w
      | some d => do
          let w := dealFunc w rank (key d)
          let slot ← s.lv n 1
          match slot.forwardNode with
          | none => some w
          | some f => pollFrom s todo (rank + 1) f w

/-- `M.PollingValueList`; `key` reads `nData[key]`, and `dealFunc` acts on whatever its
caller keeps beside the list. -/
def pollingValueList (s : SlData α) (rank : Int) (length : Nat) (w : σ) : Option σ := do
  match ← rankSearch s rank s.level s.headerNode 0 with
  | none => some w
  | some n => pollFrom key dealFunc s length rank n w

end Polling

section Rank
variable {compDataFunc : α → α → Int} {sameDataFunc : α → α → Bool} {endSpan : Prop}
  {s : SlData α} {ids pre post : List NodeId} {nData : α}

/-- The elements up to the target, and those behind it. -/
structure UpTo (compDataFunc : α → α → Int) (s : SlData α) (nData : α)
    (pre post : List NodeId) : Prop where
  upTo : ∀ n ∈ pre, ∀ d, (s.heap n).nData = some d → compDataFunc d nData ≤ 0
  rest : ∀ n ∈ post, ∀ d, (s.heap n).nData = some d → ¬ compDataFunc d nData ≤ 0

theorem UpTo.guides (wf : Wf compDataFunc endSpan s (pre ++ post))
    (upTo : UpTo compDataFunc s nData pre post) (i : Nat) :
    Guides s pre post i (atMostTest compDataFunc s nData) (fun span rank => rank + span)
      fun k => (k : Int) where
  add := by
    intro k d
    push_cast
    rfl
  goes := by
    intro before n skipped f rest slot split _
    have hf : f ∈ pre := mem_tail_of_split split (by simp)
    obtain ⟨e, he⟩ := wf.data f (List.mem_append_left post hf)
    simp [atMostTest, he, upTo.upTo f hf e he]
  stops := by
    intro before n after skipped f rest slot _ hrest _
    have hf : f ∈ post := by simp [hrest]
    obtain ⟨e, he⟩ := wf.data f (List.mem_append_right pre hf)
    simp [atMostTest, he, upTo.rest f hf e he]

/-- The loop of `M.GetRank` from level `i` down, when only the last node up to the
target can hold an equal element. -/
theorem rankDescent_from (wf : Wf compDataFunc endSpan s (pre ++ post))
    (upTo : UpTo compDataFunc s nData pre post) {last : NodeId} {front : List NodeId}
    (ends : s.headerNode :: pre = front ++ [last])
    (only : ∀ n ∈ s.headerNode :: pre, hits sameDataFunc s nData n = true → n = last) :
    ∀ (i : Nat) (before : List NodeId) (n : NodeId) (after : List NodeId),
      s.headerNode :: pre = before ++ n :: after → (1 ≤ i → s.has i n = true) →
      rankDescent compDataFunc sameDataFunc s nData i n before.length =
        some (if 1 ≤ i ∧ hits sameDataFunc s nData last then (pre.length : Int) else 0) := by
  intro i
  induction i with
  | zero => intros; rfl
  | succ i ih =>
      intro before n after split hn
      obtain ⟨u, k, found, walk⟩ := walkLevel_to wf (upTo.guides wf (i + 1)) s.nextId before n after
        split (hn (by omega)) (wf.length_after_lt split)
      have ⟨before', after', split', hlen, hu, _⟩ := found
      simp only [rankDescent, walk, Option.bind_eq_bind, Option.bind_some]
      by_cases hit : hits sameDataFunc s nData u = true
      · obtain rfl := only u (by simp [split']) hit
        obtain ⟨rfl, rfl⟩ := split_unique (split'.symm.trans ends) (split' ▸ wf.nodup_left)
        have count := congrArg List.length ends
        simp only [List.length_cons, List.length_append, List.length_nil] at count
        rw [if_pos hit, if_pos ⟨by omega, hit⟩]
        congr 1
        omega
      · rw [if_neg hit, ← hlen,
          ih before' u after' split' fun pos =>
            wf.has_below (by rw [← List.cons_append, split']; simp) pos hu]
        congr 1
        by_cases here : hits sameDataFunc s nData last = true
        · -- on level 1 the walk would have ended at this node
          have above : 1 ≤ i := by
            by_contra low
            obtain rfl : i = 0 := by omega
            obtain ⟨front', ends', -, -⟩ := wf.last_one found
            have same := (List.append_inj' (ends'.symm.trans ends) rfl).2
            rw [List.singleton_inj.mp same] at hit
            exact hit here
          rw [if_pos ⟨above, here⟩, if_pos ⟨by omega, here⟩]
        · rw [if_neg fun h => here h.2, if_neg fun h => here h.2]

theorem hits_iff {n : NodeId} : hits sameDataFunc s nData n = true ↔
    ∃ d, (s.heap n).nData = some d ∧ sameDataFunc d nData = true :=
  Option.any_eq_true _ _

theorem getRank_spec (wf : Wf compDataFunc endSpan s (pre ++ post))
    (upTo : UpTo compDataFunc s nData pre post) {last : NodeId} {front : List NodeId}
    (ends : s.headerNode :: pre = front ++ [last])
    (only : ∀ n ∈ s.headerNode :: pre, hits sameDataFunc s nData n = true → n = last) :
    getRank compDataFunc sameDataFunc s nData =
      some (if hits sameDataFunc s nData last then (pre.length : Int) else 0) := by
  have descent := rankDescent_from wf upTo ends only s.level [] s.headerNode pre rfl
    fun pos => (wf.header s.level).mpr ⟨pos, wf.level.2⟩
  simp only [wf.level.1, true_and] at descent
  exact descent

end Rank

/-- A well-formed list of these elements; the header holds none. -/
structure Listed (compDataFunc : α → α → Int) (s : SlData α) (ids : List NodeId)
    (elems : List α) : Prop where
  wf : Wf compDataFunc True s ids
  header : (s.heap s.headerNode).nData = none
  data : ids.map (fun n => (s.heap n).nData) = elems.map some

section Listed
variable {compDataFunc : α → α → Int} {sameDataFunc : α → α → Bool} {s : SlData α}
  {ids before after : List NodeId} {elems ebefore eafter : List α} {n : NodeId} {e nData : α}

/-- The node of an element, at the same place. -/
theorem Listed.node (listed : Listed compDataFunc s ids elems)
    (split : elems = ebefore ++ e :: eafter) :
    ∃ before n after, ids = before ++ n :: after ∧ before.length = ebefore.length ∧
      (s.heap n).nData = some e ∧
      after.map (fun n => (s.heap n).nData) = eafter.map some := by
  have data := listed.data
  rw [split, List.map_append, List.map_cons, List.map_eq_append_iff] at data
  obtain ⟨before, rest, rfl, front, back⟩ := data
  obtain ⟨n, after, rfl, here, behind⟩ := List.map_eq_cons_iff.mp back
  have count := congrArg List.length front
  simp only [List.length_map] at count
  exact ⟨before, n, after, rfl, count, here, behind⟩

theorem Listed.mem_elems (listed : Listed compDataFunc s ids elems) (hn : n ∈ ids)
    (he : (s.heap n).nData = some e) : e ∈ elems :=
  data_mem listed.data n hn e he

theorem Listed.getRank_present (listed : Listed compDataFunc s ids elems)
    (order : ThreeWay compDataFunc sameDataFunc) (split : ids = before ++ n :: after)
    (he : (s.heap n).nData = some e) (same : sameDataFunc e nData = true) :
    getRank compDataFunc sameDataFunc s nData = some (before.length + 1 : Int) := by
  have cut := listed.wf.cut_at_same order split he same
  have wf : Wf compDataFunc True s ((before ++ [n]) ++ after) := by
    rw [List.append_assoc, List.singleton_append, ← split]
    exact listed.wf
  have upTo : UpTo compDataFunc s nData (before ++ [n]) after := by
    refine ⟨List.forall_mem_append.mpr ⟨?_, List.forall_mem_singleton.mpr ?_⟩, ?_⟩
    · intro m hm d hd
      exact Int.le_of_lt (cut.smaller m hm d hd)
    · intro d hd
      rw [he, Option.some.injEq] at hd
      rw [← hd]
      exact Int.le_of_eq ((order.same e nData).mp same)
    · intro m hm d hd
      exact Int.not_le.mpr (listed.wf.greater_behind order split he same m hm d hd)
  have only : ∀ m ∈ s.headerNode :: (before ++ [n]), hits sameDataFunc s nData m = true →
      m = n := by
    refine List.forall_mem_cons.mpr ⟨?_, List.forall_mem_append.mpr ⟨?_, by simp⟩⟩
    · simp [hits, listed.header]
    · intro m hm hit
      obtain ⟨d, hd, equal⟩ := hits_iff.mp hit
      have := cut.smaller m hm d hd
      have := (order.same d nData).mp equal
      omega
  rw [getRank_spec wf upTo List.cons_append.symm only, if_pos (hits_iff.mpr ⟨e, he, same⟩),
    List.length_append, List.length_singleton]
  rfl

theorem Listed.getRank_absent (listed : Listed compDataFunc s ids elems)
    (order : ThreeWay compDataFunc sameDataFunc)
    (absent : ∀ e ∈ elems, sameDataFunc e nData = false) :
    getRank compDataFunc sameDataFunc s nData = some 0 := by
  have wf := listed.wf
  obtain ⟨pre, post, rfl, cut⟩ := wf.exists_cut order nData
  have upTo : UpTo compDataFunc s nData pre post := by
    refine ⟨fun m hm d hd => Int.le_of_lt (cut.smaller m hm d hd), ?_⟩
    intro m hm d hd atMost
    have notLess := cut.rest m hm d hd
    have other := absent d (listed.mem_elems (List.mem_append_right pre hm) hd)
    rw [(order.same d nData).mpr (by omega)] at other
    cases other
  have noHit : ∀ m ∈ s.headerNode :: pre, hits sameDataFunc s nData m = false := by
    intro m hm
    by_contra hit
    obtain ⟨d, hd, equal⟩ := hits_iff.mp (by simpa using hit)
    cases List.mem_cons.mp hm with
    | inl here =>
        rw [here, listed.header] at hd
        cases hd
    | inr hm =>
        rw [absent d (listed.mem_elems (List.mem_append_left post hm) hd)] at equal
        cases equal
  have ends := List.dropLast_append_getLast (List.cons_ne_nil s.headerNode pre)
  have only : ∀ m ∈ s.headerNode :: pre, hits sameDataFunc s nData m = true →
      m = (s.headerNode :: pre).getLast (List.cons_ne_nil s.headerNode pre) := by
    intro m hm hit
    rw [noHit m hm] at hit
    cases hit
  rw [getRank_spec wf upTo ends.symm only, noHit _ (List.getLast_mem _)]
  rfl

/-- The next node of the level 1 chain. -/
theorem Wf.next_one {compDataFunc : α → α → Int} {endSpan : Prop}
    (wf : Wf compDataFunc endSpan s ids) (split : s.headerNode :: ids = before ++ n :: after) :
    ∃ slot, s.lv n 1 = some slot ∧ slot.forwardNode = after.head? := by
  obtain ⟨slot, hslot⟩ := Wf.lv_of_has (wf.has_one (n := n) (by simp [split]))
  refine ⟨slot, hslot, ?_⟩
  have ok := wf.chain before n after split 1 slot hslot
  cases after with
  | nil => exact ok.1
  | cons y after =>
      have hy := wf.base y (mem_tail_of_split split List.mem_cons_self)
      have first : hop (s.has 1) (y :: after) = some (y, 1) := by simp [hop, hy]
      exact ((slotOk_of_hop first).mp ok).1

theorem collectFrom_spec (wf : Wf compDataFunc True s ids) :
    ∀ (todo : Nat) (before : List NodeId) (n : NodeId) (after : List NodeId) (e : α)
      (es : List α), s.headerNode :: ids = before ++ n :: after → (s.heap n).nData = some e →
      after.map (fun n => (s.heap n).nData) = es.map some →
      collectFrom s todo n = some ((e :: es).take todo) := by
  intro todo
  induction todo with
  | zero => intros; rfl
  | succ todo ih =>
      intro before n after e es split he data
      obtain ⟨slot, hslot, next⟩ := wf.next_one split
      simp only [collectFrom, he, hslot, next, Option.bind_eq_bind, Option.bind_some]
      cases after with
      | nil =>
          obtain rfl : es = [] := by simpa using data.symm
          simp
      | cons m after =>
          cases es with
          | nil => simp at data
          | cons d es =>
              simp only [List.map_cons, List.cons.injEq] at data
              have rest := ih (before ++ [n]) m after d es (by simp [split]) data.1 data.2
              simp [rest]

/-- The polling loop hands out what the collecting loop would return. -/
theorem pollFrom_eq {V σ : Type} (key : α → V) (dealFunc : σ → Int → V → σ) (s : SlData α)
    (todo k : Nat) (n : NodeId) (w : σ) :
    pollFrom key dealFunc s todo k n w = (collectFrom s todo n).map fun es =>
      (es.zipIdx k).foldl (fun w x => dealFunc w x.2 (key x.1)) w := by
  induction todo generalizing k n w with
  | zero => rfl
  | succ todo ih =>
      rw [pollFrom, collectFrom]
      cases (s.heap n).nData with
      | none => rfl
      | some d =>
          cases s.lv n 1 with
          | none => rfl
          | some slot =>
              cases next : slot.forwardNode with
              | none => simp [next]
              | some f =>
                  have rest := ih (k + 1) f (dealFunc w k (key d))
                  simp only [next, Option.bind_eq_bind, Option.bind_some, Option.map_map]
                  exact rest

theorem rankSearch_found (wf : Wf compDataFunc True s ids) (split : ids = before ++ n :: after) :
    rankSearch s (before.length + 1 : Nat) s.level s.headerNode 0 = some (some n) := by
  have wf' : Wf compDataFunc True s ((before ++ [n]) ++ after) := by
    rw [List.append_assoc, List.singleton_append, ← split]
    exact wf
  have length : ((before.length + 1 : Nat) : Int) = (before ++ [n]).length := by simp
  rw [rankSearch_spec wf' ⟨by omega, .inr length⟩, if_pos length, ← List.cons_append,
    List.getLast?_append]
  rfl

/-- The elements smaller than the target are those before the cut. -/
theorem Listed.count_smaller {pre post : List NodeId}
    (listed : Listed compDataFunc s (pre ++ post) elems)
    (cut : Cut compDataFunc s nData pre post) :
    (elems.filter fun e => compDataFunc e nData < 0).length = pre.length := by
  obtain ⟨epre, epost, rfl, front, back⟩ := List.map_eq_append_iff.mp
    (listed.data.symm.trans (List.map_append ..))
  have smaller : ∀ e ∈ epre, decide (compDataFunc e nData < 0) = true := by
    intro e he
    have stored : some e ∈ pre.map fun n => (s.heap n).nData := front ▸ List.mem_map_of_mem he
    obtain ⟨n, hn, hd⟩ := List.mem_map.mp stored
    exact decide_eq_true (cut.smaller n hn e hd)
  have rest : ∀ e ∈ epost, ¬ decide (compDataFunc e nData < 0) = true := by
    intro e he
    have stored : some e ∈ post.map fun n => (s.heap n).nData := back ▸ List.mem_map_of_mem he
    obtain ⟨n, hn, hd⟩ := List.mem_map.mp stored
    simpa using cut.rest n hn e hd
  have count := congrArg List.length front
  simp only [List.length_map] at count
  rw [List.filter_append, List.filter_eq_self.mpr smaller, List.filter_eq_nil_iff.mpr rest,
    List.append_nil, count]

/-- What the queries answer about one element and those behind it. -/
structure AnswersAt (compDataFunc : α → α → Int) (sameDataFunc : α → α → Bool) (s : SlData α)
    (rank : Nat) (e : α) (after : List α) : Prop where
  self : sameDataFunc e e = true
  getRank : ∀ nData, sameDataFunc e nData = true →
    getRank compDataFunc sameDataFunc s nData = some (rank : Int)
  getElementByRank : getElementByRank s rank = some (some e)
  getNodeByRank : ∃ n, getNodeByRank s rank = some (some n) ∧ (s.heap n).nData = some e
  getElementList : ∀ length, getElementList s rank length = some (some ((e :: after).take length))
  pollingValueList : ∀ (V σ : Type) (key : α → V) (dealFunc : σ → Int → V → σ) length w,
    pollingValueList key dealFunc s rank length w = some
      ((((e :: after).take length).zipIdx rank).foldl (fun w x => dealFunc w x.2 (key x.1)) w)

/-- What the queries answer about a rank behind the whole list. -/
structure AnswersBeyond (s : SlData α) (rank : Int) : Prop where
  getElementByRank : getElementByRank s rank = some none
  getNodeByRank : getNodeByRank s rank = some none
  getElementList : ∀ length, getElementList s rank length = some none
  pollingValueList : ∀ (V σ : Type) (key : α → V) (dealFunc : σ → Int → V → σ) length w,
    pollingValueList key dealFunc s rank length w = some w

theorem Listed.answersAt (listed : Listed compDataFunc s ids elems)
    (order : ThreeWay compDataFunc sameDataFunc) (split : elems = ebefore ++ e :: eafter) :
    AnswersAt compDataFunc sameDataFunc s (ebefore.length + 1) e eafter := by
  obtain ⟨before, n, after, place, count, he, data⟩ := listed.node split
  have found := rankSearch_found listed.wf place
  have chain : s.headerNode :: ids = (s.headerNode :: before) ++ n :: after := by rw [place]; rfl
  rw [← count]
  refine {
    self := order.same_self e
    getRank := fun nData same => ?_
    getElementByRank := ?_
    getNodeByRank := ⟨n, found, he⟩
    getElementList := fun length => ?_
    pollingValueList := fun V σ key dealFunc length w => ?_ }
  · rw [listed.getRank_present order place he same]
    rfl
  · simp only [Skiplist.getElementByRank, found, Option.bind_eq_bind, Option.bind_some, he]
  · simp only [Skiplist.getElementList, found, Option.bind_eq_bind, Option.bind_some,
      collectFrom_spec listed.wf length _ n after e eafter chain he data, Option.map_some]
  · simp only [Skiplist.pollingValueList, found, Option.bind_eq_bind, Option.bind_some]
    rw [pollFrom_eq, collectFrom_spec listed.wf length _ n after e eafter chain he data]
    rfl

theorem Listed.answersBeyond (listed : Listed compDataFunc s ids elems) {rank : Int}
    (beyond : elems.length < rank) : AnswersBeyond s rank := by
  have count := congrArg List.length listed.data
  simp only [List.length_map] at count
  have nothing : rankSearch s rank s.level s.headerNode 0 = some none :=
    rankSearch_beyond listed.wf (by omega)
  refine {
    getElementByRank := ?_
    getNodeByRank := nothing
    getElementList := fun length => ?_
    pollingValueList := fun V σ key dealFunc length w => ?_ }
  · simp [Skiplist.getElementByRank, nothing]
  · simp [Skiplist.getElementList, nothing]
  · simp [Skiplist.pollingValueList, nothing]

/-- The rank queries on a well-formed list answer as the sorted list of its elements
does, and `M.Insert` returns one more than the number of smaller elements. -/
theorem queries_correct (order : ThreeWay compDataFunc sameDataFunc)
    (listed : Listed compDataFunc s ids elems) :
    (∀ before e after, elems = before ++ e :: after →
      AnswersAt compDataFunc sameDataFunc s (before.length + 1) e after) ∧
    (∀ rank : Int, elems.length < rank → AnswersBeyond s rank) ∧
    (∀ nData, (∀ e ∈ elems, sameDataFunc e nData = false) →
      getRank compDataFunc sameDataFunc s nData = some 0) ∧
    ∀ nData level, ∃ s', insert compDataFunc s nData level = some (s', s.nextId,
      1 + ((elems.filter fun e => compDataFunc e nData < 0).length : Int)) := by
  refine ⟨fun before e after split => listed.answersAt order split,
    fun rank beyond => listed.answersBeyond beyond,
    fun nData absent => listed.getRank_absent order absent, fun nData level => ?_⟩
  obtain ⟨pre, post, rfl, cut⟩ := listed.wf.exists_cut order nData
  obtain ⟨s', run, -⟩ := insert_spec listed.wf cut level
  refine ⟨s', ?_⟩
  rw [run, listed.count_smaller cut, Int.add_comm]

/-- The queries about an element in the middle of four, and about missing ones. -/
theorem queries_correct_inner :
    getRank (fun a b : Int => a - b) (fun a b => decide (a = b)) (layOut fourElements) 5 = some 3 ∧
      getRank (fun a b : Int => a - b) (fun a b => decide (a = b)) (layOut fourElements) 6 =
        some 0 ∧
      getElementByRank (layOut fourElements) 5 = some none ∧
      getElementList (layOut fourElements) 2 2 = some (some [3, 5]) ∧
      pollingValueList id (fun w rank v => w ++ [(rank, v)]) (layOut fourElements) 2 10 [] =
        some [(2, 3), (3, 5), (4, 7)] ∧
      ∃ s', insert (fun a b : Int => a - b) (layOut fourElements) 6 ⟨2, by decide, by decide⟩ =
        some (s', 5, 4) := by
  have listed : Listed (fun a b : Int => a - b) (layOut fourElements) [1, 2, 3, 4] [1, 3, 5, 7] :=
    ⟨wf_fourElements, rfl, layOut_data⟩
  obtain ⟨present, beyond, absent, inserted⟩ := queries_correct threeWay_int listed
  have second := present [1] 3 [5, 7] rfl
  obtain ⟨s', run⟩ := inserted 6 ⟨2, by decide, by decide⟩
  exact ⟨(present [1, 3] 5 [7] rfl).getRank 5 rfl, absent 6 (by decide),
    (beyond 5 (by decide)).getElementByRank, second.getElementList 2,
    second.pollingValueList Int _ id _ 10 [], s', run⟩

end Listed

end Qiuqiu.Skiplist
