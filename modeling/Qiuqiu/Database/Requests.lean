import Mathlib.Data.Finset.Basic
import Qiuqiu.Base.While

/-!
The table of requests in flight of service/databasecell/dbsave.lua. A request
takes an index from `_GetReqIndex`, enters it in `ReqTbl`, and clears it when
its body has returned or raised. The index wraps at `MaxIndex`, which doubles
when every index up to it is taken.
-/
namespace Qiuqiu.Database

structure Requests where
  reqTbl : Finset Nat
  reqIndex : Nat
  maxIndex : Nat

namespace Requests

def init : Requests where
  reqTbl := ∅
  reqIndex := 0
  maxIndex := 10000000

def isEmptyReqTbl (r : Requests) : Bool := r.reqTbl = ∅

/-- The loop of `_GetReqIndex` with `tests` rounds left before it gives up. -/
def searchIndex : Nat → Requests → Nat × Requests
  | 0, r => (r.maxIndex + 1,
      { r with reqIndex := r.maxIndex + 1, maxIndex := r.maxIndex * 2 })
  | tests + 1, r =>
      let nextIndex := r.reqIndex % r.maxIndex + 1
      if nextIndex ∉ r.reqTbl then (nextIndex, { r with reqIndex := nextIndex })
      else searchIndex tests { r with reqIndex := nextIndex }

def getReqIndex (r : Requests) : Nat × Requests := searchIndex r.maxIndex r

/-- `ReqTbl[nowIndex] = true` at the index taken just before. -/
def enter (r : Requests) : Nat × Requests :=
  let taken := r.getReqIndex
  (taken.1, { taken.2 with reqTbl := insert taken.1 taken.2.reqTbl })

/-- `ReqTbl[nowIndex] = nil`. -/
def leave (r : Requests) (nowIndex : Nat) : Requests :=
  { r with reqTbl := r.reqTbl.erase nowIndex }

/-- The keys of `ReqTbl` and the counter are indices up to `MaxIndex`. -/
structure InRange (r : Requests) : Prop where
  pos : 1 ≤ r.maxIndex
  counter : r.reqIndex ≤ r.maxIndex
  keys : ∀ k ∈ r.reqTbl, 1 ≤ k ∧ k ≤ r.maxIndex

theorem init_inRange : init.InRange where
  pos := by simp [init]
  counter := by simp [init]
  keys := by simp [init]

/-- What `_GetReqIndex` returns, and what it leaves alone. -/
structure Fresh (r : Requests) (taken : Nat × Requests) : Prop where
  table : taken.2.reqTbl = r.reqTbl
  grows : r.maxIndex ≤ taken.2.maxIndex
  unused : taken.1 ∉ r.reqTbl
  pos : 1 ≤ taken.1
  le : taken.1 ≤ taken.2.maxIndex
  counter : taken.2.reqIndex = taken.1

theorem searchIndex_fresh (tests : Nat) (r : Requests) (h : r.InRange) :
    Fresh r (searchIndex tests r) := by
  induction tests generalizing r with
  | zero =>
      have pos := h.pos
      refine ⟨rfl, ?_, ?_, ?_, ?_, rfl⟩
      · change r.maxIndex ≤ r.maxIndex * 2
        omega
      · intro taken
        have := (h.keys _ taken).2
        change r.maxIndex + 1 ≤ r.maxIndex at this
        omega
      · change 1 ≤ r.maxIndex + 1
        omega
      · change r.maxIndex + 1 ≤ r.maxIndex * 2
        omega
  | succ tests ih =>
      have below : r.reqIndex % r.maxIndex < r.maxIndex := Nat.mod_lt _ h.pos
      by_cases unused : r.reqIndex % r.maxIndex + 1 ∉ r.reqTbl
      · simp only [searchIndex, if_pos unused]
        exact ⟨rfl, Nat.le_refl _, unused, Nat.succ_le_succ (Nat.zero_le _), below, rfl⟩
      · simp only [searchIndex, if_neg unused]
        have next := ih { r with reqIndex := r.reqIndex % r.maxIndex + 1 }
          ⟨h.pos, below, h.keys⟩
        exact ⟨next.table, next.grows, next.unused, next.pos, next.le, next.counter⟩

theorem getReqIndex_fresh (r : Requests) (h : r.InRange) : Fresh r r.getReqIndex :=
  searchIndex_fresh r.maxIndex r h

theorem searchIndex_maxIndex (tests : Nat) (r : Requests) :
    (searchIndex tests r).2.maxIndex = r.maxIndex ∨
      (searchIndex tests r).2.maxIndex = r.maxIndex * 2 := by
  induction tests generalizing r with
  | zero => exact Or.inr rfl
  | succ tests ih =>
      by_cases unused : r.reqIndex % r.maxIndex + 1 ∉ r.reqTbl
      · rw [searchIndex, if_pos unused]
        exact Or.inl rfl
      · simp only [searchIndex, if_neg unused]
        exact ih { r with reqIndex := r.reqIndex % r.maxIndex + 1 }

section Loop
open While

/-- A round of the loop of `_GetReqIndex`, with `nowTest` before it. `ReqTbl` has far fewer
keys than there are integers, and with them the doubled `MaxIndex` is one. -/
def reqIndexRound (s : Nat × Requests) : Round (Nat × Requests) (Nat × Requests) :=
  let (nowTest, r) := s
  let nextIndex := r.reqIndex % r.maxIndex + 1
  let nowTest := nowTest + 1
  if nextIndex ∉ r.reqTbl then
    .leave (nextIndex, { r with reqIndex := nextIndex })
  else
    let r := { r with reqIndex := nextIndex }
    if nowTest ≥ r.maxIndex then
      .leave (r.maxIndex + 1,
        { r with reqIndex := r.maxIndex + 1, maxIndex := r.maxIndex * 2 })
    else
      .next (nowTest, r)

section Rounds
variable {nowTest : Nat} {r : Requests}

theorem reqIndexRound_free (unused : r.reqIndex % r.maxIndex + 1 ∉ r.reqTbl) :
    reqIndexRound (nowTest, r) = .leave (r.reqIndex % r.maxIndex + 1,
      { r with reqIndex := r.reqIndex % r.maxIndex + 1 }) :=
  if_pos unused

theorem reqIndexRound_full (used : ¬ r.reqIndex % r.maxIndex + 1 ∉ r.reqTbl)
    (last : nowTest + 1 ≥ r.maxIndex) :
    reqIndexRound (nowTest, r) = .leave (r.maxIndex + 1,
      { r with reqIndex := r.maxIndex + 1, maxIndex := r.maxIndex * 2 }) :=
  (if_neg used).trans (if_pos last)

theorem reqIndexRound_used (used : ¬ r.reqIndex % r.maxIndex + 1 ∉ r.reqTbl)
    (more : ¬ nowTest + 1 ≥ r.maxIndex) :
    reqIndexRound (nowTest, r) =
      .next (nowTest + 1, { r with reqIndex := r.reqIndex % r.maxIndex + 1 }) :=
  (if_neg used).trans (if_neg more)

end Rounds

/-- After `nowTest` rounds the loop has `tests + 1` rounds left. -/
theorem returns_searchIndex (tests nowTest : Nat) (r : Requests)
    (left : nowTest + (tests + 1) = r.maxIndex) :
    Returns reqIndexRound (nowTest, r) (searchIndex (tests + 1) r) := by
  by_cases unused : r.reqIndex % r.maxIndex + 1 ∉ r.reqTbl
  · rw [searchIndex, if_pos unused]
    exact (returns_leave (reqIndexRound_free unused)).mpr rfl
  · rw [searchIndex, if_neg unused]
    cases tests with
    | zero =>
        have last : nowTest + 1 ≥ r.maxIndex := Nat.le_of_eq left.symm
        exact (returns_leave (reqIndexRound_full unused last)).mpr rfl
    | succ tests =>
        have more : ¬ nowTest + 1 ≥ r.maxIndex := by omega
        rw [returns_next (reqIndexRound_used unused more)]
        apply returns_searchIndex tests (nowTest + 1)
        change nowTest + 1 + (tests + 1) = r.maxIndex
        omega

/-- The loop returns what the search with `MaxIndex` rounds finds. -/
theorem returns_getReqIndex {r : Requests} (pos : 1 ≤ r.maxIndex) :
    Returns reqIndexRound (0, r) r.getReqIndex := by
  obtain ⟨tests, count⟩ := Nat.exists_eq_add_of_le' pos
  have found := returns_searchIndex tests 0 r (by omega)
  rwa [← count] at found

/-- `_GetReqIndex` returns an index that is free, and leaves every index up to `MaxIndex`,
which may have doubled. -/
theorem getReqIndex_returns {r : Requests} (h : r.InRange) :
    ∃ index after, Returns reqIndexRound (0, r) (index, after) ∧
      index ∉ r.reqTbl ∧ after.reqTbl = r.reqTbl ∧
      (after.maxIndex = r.maxIndex ∨ after.maxIndex = r.maxIndex * 2) ∧
      ∀ k, k = index ∨ k = after.reqIndex ∨ k ∈ after.reqTbl → 1 ≤ k ∧ k ≤ after.maxIndex := by
  have fresh := getReqIndex_fresh r h
  refine ⟨r.getReqIndex.1, r.getReqIndex.2, returns_getReqIndex h.pos, fresh.unused, fresh.table,
    searchIndex_maxIndex r.maxIndex r, ?_⟩
  have index : 1 ≤ r.getReqIndex.1 ∧ r.getReqIndex.1 ≤ r.getReqIndex.2.maxIndex :=
    ⟨fresh.pos, fresh.le⟩
  intro k among
  cases among with
  | inl returned => rwa [returned]
  | inr among =>
      cases among with
      | inl counter => rwa [counter, fresh.counter]
      | inr key =>
          rw [fresh.table] at key
          have range := h.keys k key
          exact ⟨range.1, Nat.le_trans range.2 fresh.grows⟩

/-- Three indices that are all taken: the fourth is returned. -/
theorem getReqIndex_returns_full :
    (Requests.mk {1, 2, 3} 2 3).InRange ∧
      ∃ index after, Returns reqIndexRound (0, Requests.mk {1, 2, 3} 2 3) (index, after) ∧
        index ∉ ({1, 2, 3} : Finset Nat) ∧ after.reqTbl = {1, 2, 3} ∧
        (after.maxIndex = 3 ∨ after.maxIndex = 3 * 2) ∧
        ∀ k, k = index ∨ k = after.reqIndex ∨ k ∈ after.reqTbl → 1 ≤ k ∧ k ≤ after.maxIndex := by
  have range : (Requests.mk {1, 2, 3} 2 3).InRange := ⟨by decide, by decide, by decide⟩
  exact ⟨range, getReqIndex_returns range⟩

end Loop

theorem enter_inRange {r : Requests} (h : r.InRange) : r.enter.2.InRange := by
  have fresh := getReqIndex_fresh r h
  refine ⟨Nat.le_trans h.pos fresh.grows, ?_, ?_⟩
  · change r.getReqIndex.2.reqIndex ≤ r.getReqIndex.2.maxIndex
    rw [fresh.counter]
    exact fresh.le
  · intro k hk
    change k ∈ insert r.getReqIndex.1 r.getReqIndex.2.reqTbl at hk
    change 1 ≤ k ∧ k ≤ r.getReqIndex.2.maxIndex
    rw [Finset.mem_insert, fresh.table] at hk
    cases hk with
    | inl new =>
        rw [new]
        exact ⟨fresh.pos, fresh.le⟩
    | inr old =>
        have := h.keys k old
        exact ⟨this.1, Nat.le_trans this.2 fresh.grows⟩

theorem leave_inRange {r : Requests} (h : r.InRange) (nowIndex : Nat) :
    (r.leave nowIndex).InRange :=
  ⟨h.pos, h.counter, fun k hk => h.keys k (Finset.mem_of_mem_erase hk)⟩

end Requests

end Qiuqiu.Database
