import Mathlib.Algebra.Group.Nat.Defs
import Mathlib.Data.List.Basic
import Mathlib.Logic.Function.Basic
import Mathlib.Tactic.IntervalCases
import Mathlib.Tactic.SplitIfs
import Qiuqiu.Base.Buckets
import Qiuqiu.Base.While

/-!
The wheel of skynet's timer (skynet-src/skynet_timer.c). A node stands in the array of the
next 256 ticks, or in one of four levels of 64 lists, by the highest bits in which its
`expire` differs from the time. Each tick whose low bits are all 0 deals one list of a level
out anew.
-/
namespace Qiuqiu.Server.TimerWheel

structure TimerEvent where
  handle : UInt32
  session : Int32
  deriving DecidableEq

structure Node where
  expire : UInt32
  event : TimerEvent
  deriving DecidableEq

/-- The lists `near[i]` and `t[i][idx]`. -/
inductive Slot where
  | near (idx : Nat)
  | level (i idx : Nat)
  deriving DecidableEq

structure Timer where
  lists : Slot → List Node
  time : UInt32

/-- The loop of `add_node`, with the rounds that are left. -/
def findLevel (time current : UInt32) : Nat → Nat → UInt32 → Nat
  | 0, i, _ => i
  | rounds + 1, i, mask =>
      if time ||| (mask - 1) = current ||| (mask - 1) then i
      else findLevel time current rounds (i + 1) (mask <<< 6)

def slot (current time : UInt32) : Slot :=
  if time ||| 255 = current ||| 255 then .near (time &&& 255).toNat
  else
    let i := findLevel time current 3 0 ((256 : UInt32) <<< 6)
    .level i ((time >>> UInt32.ofNat (8 + i * 6)) &&& 63).toNat

def addNode (t : Timer) (node : Node) : Timer :=
  { t with lists := Buckets.put (fun n => slot t.time n.expire) t.lists node }

/-- `timer_add`; C converts the delay to the type of the time. -/
def timerAdd (t : Timer) (event : TimerEvent) (time : Int32) : Timer :=
  addNode t ⟨time.toUInt32 + t.time, event⟩

def linkClear (t : Timer) (k : Slot) : Timer :=
  { t with lists := Function.update t.lists k [] }

def moveList (t : Timer) (k : Slot) : Timer := (t.lists k).foldl addNode (linkClear t k)

structure Carry where
  mask : UInt32
  time : UInt32
  i : Nat

/-- A round of the loop of `timer_shift`, which ends with a list to move or without. -/
def carryRound (ct : UInt32) (c : Carry) : While.Round Carry (Option Slot) :=
  if ct &&& (c.mask - 1) = 0 then
    let idx := c.time &&& 63
    if idx ≠ 0 then .leave (some (.level c.i idx.toNat))
    else .next ⟨c.mask <<< 6, c.time >>> 6, c.i + 1⟩
  else .leave none

/-- The list that a tick to `ct` moves. Four rounds are enough (`carry_returns`). -/
def carry (ct : UInt32) : Option Slot :=
  if ct = 0 then some (.level 3 0)
  else (While.run (carryRound ct) 4 ⟨256, ct >>> 8, 0⟩).join

def timerShift (t : Timer) : Timer :=
  let t := { t with time := t.time + 1 }
  match carry t.time with
  | some k => moveList t k
  | none => t

/-- `near[idx]` of the time. -/
def nearIdx (t : Timer) : Slot := .near (t.time &&& 255).toNat

/-- The list for a due time, counted without wrapping. -/
def place (tick due : Nat) : Slot :=
  if due / 256 = tick / 256 then .near (due % 256)
  else if due / 16384 = tick / 16384 then .level 0 (due / 256 % 64)
  else if due / 1048576 = tick / 1048576 then .level 1 (due / 16384 % 64)
  else if due / 67108864 = tick / 67108864 then .level 2 (due / 1048576 % 64)
  else .level 3 (due / 67108864 % 64)

/-- The list that the step to a tick deals out anew, counted without wrapping. -/
def moved (tick : Nat) : Option Slot :=
  if tick % 256 ≠ 0 then none
  else if tick / 256 % 64 ≠ 0 then some (.level 0 (tick / 256 % 64))
  else if tick / 16384 % 64 ≠ 0 then some (.level 1 (tick / 16384 % 64))
  else if tick / 1048576 % 64 ≠ 0 then some (.level 2 (tick / 1048576 % 64))
  else some (.level 3 (tick / 67108864 % 64))

section Words
variable {a b : UInt32} {k : Nat}

theorem or_low_iff (m n : Nat) :
    m ||| (2 ^ k - 1) = n ||| (2 ^ k - 1) ↔ m / 2 ^ k = n / 2 ^ k := by
  constructor
  · intro same
    apply Nat.eq_of_testBit_eq
    intro i
    have bit := congrArg (fun x => x.testBit (i + k)) same
    simpa [Nat.testBit_div_two_pow, Nat.not_lt.mpr (Nat.le_add_left k i)] using bit
  · intro same
    apply Nat.eq_of_testBit_eq
    intro i
    rw [Nat.testBit_or, Nat.testBit_or, Nat.testBit_two_pow_sub_one]
    by_cases low : i < k
    · simp [low]
    · have bit := congrArg (fun x => x.testBit (i - k)) same
      simp only [Nat.testBit_div_two_pow, Nat.sub_add_cancel (Nat.not_lt.mp low)] at bit
      rw [bit]

theorem or_mask_iff {mask : UInt32} (low : mask.toNat = 2 ^ k - 1) :
    a ||| mask = b ||| mask ↔ a.toNat / 2 ^ k = b.toNat / 2 ^ k := by
  rw [← or_low_iff, ← low, ← UInt32.toNat_or, ← UInt32.toNat_or, UInt32.toNat_inj]

theorem toNat_and_mask {mask : UInt32} (low : mask.toNat = 2 ^ k - 1) :
    (a &&& mask).toNat = a.toNat % 2 ^ k := by
  rw [UInt32.toNat_and, low, Nat.and_two_pow_sub_one_eq_mod]

theorem toNat_shiftRight (h : k < 32) : (a >>> UInt32.ofNat k).toNat = a.toNat / 2 ^ k := by
  rw [UInt32.toNat_shiftRight, UInt32.toNat_ofNat', Nat.shiftRight_eq_div_pow]
  congr 2
  omega

end Words

/-- The loop finds the lowest level that tells the two times apart. -/
theorem findLevel_eq (time current : UInt32) :
    findLevel time current 3 0 ((256 : UInt32) <<< 6) =
      if time.toNat / 16384 = current.toNat / 16384 then 0
      else if time.toNat / 1048576 = current.toNat / 1048576 then 1
      else if time.toNat / 67108864 = current.toNat / 67108864 then 2
      else 3 := by
  have first : time ||| 16383 = current ||| 16383 ↔ _ := or_mask_iff (k := 14) rfl
  have second : time ||| 1048575 = current ||| 1048575 ↔ _ := or_mask_iff (k := 20) rfl
  have third : time ||| 67108863 = current ||| 67108863 ↔ _ := or_mask_iff (k := 26) rfl
  have masks : ((256 : UInt32) <<< 6) - 1 = 16383 ∧ ((256 : UInt32) <<< 6 <<< 6) - 1 = 1048575 ∧
      ((256 : UInt32) <<< 6 <<< 6 <<< 6) - 1 = 67108863 := by decide
  simp only [findLevel, masks.1, masks.2.1, masks.2.2, first, second, third]
  rfl

/-- Within half of the range the wrapped times fall into the same lists as the counted
ones. -/
theorem slot_eq_place {tick due : Nat} (later : tick ≤ due) (near : due < tick + 2 ^ 31) :
    slot (UInt32.ofNat tick) (UInt32.ofNat due) = place tick due := by
  have due_nat : (UInt32.ofNat due).toNat = due % 2 ^ 32 := UInt32.toNat_ofNat'
  have tick_nat : (UInt32.ofNat tick).toNat = tick % 2 ^ 32 := UInt32.toNat_ofNat'
  have same0 : UInt32.ofNat due ||| 255 = UInt32.ofNat tick ||| 255 ↔ due / 256 = tick / 256 := by
    rw [or_mask_iff (k := 8) rfl, due_nat, tick_nat]
    omega
  have same1 : due % 2 ^ 32 / 16384 = tick % 2 ^ 32 / 16384 ↔ due / 16384 = tick / 16384 := by
    omega
  have same2 : due % 2 ^ 32 / 1048576 = tick % 2 ^ 32 / 1048576 ↔
      due / 1048576 = tick / 1048576 := by
    omega
  have same3 : due % 2 ^ 32 / 67108864 = tick % 2 ^ 32 / 67108864 ↔
      due / 67108864 = tick / 67108864 := by
    omega
  have near_idx : (UInt32.ofNat due &&& 255).toNat = due % 256 := by
    rw [toNat_and_mask (k := 8) rfl, due_nat]
    omega
  have level_idx : ∀ i < 4, (UInt32.ofNat due >>> UInt32.ofNat (8 + i * 6) &&& 63).toNat =
      due / 2 ^ (8 + i * 6) % 64 := by
    intro i small
    rw [toNat_and_mask (k := 6) rfl, toNat_shiftRight (by omega), due_nat]
    interval_cases i <;> omega
  simp only [slot, place, findLevel_eq, same0, near_idx, due_nat, tick_nat, same1, same2, same3]
  split_ifs
  · rfl
  · exact congrArg (Slot.level 0) (level_idx 0 (by decide))
  · exact congrArg (Slot.level 1) (level_idx 1 (by decide))
  · exact congrArg (Slot.level 2) (level_idx 2 (by decide))
  · exact congrArg (Slot.level 3) (level_idx 3 (by decide))

theorem and_mask_eq_zero_iff {c mask : UInt32} {k : Nat} (low : mask.toNat = 2 ^ k - 1) :
    c &&& mask = 0 ↔ c.toNat % 2 ^ k = 0 := by
  rw [← toNat_and_mask low, ← UInt32.toNat_inj]
  rfl

/-- A round of the loop, from the bits it has found to be 0. -/
theorem run_carryRound {ct mask time : UInt32} {i k rounds : Nat}
    (is_mask : (mask - 1).toNat = 2 ^ k - 1) (rest : time.toNat = ct.toNat / 2 ^ k) :
    While.run (carryRound ct) (rounds + 1) ⟨mask, time, i⟩ =
      if ct.toNat % 2 ^ k ≠ 0 then some none
      else if ct.toNat / 2 ^ k % 64 ≠ 0 then some (some (.level i (ct.toNat / 2 ^ k % 64)))
      else While.run (carryRound ct) rounds ⟨mask <<< 6, time >>> 6, i + 1⟩ := by
  have idx : (time &&& 63).toNat = ct.toNat / 2 ^ k % 64 := by
    rw [toNat_and_mask (k := 6) rfl, rest]
    rfl
  have idx_zero : time &&& 63 = 0 ↔ ct.toNat / 2 ^ k % 64 = 0 := by
    rw [and_mask_eq_zero_iff (k := 6) rfl, rest]
    rfl
  rw [While.run, carryRound]
  simp only [and_mask_eq_zero_iff is_mask, idx, idx_zero, ne_eq]
  split_ifs <;> rfl

/-- Four rounds of the loop are enough. -/
theorem carry_returns (tick : Nat) : carry (UInt32.ofNat tick) = moved tick := by
  generalize counted : UInt32.ofNat tick = ct
  have nat : ct.toNat = tick % 2 ^ 32 := by
    rw [← counted]
    exact UInt32.toNat_ofNat'
  have zero : ct = 0 ↔ ct.toNat = 0 := by
    rw [← UInt32.toNat_inj]
    rfl
  have shift6 : ∀ w : UInt32, (w >>> 6).toNat = w.toNat / 2 ^ 6 := fun w =>
    toNat_shiftRight (k := 6) (by decide)
  have time0 : (ct >>> 8).toNat = ct.toNat / 2 ^ 8 := toNat_shiftRight (k := 8) (by decide)
  have time1 : (ct >>> 8 >>> 6).toNat = ct.toNat / 2 ^ 14 := by
    rw [shift6, time0]
    exact Nat.div_div_eq_div_mul ..
  have time2 : (ct >>> 8 >>> 6 >>> 6).toNat = ct.toNat / 2 ^ 20 := by
    rw [shift6, time1]
    exact Nat.div_div_eq_div_mul ..
  have time3 : (ct >>> 8 >>> 6 >>> 6 >>> 6).toNat = ct.toNat / 2 ^ 26 := by
    rw [shift6, time2]
    exact Nat.div_div_eq_div_mul ..
  rw [carry, run_carryRound (k := 8) rfl time0, run_carryRound (k := 14) rfl time1,
    run_carryRound (k := 20) rfl time2, run_carryRound (k := 26) rfl time3, moved]
  simp only [zero, nat]
  have low8 : tick % 2 ^ 32 % 2 ^ 8 = tick % 256 := by omega
  have low14 : tick % 2 ^ 32 / 2 ^ 8 % 64 = tick / 256 % 64 := by omega
  have low20 : tick % 2 ^ 32 / 2 ^ 14 % 64 = tick / 16384 % 64 := by omega
  have low26 : tick % 2 ^ 32 / 2 ^ 20 % 64 = tick / 1048576 % 64 := by omega
  have top : tick % 2 ^ 32 / 2 ^ 26 % 64 = tick / 67108864 % 64 := by omega
  rw [low8, low14, low20, low26, top]
  split_ifs
  all_goals first
    | rfl
    | exfalso; omega
    | rw [show tick / 67108864 % 64 = 0 by omega]

/-- The ticks of a list of the level. -/
def block : Nat → Nat
  | 0 => 256
  | 1 => 16384
  | 2 => 1048576
  | _ => 67108864

theorem place_near_iff {tick due i : Nat} :
    place tick due = .near i ↔ due / 256 = tick / 256 ∧ i = due % 256 := by
  rw [place]
  split_ifs with h
  · simp [h, eq_comm]
  all_goals simp [h]

theorem place_level_iff {tick due l i : Nat} :
    place tick due = .level l i ↔ l < 4 ∧ due / block l ≠ tick / block l ∧
      (l < 3 → due / block (l + 1) = tick / block (l + 1)) ∧ i = due / block l % 64 := by
  constructor
  · intro placed
    unfold place at placed
    split_ifs at placed
    all_goals cases placed
    · exact ⟨by decide, by assumption, fun _ => by assumption, rfl⟩
    · exact ⟨by decide, by assumption, fun _ => by assumption, rfl⟩
    · exact ⟨by decide, by assumption, fun _ => by assumption, rfl⟩
    · exact ⟨by decide, by assumption, fun low => absurd low (by decide), rfl⟩
  · intro ⟨small, differ, agree, idx⟩
    rw [place]
    subst idx
    interval_cases l
    all_goals
      simp only [block] at differ agree ⊢
      split_ifs <;> first | rfl | (exfalso ; omega)

theorem moved_some {tick : Nat} {k : Slot} (moves : moved (tick + 1) = some k) :
    ∃ l < 4, k = .level l ((tick + 1) / block l % 64) ∧ (tick + 1) % block l = 0 ∧
      (l < 3 → (tick + 1) / block (l + 1) = tick / block (l + 1)) := by
  unfold moved at moves
  split_ifs at moves
  all_goals cases moves
  · exact ⟨0, by decide, rfl, by simp only [block]; omega, by simp only [block]; omega⟩
  · exact ⟨1, by decide, rfl, by simp only [block]; omega, by simp only [block]; omega⟩
  · exact ⟨2, by decide, rfl, by simp only [block]; omega, by simp only [block]; omega⟩
  · exact ⟨3, by decide, rfl, by simp only [block]; omega, by simp only [block]; omega⟩

/-- A list that is dealt out anew begins at the tick: no later node stands below it. -/
theorem place_next {tick due : Nat} {k : Slot} (moves : moved (tick + 1) = some k)
    (later : tick < due) (other : place tick due ≠ k) :
    place (tick + 1) due = place tick due := by
  obtain ⟨l, small, rfl, zero, agree⟩ := moved_some moves
  cases placed : place tick due with
  | near i =>
      obtain ⟨same, -⟩ := place_near_iff.mp placed
      interval_cases l
      all_goals
        simp only [block] at zero
        omega
  | level m i =>
      obtain ⟨bound, differ, above, rfl⟩ := place_level_iff.mp placed
      have apart : l ≠ m ∨ due / block m % 64 ≠ (tick + 1) / block m % 64 := by
        by_contra both
        rw [not_or, not_not, not_not] at both
        obtain ⟨rfl, idx⟩ := both
        exact other (placed.trans (by rw [idx]))
      refine place_level_iff.mpr ⟨bound, ?_, ?_, rfl⟩
      · interval_cases l <;> interval_cases m
        all_goals
          simp only [block] at zero agree differ above apart ⊢
          omega
      · intro low
        have above := above low
        interval_cases l <;> interval_cases m
        all_goals
          simp only [block] at zero agree differ above apart ⊢
          omega

/-- What leaves the list goes to lists below it, where no other node stands. -/
theorem place_apart {tick due due' : Nat} {k : Slot} (moves : moved (tick + 1) = some k)
    (later : tick < due) (near : due < tick + 2 ^ 31) (later' : tick < due')
    (leaves : place tick due = k) (other : place tick due' ≠ k) :
    place (tick + 1) due ≠ place tick due' := by
  intro meets
  obtain ⟨l, small, rfl, zero, agree⟩ := moved_some moves
  obtain ⟨-, differ, above, idx⟩ := place_level_iff.mp leaves
  cases placed : place tick due' with
  | near i =>
      obtain ⟨same, -⟩ := place_near_iff.mp placed
      interval_cases l
      all_goals
        simp only [block] at zero
        omega
  | level m i =>
      obtain ⟨-, below, -, idx'⟩ := place_level_iff.mp (meets.trans placed)
      obtain ⟨bound, differ', above', idx''⟩ := place_level_iff.mp placed
      have apart : l ≠ m ∨ i ≠ (tick + 1) / block m % 64 := by
        by_contra both
        rw [not_or, not_not, not_not] at both
        obtain ⟨rfl, idx⟩ := both
        exact other (placed.trans (by rw [idx]))
      interval_cases l <;> interval_cases m
      all_goals
        simp only [block] at *
        omega

theorem place_stays {tick due : Nat} (stays : moved (tick + 1) = none) :
    place (tick + 1) due = place tick due := by
  have low : (tick + 1) % 256 ≠ 0 := by
    intro zero
    simp only [moved, zero] at stays
    split_ifs at stays
    all_goals omega
  have same0 : (tick + 1) / 256 = tick / 256 := by omega
  have same1 : (tick + 1) / 16384 = tick / 16384 := by omega
  have same2 : (tick + 1) / 1048576 = tick / 1048576 := by omega
  have same3 : (tick + 1) / 67108864 = tick / 67108864 := by omega
  rw [place, place, same0, same1, same2, same3]

theorem place_self_iff {tick due : Nat} : place tick due = .near (tick % 256) ↔ due = tick := by
  rw [place_near_iff]
  omega

/-- The node of a due time. -/
def toNode (x : Nat × TimerEvent) : Node := ⟨UInt32.ofNat x.1, x.2⟩

/-- The wheel at a tick holds the events that are due. -/
structure Holds (t : Timer) (tick : Nat) (pending : List (Nat × TimerEvent)) : Prop where
  time : t.time = UInt32.ofNat tick
  within : ∀ x ∈ pending, tick ≤ x.1 ∧ x.1 < tick + 2 ^ 31
  lists : ∃ buckets, Buckets.Deals (fun x => place tick x.1) pending buckets ∧
    t.lists = fun k => (buckets k).map toNode

namespace Holds
variable {t : Timer} {tick : Nat} {pending : List (Nat × TimerEvent)}

theorem add (holds : Holds t tick pending) {event : TimerEvent} {time : Int32} (pos : 0 < time) :
    Holds (timerAdd t event time) tick (pending ++ [(tick + time.toNatClampNeg, event)]) := by
  obtain ⟨counts, within, buckets, deals, lists⟩ := holds
  have small := time.toNatClampNeg_lt
  have delay : 0 < time.toNatClampNeg := by
    rw [Int32.lt_iff_toInt_lt] at pos
    rw [← Int32.toNat_toInt]
    exact Int.lt_toNat.mpr pos
  have node : (⟨time.toUInt32 + t.time, event⟩ : Node) =
      toNode (tick + time.toNatClampNeg, event) := by
    rw [toNode, counts, UInt32.ofNat_add, UInt32.add_comm,
      ← Int32.toNat_toUInt32_of_le (Int32.le_of_lt pos), UInt32.ofNat_toNat]
  have placed : slot t.time (toNode (tick + time.toNatClampNeg, event)).expire =
      place tick (tick + time.toNatClampNeg) := by
    rw [counts]
    exact slot_eq_place (by omega) (by omega)
  refine ⟨counts, ?_, _, deals.put, ?_⟩
  · intro x mem
    cases List.mem_append.mp mem with
    | inl old => exact within x old
    | inr new =>
        cases List.mem_singleton.mp new
        dsimp only
        omega
  · change Buckets.put (fun n => slot t.time n.expire) t.lists _ = _
    rw [node, lists]
    exact Buckets.put_map placed

theorem map_update_nil (buckets : Slot → List (Nat × TimerEvent)) (k : Slot) :
    Function.update (fun k => (buckets k).map toNode) k [] =
      fun k' => (Function.update buckets k [] k').map toNode := by
  funext k'
  by_cases here : k' = k
  · rw [here, Function.update_self, Function.update_self, List.map_nil]
  · rw [Function.update_of_ne here, Function.update_of_ne here]

theorem moveList_eq (t : Timer) (k : Slot) :
    moveList t k = { t with
      lists := Buckets.pour (fun n => slot t.time n.expire) (Function.update t.lists k [])
        (t.lists k) } := by
  have general : ∀ (nodes : List Node) (t' : Timer), nodes.foldl addNode t' = { t' with
      lists := Buckets.pour (fun n => slot t'.time n.expire) t'.lists nodes } := by
    intro nodes
    induction nodes with
    | nil =>
        intro t'
        rfl
    | cons n nodes ih =>
        intro t'
        rw [List.foldl_cons, ih]
        rfl
  exact general _ _

theorem shift (holds : Holds t tick pending) (later : ∀ x ∈ pending, tick < x.1) :
    Holds (timerShift t) (tick + 1) pending := by
  obtain ⟨counts, within, buckets, deals, lists⟩ := holds
  have time : t.time + 1 = UInt32.ofNat (tick + 1) := by
    rw [counts, UInt32.ofNat_add]
    rfl
  have within' : ∀ x ∈ pending, tick + 1 ≤ x.1 ∧ x.1 < tick + 1 + 2 ^ 31 := by
    intro x mem
    have := within x mem
    have := later x mem
    omega
  have carries := carry_returns (tick + 1)
  rw [timerShift]
  dsimp only
  rw [time, carries]
  cases moves : moved (tick + 1) with
  | none =>
      refine ⟨rfl, within', buckets, ?_, lists⟩
      intro k
      simp only [deals k, place_stays moves]
  | some k =>
      dsimp only
      rw [moveList_eq]
      have dealt : Buckets.Deals (fun x => place (tick + 1) x.1) pending
          (Buckets.pour (fun x => place (tick + 1) x.1) (Function.update buckets k [])
            (buckets k)) := by
        apply deals.pour
        · intro x mem other
          exact place_next moves (later x mem) other
        · intro x mem y mem' leaves other
          exact place_apart moves (later x mem) (within x mem).2 (later y mem') leaves other
      refine ⟨rfl, within', _, dealt, ?_⟩
      dsimp only
      rw [lists, map_update_nil]
      apply Buckets.pour_map
      intro x mem
      have inside := within' x (List.mem_of_mem_filter (deals k ▸ mem))
      exact slot_eq_place inside.1 inside.2

/-- The list of the time holds what is due. -/
theorem clear (holds : Holds t tick pending) :
    t.lists (nearIdx t) = (pending.filter fun x => x.1 = tick).map toNode ∧
      Holds (linkClear t (nearIdx t)) tick (pending.filter fun x => ¬ x.1 = tick) := by
  obtain ⟨counts, within, buckets, deals, lists⟩ := holds
  have here : nearIdx t = .near (tick % 256) := by
    rw [nearIdx, toNat_and_mask (k := 8) rfl, counts, UInt32.toNat_ofNat']
    congr 1
    omega
  have due : ∀ x : Nat × TimerEvent, place tick x.1 = .near (tick % 256) ↔ x.1 = tick := by
    intro x
    exact place_self_iff
  have cleared := deals.clear (k := .near (tick % 256))
  simp only [due] at cleared
  refine ⟨?_, counts, ?_, _, cleared, ?_⟩
  · rw [here, lists]
    dsimp only
    rw [deals]
    simp only [due]
  · intro x mem
    exact within x (List.mem_of_mem_filter mem)
  · rw [linkClear, here, lists, map_update_nil]

end Holds
end Qiuqiu.Server.TimerWheel
