import Mathlib.Data.List.AList
import Qiuqiu.Base.Machine
import Qiuqiu.Base.Number

/-!
The timer service of service/stimer/stimer.lua. `CallOutTbl` is a table of
tables of tables, by time, source and index; times are numbers, not only whole
seconds. A tick sweeps the seconds since the last one and re-arms what is
periodic in the table it sweeps. Seen from one source and index the service is
a single slot, and a tick sweeps each slot by itself.
-/
namespace Qiuqiu.Timer
open Lua

inductive NextType where
  | normal
  | accurate
  deriving DecidableEq

structure Entry where
  source : Nat
  nodeName : String
  refreshTime : Option Number := none
  nextType : Option NextType := none
  deriving DecidableEq

abbrev Indices := AList fun _ : Nat => Entry

abbrev Sources := AList fun _ : Nat => Indices

abbrev CallOutTbl := AList fun _ : Number => Sources

def oneDaySec : Int := 86400

/-- `skysend(source, "callout", index)`. -/
structure Callout where
  source : Nat
  index : Nat
  deriving DecidableEq

namespace CallOutTbl
variable (tbl : CallOutTbl)

/-- `CallOutTbl[nextTime][source][index] = tbl`, with the tables on the way. -/
def put (nextTime : Number) (source index : Nat) (e : Entry) : CallOutTbl :=
  let sources := (tbl.lookup nextTime).getD ∅
  let indices := (sources.lookup source).getD ∅
  tbl.insert nextTime (sources.insert source (indices.insert index e))

def get (time : Number) (source index : Nat) : Option Entry :=
  ((tbl.lookup time).bind (·.lookup source)).bind (·.lookup index)

end CallOutTbl

/-- The time an entry fired at `nowTime` is due again. A period is not NaN: `call_multi` raises
before it stores one. -/
def Entry.nextTime (e : Entry) (nowTime endTime : Int) : Option Number :=
  e.refreshTime.bind fun refreshTime =>
    (refreshTime.plus (if e.nextType = some .accurate then nowTime else endTime)).key

section
variable (nowTime endTime : Int)

/-- The body of the inner loop of `_DealWithOnce`, after the send. -/
def rearm (source index : Nat) (tbl : CallOutTbl) (e : Entry) : CallOutTbl :=
  match e.nextTime nowTime endTime with
  | some nextTime => tbl.put nextTime source index e
  | none => tbl

def dealIndices (source : Nat) : List (Sigma fun _ : Nat => Entry) → CallOutTbl →
    CallOutTbl × List Callout
  | [], tbl => (tbl, [])
  | ⟨index, e⟩ :: indices, tbl =>
      let rest := dealIndices source indices (rearm nowTime endTime source index tbl e)
      (rest.1, ⟨e.source, index⟩ :: rest.2)

def dealSources : List (Sigma fun _ : Nat => Indices) → CallOutTbl → CallOutTbl × List Callout
  | [], tbl => (tbl, [])
  | ⟨source, indices⟩ :: sources, tbl =>
      let dealt := dealIndices nowTime endTime source indices.entries tbl
      let rest := dealSources sources (dealt.1.erase (.int nowTime))
      (rest.1, dealt.2 ++ rest.2)

/-- `_DealWithOnce`. The two loops go in the order of `pairs`. -/
def dealWithOnce (tbl : CallOutTbl) : CallOutTbl × List Callout :=
  match tbl.lookup (.int nowTime) with
  | some sources => dealSources nowTime endTime sources.entries tbl
  | none => (tbl, [])

end

/-- `for i = …, nowTime do _DealWithOnce(i, nowTime) end`, with the number of
seconds left. -/
def sweep (endTime : Int) : Nat → Int → CallOutTbl → CallOutTbl × List Callout
  | 0, _, tbl => (tbl, [])
  | seconds + 1, i, tbl =>
      let once := dealWithOnce i endTime tbl
      let rest := sweep endTime seconds (i + 1) once.1
      (rest.1, once.2 ++ rest.2)

structure Stimer where
  callOutTbl : CallOutTbl
  lastTime : Int
  first : Bool
  /-- The last reading of `os.time`. -/
  clock : Int

/-- A message or a turn of the timer loop, with the reading of `os.time`. -/
inductive Event where
  | callMulti (source : Nat) (nodeName : String) (index : Nat) (timeout : Number) (now : Int)
  | callOnce (source : Nat) (nodeName : String) (index : Nat) (timeout : Number) (now : Int)
  | callDaily (source : Nat) (nodeName : String) (index : Nat) (hour min sec now : Int)
  | rmCall (source index : Nat) (now : Int)
  | tick (now : Int)

inductive Output where
  | returned (index : Nat)
  | raised (msg : String)
  | sent (callouts : List Callout)

def Event.now : Event → Int
  | .callMulti _ _ _ _ now => now
  | .callOnce _ _ _ _ now => now
  | .callDaily _ _ _ _ _ _ now => now
  | .rmCall _ _ now => now
  | .tick now => now

/-- What the asserts of lualib/call_out.lua let a client send. -/
def Event.admitted : Event → Bool
  | .callMulti _ _ _ timeout _ => timeout.held && timeout.atLeast 1
  | .callOnce _ _ _ timeout _ => timeout.held
  | .callDaily _ _ _ hour _ _ _ => decide (0 ≤ hour ∧ hour ≤ 23)
  | _ => true

namespace Stimer
variable (s : Stimer)

def sweepFrom : Int := if s.first then s.lastTime else s.lastTime + 1

/-- The key `mfloor(ostime() + timeout)`. -/
def floorTime (now : Int) (timeout : Number) : Option Number := (timeout.plus now).floor.key

/-- `call_once` takes a second for what is not positive. -/
def positive (timeout : Number) : Number := if timeout.atMost 0 then .int 1 else timeout

/-- The new entry under its key. A table raises for a key that is none. -/
def register (nextTime : Option Number) (source index : Nat) (e : Entry) : Stimer × Output :=
  match nextTime with
  | some nextTime =>
      ({ s with callOutTbl := s.callOutTbl.put nextTime source index e }, .returned index)
  | none => (s, .raised "table index is NaN")

section
variable (todayAt : Int → Int → Int → Int → Int)

/-- The time a daily timer is due first. `todayAt` is `os.time` of an hour,
minute and second on the day of a time. -/
def dailyTime (hour min sec now : Int) : Int :=
  let nextTime := todayAt now hour min sec
  if now > nextTime then nextTime + oneDaySec else nextTime

def handle : Event → Stimer × Output
  | .callMulti source nodeName index timeout now =>
      if timeout.atMost 0 then (s, .raised "error call_multi, timeout <= 0!")
      else
        s.register (floorTime now timeout) source index
          ⟨source, nodeName, some timeout, some .normal⟩
  | .callOnce source nodeName index timeout now =>
      s.register (floorTime now (positive timeout)) source index ⟨source, nodeName, none, none⟩
  | .callDaily source nodeName index hour min sec now =>
      if (0 ≤ hour ∧ hour ≤ 23) ∧ (0 ≤ min ∧ min ≤ 60) ∧ (0 ≤ sec ∧ sec ≤ 60) then
        s.register (some (.int (dailyTime todayAt hour min sec now))) source index
          ⟨source, nodeName, some (.int oneDaySec), some .accurate⟩
      else
        (s, .raised ("error call_daily, hour:[" ++ toString hour ++ "] min:[" ++ toString min ++
          "] sec:[" ++ toString sec ++ "]"))
  | .rmCall _ _ _ => (s, .raised "assertion failed!")
  | .tick now =>
      let swept := sweep now (now + 1 - s.sweepFrom).toNat s.sweepFrom s.callOutTbl
      ({ s with callOutTbl := swept.1, lastTime := now, first := false }, .sent swept.2)

/-- The clock does not go back, and a double holds the seconds it reads. -/
def step (e : Event) : Option (Stimer × Output) :=
  if s.clock ≤ e.now ∧ e.now < 2 ^ 53 ∧ e.admitted then
    some ({ s with clock := e.now }.handle todayAt e)
  else none

theorem step_eq_some {s s' : Stimer} {e : Event} {o : Output}
    {todayAt : Int → Int → Int → Int → Int} (h : s.step todayAt e = some (s', o)) :
    s.clock ≤ e.now ∧ e.now < 2 ^ 53 ∧ e.admitted = true ∧
      { s with clock := e.now }.handle todayAt e = (s', o) := by
  simp only [step] at h
  split at h
  · rename_i admitted
    exact ⟨admitted.1, admitted.2.1, admitted.2.2, Option.some.inj h⟩
  · cases h

end

end Stimer

/-- The service started at `START_TIME = start`. -/
def machine (start : Nat) (todayAt : Int → Int → Int → Int → Int) :
    Machine Stimer Event Output where
  init := ⟨∅, start, true, start⟩
  step := fun s e => s.step todayAt e

/-- The entries of one source and index, by time. -/
abbrev Slot := Number → Option Entry

def CallOutTbl.slot (tbl : CallOutTbl) (source index : Nat) : Slot := fun time =>
  tbl.get time source index

namespace Slot

def clear (slot : Slot) (time : Number) : Slot := Function.update slot time none

def rearm (nowTime endTime : Int) (slot : Slot) (e : Entry) : Slot :=
  match e.nextTime nowTime endTime with
  | some nextTime => Function.update slot nextTime (some e)
  | none => slot

/-- A second of a sweep, and the number of callouts it sends. -/
def deal (nowTime endTime : Int) (slot : Slot) : Slot × Nat :=
  match slot (.int nowTime) with
  | some e => ((slot.rearm nowTime endTime e).clear (.int nowTime), 1)
  | none => (slot, 0)

def sweep (endTime : Int) : Nat → Int → Slot → Slot × Nat
  | 0, _, slot => (slot, 0)
  | seconds + 1, i, slot =>
      let once := slot.deal i endTime
      let rest := sweep endTime seconds (i + 1) once.1
      (rest.1, once.2 + rest.2)

end Slot

section
variable {tbl : CallOutTbl} {source index source' index' : Nat} {nowTime endTime : Int}

theorem slot_put (nextTime : Number) (e : Entry) :
    (tbl.put nextTime source index e).slot source index =
      Function.update (tbl.slot source index) nextTime (some e) := by
  funext time
  by_cases same : time = nextTime
  · subst same
    simp [CallOutTbl.slot, CallOutTbl.get, CallOutTbl.put, Function.update]
  · simp [CallOutTbl.slot, CallOutTbl.get, CallOutTbl.put, Function.update, same,
      AList.lookup_insert_ne same]

theorem slot_put_other (nextTime : Number) (e : Entry) (other : source' = source → index' ≠ index) :
    (tbl.put nextTime source index e).slot source' index' = tbl.slot source' index' := by
  funext time
  by_cases same : time = nextTime
  · subst same
    simp only [CallOutTbl.slot, CallOutTbl.get, CallOutTbl.put, AList.lookup_insert,
      Option.bind_some]
    by_cases hs : source' = source
    · subst hs
      rw [AList.lookup_insert, Option.bind_some, AList.lookup_insert_ne (other rfl)]
      cases tbl.lookup time with
      | none => rfl
      | some sources =>
          simp only [Option.getD_some, Option.bind_some]
          cases sources.lookup source' with
          | none => rfl
          | some indices => rfl
    · rw [AList.lookup_insert_ne hs]
      cases tbl.lookup time with
      | none => rfl
      | some sources => rfl
  · simp [CallOutTbl.slot, CallOutTbl.get, CallOutTbl.put, AList.lookup_insert_ne same]

theorem slot_erase (time : Number) :
    CallOutTbl.slot (tbl.erase time) source index = (tbl.slot source index).clear time := by
  funext time'
  by_cases same : time' = time
  · subst same
    simp [CallOutTbl.slot, CallOutTbl.get, Slot.clear, Function.update]
  · simp [CallOutTbl.slot, CallOutTbl.get, Slot.clear, Function.update, same,
      AList.lookup_erase_ne same]

theorem slot_rearm (e : Entry) :
    (rearm nowTime endTime source index tbl e).slot source index =
      (tbl.slot source index).rearm nowTime endTime e := by
  simp only [rearm, Slot.rearm]
  cases e.nextTime nowTime endTime with
  | none => rfl
  | some nextTime => exact slot_put nextTime e

theorem slot_rearm_other (e : Entry) (other : source' = source → index' ≠ index) :
    (rearm nowTime endTime source index tbl e).slot source' index' = tbl.slot source' index' := by
  simp only [rearm]
  cases e.nextTime nowTime endTime with
  | none => rfl
  | some nextTime => exact slot_put_other nextTime e other

theorem slot_dealIndices_other {indices : List (Sigma fun _ : Nat => Entry)}
    (other : source' = source → index' ∉ indices.keys) :
    (dealIndices nowTime endTime source indices tbl).1.slot source' index' =
      tbl.slot source' index' := by
  induction indices generalizing tbl with
  | nil => rfl
  | cons entry indices ih =>
      have rest : source' = source → index' ∉ indices.keys := fun h mem =>
        other h (List.mem_cons_of_mem entry.1 mem)
      have head : source' = source → index' ≠ entry.1 := fun h eq =>
        other h (eq ▸ List.mem_cons_self)
      exact (ih rest).trans (slot_rearm_other entry.2 head)

/-- An index of the bucket is re-armed, once. -/
theorem slot_dealIndices {indices : List (Sigma fun _ : Nat => Entry)} {e : Entry}
    (nodup : indices.NodupKeys) (mem : e ∈ indices.dlookup index) :
    (dealIndices nowTime endTime source indices tbl).1.slot source index =
      (tbl.slot source index).rearm nowTime endTime e := by
  induction indices generalizing tbl with
  | nil => cases mem
  | cons entry indices ih =>
      obtain ⟨index', e'⟩ := entry
      rw [List.nodupKeys_cons] at nodup
      by_cases same : index = index'
      · subst same
        rw [List.dlookup_cons_eq] at mem
        cases mem
        exact (slot_dealIndices_other fun _ => nodup.1).trans (slot_rearm e)
      · rw [List.dlookup_cons_ne _ _ same] at mem
        refine (ih nodup.2 mem).trans ?_
        rw [slot_rearm_other e' fun _ => same]

/-- The effect of the entry a bucket holds for the slot. -/
def Slot.rearmAny (nowTime endTime : Int) (slot : Slot) : Option Entry → Slot
  | some e => slot.rearm nowTime endTime e
  | none => slot

theorem Slot.clear_self (slot : Slot) (time : Number) : slot.clear time time = none := by
  rw [Slot.clear, Function.update_self]

theorem Slot.clear_of_none {slot : Slot} {time : Number} (h : slot time = none) :
    slot.clear time = slot := by
  simp only [Slot.clear]
  rw [← h, Function.update_eq_self]

theorem Slot.clear_rearmAny (slot : Slot) (e : Option Entry) :
    ((slot.clear (.int nowTime)).rearmAny nowTime endTime e).clear (.int nowTime) =
      (slot.rearmAny nowTime endTime e).clear (.int nowTime) := by
  cases e with
  | none => simp [Slot.rearmAny, Slot.clear]
  | some e =>
      simp only [Slot.rearmAny, Slot.rearm]
      cases e.nextTime nowTime endTime with
      | none => simp [Slot.clear]
      | some nextTime =>
          funext time
          by_cases now : time = .int nowTime
          · subst now
            simp [Slot.clear]
          · simp [Slot.clear, Function.update, now]

theorem slot_dealIndices_any (indices : Indices) :
    (dealIndices nowTime endTime source indices.entries tbl).1.slot source index =
      (tbl.slot source index).rearmAny nowTime endTime (indices.lookup index) := by
  cases found : indices.lookup index with
  | none =>
      apply slot_dealIndices_other
      intro _ mem
      exact AList.lookup_eq_none.1 found mem
  | some e => exact slot_dealIndices indices.nodupKeys found

/-- The entry of the slot in a bucket. -/
def inBucket (sources : List (Sigma fun _ : Nat => Indices)) (source index : Nat) : Option Entry :=
  (sources.dlookup source).bind (·.lookup index)

theorem clear_slot_dealSources {sources : List (Sigma fun _ : Nat => Indices)}
    (nodup : sources.NodupKeys) :
    ((dealSources nowTime endTime sources tbl).1.slot source index).clear (.int nowTime) =
      ((tbl.slot source index).rearmAny nowTime endTime
        (inBucket sources source index)).clear (.int nowTime) := by
  induction sources generalizing tbl with
  | nil => rfl
  | cons entry sources ih =>
      obtain ⟨source', indices⟩ := entry
      rw [List.nodupKeys_cons] at nodup
      refine (ih nodup.2).trans ?_
      rw [slot_erase, Slot.clear_rearmAny]
      by_cases same : source = source'
      · subst same
        have absent : inBucket sources source index = none := by
          rw [inBucket, List.dlookup_eq_none.2 nodup.1, Option.bind_none]
        rw [absent, inBucket, List.dlookup_cons_eq, Option.bind_some, slot_dealIndices_any]
        rfl
      · have found : inBucket (⟨source', indices⟩ :: sources) source index =
            inBucket sources source index := by
          rw [inBucket, List.dlookup_cons_ne _ _ same, inBucket]
        rw [found, slot_dealIndices_other fun h => absurd h same]

theorem slot_dealSources_now {sources : List (Sigma fun _ : Nat => Indices)}
    (h : tbl.slot source index (.int nowTime) = none ∨ sources ≠ []) :
    (dealSources nowTime endTime sources tbl).1.slot source index (.int nowTime) = none := by
  induction sources generalizing tbl with
  | nil =>
      cases h with
      | inl none => exact none
      | inr ne => exact absurd rfl ne
  | cons entry sources ih =>
      apply ih
      left
      rw [slot_erase]
      exact Slot.clear_self _ _

variable (source index) in
theorem slot_now {sources : Sources} (h : tbl.lookup (.int nowTime) = some sources) :
    tbl.slot source index (.int nowTime) = inBucket sources.entries source index := by
  rw [CallOutTbl.slot, CallOutTbl.get, h]
  rfl

variable (source index) in
theorem slot_now_of_none (h : tbl.lookup (.int nowTime) = none) :
    tbl.slot source index (.int nowTime) = none := by
  rw [CallOutTbl.slot, CallOutTbl.get, h]
  rfl

theorem slot_dealWithOnce :
    (dealWithOnce nowTime endTime tbl).1.slot source index =
      ((tbl.slot source index).deal nowTime endTime).1 := by
  simp only [dealWithOnce]
  cases bucket : tbl.lookup (.int nowTime) with
  | none =>
      have absent := slot_now_of_none source index bucket
      simp only [Slot.deal, absent]
  | some sources =>
      have now := slot_now source index bucket
      have dealt : (dealSources nowTime endTime sources.entries tbl).1.slot source index
          (.int nowTime) = none := by
        apply slot_dealSources_now
        cases entries : sources.entries with
        | nil =>
            left
            rw [now, entries]
            rfl
        | cons entry rest => exact .inr (List.cons_ne_nil entry rest)
      change (dealSources nowTime endTime sources.entries tbl).1.slot source index = _
      rw [← Slot.clear_of_none dealt, clear_slot_dealSources sources.nodupKeys, ← now]
      simp only [Slot.deal]
      cases entry : tbl.slot source index (.int nowTime) with
      | none => exact Slot.clear_of_none entry
      | some e => rfl

theorem slot_sweep {seconds : Nat} {i : Int} :
    (sweep endTime seconds i tbl).1.slot source index =
      ((tbl.slot source index).sweep endTime seconds i).1 := by
  induction seconds generalizing i tbl with
  | zero => rfl
  | succ seconds ih =>
      simp only [sweep, Slot.sweep]
      rw [ih, slot_dealWithOnce]

/-- Every entry is stored under its own source. -/
def CallOutTbl.Sourced (tbl : CallOutTbl) : Prop :=
  ∀ time source index e, tbl.get time source index = some e → e.source = source

theorem dealIndices_callouts (indices : List (Sigma fun _ : Nat => Entry)) :
    (dealIndices nowTime endTime source indices tbl).2 =
      indices.map fun entry => ⟨entry.2.source, entry.1⟩ := by
  induction indices generalizing tbl with
  | nil => rfl
  | cons entry indices ih =>
      simp only [dealIndices, List.map_cons]
      rw [ih]

theorem count_dealIndices_other {indices : List (Sigma fun _ : Nat => Entry)}
    (sourced : ∀ entry ∈ indices, entry.2.source = source)
    (other : source' = source → index' ∉ indices.keys) :
    (dealIndices nowTime endTime source indices tbl).2.count ⟨source', index'⟩ = 0 := by
  rw [dealIndices_callouts, List.count_eq_zero, List.mem_map]
  rintro ⟨entry, mem, eq⟩
  rw [Callout.mk.injEq, sourced entry mem] at eq
  exact other eq.1.symm (eq.2 ▸ List.mem_map_of_mem mem)

theorem count_dealIndices {indices : List (Sigma fun _ : Nat => Entry)}
    (sourced : ∀ entry ∈ indices, entry.2.source = source) (nodup : indices.NodupKeys)
    (mem : index ∈ indices.keys) :
    (dealIndices nowTime endTime source indices tbl).2.count ⟨source, index⟩ = 1 := by
  induction indices generalizing tbl with
  | nil => cases mem
  | cons entry indices ih =>
      obtain ⟨index', e⟩ := entry
      have sourced' : ∀ entry ∈ indices, entry.2.source = source := fun entry h =>
        sourced entry (List.mem_cons_of_mem _ h)
      have head : e.source = source := sourced ⟨index', e⟩ List.mem_cons_self
      rw [List.nodupKeys_cons] at nodup
      simp only [dealIndices, List.count_cons, head]
      by_cases same : index = index'
      · subst same
        rw [count_dealIndices_other sourced' fun _ => nodup.1]
        simp
      · have rest : index ∈ indices.keys := by
          cases mem with
          | head => exact absurd rfl same
          | tail _ mem => exact mem
        rw [ih sourced' nodup.2 rest]
        simp [Ne.symm same]

/-- The number of callouts for what a bucket holds for the slot. -/
def calloutsOf : Option Entry → Nat
  | some _ => 1
  | none => 0

theorem count_dealIndices_any {indices : Indices}
    (sourced : ∀ entry ∈ indices.entries, entry.2.source = source) :
    (dealIndices nowTime endTime source indices.entries tbl).2.count ⟨source, index⟩ =
      calloutsOf (indices.lookup index) := by
  cases found : indices.lookup index with
  | none =>
      apply count_dealIndices_other sourced
      intro _ mem
      exact AList.lookup_eq_none.1 found mem
  | some e =>
      apply count_dealIndices sourced indices.nodupKeys
      exact AList.lookup_isSome.1 (by rw [found]; rfl)

theorem count_dealSources {sources : List (Sigma fun _ : Nat => Indices)}
    (sourced : ∀ bucket ∈ sources, ∀ entry ∈ bucket.2.entries, entry.2.source = bucket.1)
    (nodup : sources.NodupKeys) :
    (dealSources nowTime endTime sources tbl).2.count ⟨source, index⟩ =
      calloutsOf (inBucket sources source index) := by
  induction sources generalizing tbl with
  | nil => rfl
  | cons entry sources ih =>
      obtain ⟨source', indices⟩ := entry
      have rest : ∀ bucket ∈ sources, ∀ entry ∈ bucket.2.entries, entry.2.source = bucket.1 :=
        fun bucket h => sourced bucket (List.mem_cons_of_mem _ h)
      have head := sourced ⟨source', indices⟩ List.mem_cons_self
      rw [List.nodupKeys_cons] at nodup
      simp only [dealSources, List.count_append]
      rw [ih rest nodup.2]
      by_cases same : source = source'
      · subst same
        rw [count_dealIndices_any head, inBucket, inBucket, List.dlookup_eq_none.2 nodup.1,
          List.dlookup_cons_eq]
        rfl
      · rw [count_dealIndices_other head fun h => absurd h same, inBucket, inBucket,
          List.dlookup_cons_ne _ _ same, Nat.zero_add]

theorem sourced_bucket (sourced : tbl.Sourced) {sources : Sources}
    (h : tbl.lookup (.int nowTime) = some sources) :
    ∀ bucket ∈ sources.entries, ∀ entry ∈ bucket.2.entries, entry.2.source = bucket.1 := by
  intro bucket hb entry he
  apply sourced (.int nowTime) bucket.1 entry.1 entry.2
  have found : sources.lookup bucket.1 = some bucket.2 := AList.mem_lookup_iff.2 hb
  have entry_found : bucket.2.lookup entry.1 = some entry.2 := AList.mem_lookup_iff.2 he
  rw [CallOutTbl.get, h, Option.bind_some, found, Option.bind_some, entry_found]

theorem count_dealWithOnce (sourced : tbl.Sourced) :
    (dealWithOnce nowTime endTime tbl).2.count ⟨source, index⟩ =
      ((tbl.slot source index).deal nowTime endTime).2 := by
  simp only [dealWithOnce]
  cases bucket : tbl.lookup (.int nowTime) with
  | none =>
      have absent := slot_now_of_none source index bucket
      simp [Slot.deal, absent]
  | some sources =>
      change (dealSources nowTime endTime sources.entries tbl).2.count ⟨source, index⟩ = _
      rw [count_dealSources (sourced_bucket sourced bucket) sources.nodupKeys,
        ← slot_now source index bucket]
      simp only [Slot.deal]
      cases tbl.slot source index (.int nowTime) with
      | none => rfl
      | some e => rfl

/-- What a second of a sweep leaves: an entry of another time, or the entry of
that second re-armed. -/
theorem Slot.deal_some {slot : Slot} {time : Number} {e : Entry}
    (h : (slot.deal nowTime endTime).1 time = some e) :
    time ≠ .int nowTime ∧
      (slot time = some e ∨
        slot (.int nowTime) = some e ∧ e.nextTime nowTime endTime = some time) := by
  simp only [Slot.deal] at h
  cases now : slot (.int nowTime) with
  | none =>
      rw [now] at h
      refine ⟨?_, .inl h⟩
      rintro rfl
      exact absurd (now.symm.trans h) (by simp)
  | some e' =>
      rw [now] at h
      have ne : time ≠ .int nowTime := by
        rintro rfl
        exact absurd ((Slot.clear_self _ _).symm.trans h) (by simp)
      refine ⟨ne, ?_⟩
      simp only [Slot.clear, Function.update_of_ne ne, Slot.rearm] at h
      cases next : e'.nextTime nowTime endTime with
      | none =>
          rw [next] at h
          exact .inl h
      | some nextTime =>
          rw [next] at h
          change Function.update slot nextTime (some e') time = some e at h
          by_cases same : time = nextTime
          · subst same
            rw [Function.update_self] at h
            cases h
            exact .inr ⟨rfl, next⟩
          · left
            simpa [Function.update_of_ne same] using h

/-- The slot with one entry. -/
def Slot.only (e : Entry) (time : Number) : Slot := Function.update (fun _ => none) time (some e)

theorem Slot.only_self (e : Entry) (time : Number) : Slot.only e time time = some e := by
  rw [Slot.only, Function.update_self]

theorem Slot.only_of_ne {e : Entry} {time time' : Number} (h : time' ≠ time) :
    Slot.only e time time' = none := by
  rw [Slot.only, Function.update_of_ne h]

theorem Slot.deal_only_of_ne {e : Entry} {time : Number} (h : .int nowTime ≠ time) :
    (Slot.only e time).deal nowTime endTime = (Slot.only e time, 0) := by
  simp only [Slot.deal, Slot.only_of_ne h]

/-- What is left of the only entry when it fires. -/
def Slot.rearmed (e : Entry) : Option Number → Slot
  | some nextTime => Slot.only e nextTime
  | none => fun _ => none

theorem Slot.deal_only {e : Entry}
    (later : ∀ nextTime, e.nextTime nowTime endTime = some nextTime → nextTime ≠ .int nowTime) :
    (Slot.only e (.int nowTime)).deal nowTime endTime =
      (Slot.rearmed e (e.nextTime nowTime endTime), 1) := by
  simp only [Slot.deal, Slot.only_self, Prod.mk.injEq, and_true, Slot.rearm]
  cases next : e.nextTime nowTime endTime with
  | none => simp [Slot.rearmed, Slot.only, Slot.clear]
  | some nextTime =>
      simp only [Slot.rearmed, Slot.only, Slot.clear]
      rw [Function.update_comm (later nextTime next), Function.update_idem]
      simp

theorem sourced_dealWithOnce (sourced : tbl.Sourced) :
    (dealWithOnce nowTime endTime tbl).1.Sourced := by
  intro time source index e h
  change (dealWithOnce nowTime endTime tbl).1.slot source index time = some e at h
  rw [slot_dealWithOnce] at h
  cases (Slot.deal_some h).2 with
  | inl kept => exact sourced _ _ _ _ kept
  | inr fired => exact sourced _ _ _ _ fired.1

theorem sourced_sweep {seconds : Nat} {i : Int} (sourced : tbl.Sourced) :
    (sweep endTime seconds i tbl).1.Sourced := by
  induction seconds generalizing i tbl with
  | zero => exact sourced
  | succ seconds ih => exact ih (sourced_dealWithOnce sourced)

theorem count_sweep {seconds : Nat} {i : Int} (sourced : tbl.Sourced) :
    (sweep endTime seconds i tbl).2.count ⟨source, index⟩ =
      ((tbl.slot source index).sweep endTime seconds i).2 := by
  induction seconds generalizing i tbl with
  | zero => rfl
  | succ seconds ih =>
      simp only [sweep, Slot.sweep, List.count_append]
      rw [count_dealWithOnce sourced, ih (sourced_dealWithOnce sourced), slot_dealWithOnce]

/-- What a registration leaves: the new entry, or an old one. -/
theorem put_some {nextTime time : Number} {e e' : Entry}
    (h : (tbl.put nextTime source index e).slot source' index' time = some e') :
    source' = source ∧ time = nextTime ∧ e' = e ∨ tbl.slot source' index' time = some e' := by
  by_cases same : source' = source ∧ index' = index
  · obtain ⟨rfl, rfl⟩ := same
    rw [slot_put] at h
    by_cases now : time = nextTime
    · subst now
      rw [Function.update_self] at h
      cases h
      exact .inl ⟨rfl, rfl, rfl⟩
    · rw [Function.update_of_ne now] at h
      exact .inr h
  · rw [slot_put_other nextTime e fun hs hi => same ⟨hs, hi⟩] at h
    exact .inr h

theorem sourced_put {nextTime : Number} {e : Entry} (sourced : tbl.Sourced)
    (h : e.source = source) : (tbl.put nextTime source index e).Sourced := by
  intro time source' index' e' found
  cases put_some found with
  | inl new => rw [new.2.2, new.1, h]
  | inr old => exact sourced _ _ _ _ old

end

end Qiuqiu.Timer
