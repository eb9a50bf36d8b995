import Mathlib.Data.List.Nodup
import Mathlib.Logic.Function.Basic
import Qiuqiu.Base.Machine
import Qiuqiu.Base.Number

/-!
The timers of a service, lualib/call_out.lua. A registration takes the next
index, sends it to the timer service and keeps a closure under it; a callout
message runs the closure, which for `CallOut` removes itself first. Messages
may come late, twice or in any order, and a callback may be suspended or raise.
-/
namespace Qiuqiu.Timer
namespace Client
open Lua

inductive CallType where
  | normal
  | frequency
  | daily
  deriving DecidableEq

/-- The upvalues of `_RealFunc`. -/
structure RealFunc where
  env : Nat
  func : String
  callType : CallType
  idx : Nat

structure State where
  callIndex : Nat
  calloutFunc : Nat → Option RealFunc
  /-- `Env.__AllTimers[idx]`. -/
  allTimers : Nat → Nat → Bool
  /-- `Env[func]` is a function. -/
  functions : Nat → String → Bool
  /-- The callbacks that were started and have not ended. -/
  running : List Nat

/-- What is sent to the timer service. -/
inductive Message where
  | callOnce (idx : Nat) (timeout : Number)
  | callMulti (idx : Nat) (timeout : Number)
  | callDaily (idx : Nat) (hour min sec : Int)
  | rmCall (idx : Nat)

/-- A call, made from anywhere, a callout message or the end of a callback.
`func` is missing if it is not a string; `sends` tells whether the send
returns. -/
inductive Event where
  | callOut (env : Nat) (func : Option String) (timeOut : Number) (sends : Bool)
  | callFre (env : Nat) (func : Option String) (freqency : Number) (sends : Bool)
  | daily (env : Nat) (hour min sec : Int) (func : Option String) (sends : Bool)
  | removeCallOut (env idx : Nat) (sends : Bool)
  | callout (callIdx : Nat)
  | ended (idx : Nat) (returns : Bool)
  | define (env : Nat) (func : String) (isFunction : Bool)

inductive Output where
  | returned (idx : Nat) (sent : Message)
  | removed (sent : Option Message)
  | started (idx : Nat)
  | raised
  | nothing

namespace State
variable (s : State)

/-- `_GetIndex`, the send and what follows it. Without the send only the index
is taken. -/
def register (env : Nat) (func : String) (callType : CallType) (sends : Bool)
    (message : Nat → Message) : State × Output :=
  let idx := s.callIndex + 1
  if sends then
    ({ s with
        callIndex := idx
        calloutFunc := Function.update s.calloutFunc idx (some ⟨env, func, callType, idx⟩)
        allTimers := Function.update s.allTimers env (Function.update (s.allTimers env) idx true) },
      .returned idx (message idx))
  else ({ s with callIndex := idx }, .raised)

/-- `CallOutByType` and `CallOutByDaily` up to the send. -/
def callOutBy (env : Nat) (func : Option String) (checked : Bool) (callType : CallType)
    (sends : Bool) (message : Nat → Message) : State × Output :=
  match func with
  | some func =>
      if s.functions env func && checked then s.register env func callType sends message
      else (s, .raised)
  | none => (s, .raised)

def clearTimer (env idx : Nat) : State :=
  { s with
    calloutFunc := Function.update s.calloutFunc idx none
    allTimers := Function.update s.allTimers env (Function.update (s.allTimers env) idx false) }

/-- The dispatch of `callout`, up to the call of the function. -/
def dispatch (callIdx : Nat) : State × Output :=
  match s.calloutFunc callIdx with
  | none => (s, .nothing)
  | some f =>
      let s := if f.callType = .normal then s.clearTimer f.env f.idx else s
      if s.functions f.env f.func then
        ({ s with running := callIdx :: s.running }, .started callIdx)
      else (s, .raised)

def handle : Event → State × Output
  | .callOut env func timeOut sends =>
      s.callOutBy env func true .normal sends fun idx => .callOnce idx timeOut
  | .callFre env func freqency sends =>
      s.callOutBy env func (freqency.atLeast 1) .frequency sends fun idx =>
        .callMulti idx freqency
  | .daily env hour min sec func sends =>
      s.callOutBy env func (decide (0 ≤ hour ∧ hour ≤ 23)) .daily sends fun idx =>
        .callDaily idx hour min sec
  | .removeCallOut env idx sends =>
      if s.allTimers env idx then
        (s.clearTimer env idx, if sends then .removed (some (.rmCall idx)) else .raised)
      else (s.clearTimer env idx, .removed none)
  | .callout callIdx => s.dispatch callIdx
  | .ended idx _ => ({ s with running := s.running.erase idx }, .nothing)
  | .define env func isFunction =>
      ({ s with functions :=
          Function.update s.functions env (Function.update (s.functions env) func isFunction) },
        .nothing)

def step : Event → Option (State × Output)
  | .ended idx returns => if idx ∈ s.running then some (s.handle (.ended idx returns)) else none
  | e => some (s.handle e)

end State

def machine (functions : Nat → String → Bool) : Machine State Event Output where
  init := ⟨0, fun _ => none, fun _ _ => false, functions, []⟩
  step := State.step

abbrev Trace := List (Event × Output)

def returnedAt : Event × Output → Option Nat
  | (_, .returned idx _) => some idx
  | _ => none

/-- An index that `CallOut` returned. -/
def onceAt : Event × Output → Option Nat
  | (.callOut _ _ _ _, .returned idx _) => some idx
  | _ => none

def startedAt : Event × Output → Option Nat
  | (_, .started idx) => some idx
  | _ => none

/-- A callout message that ran the closure of its index. -/
def ranAt : Event × Output → Option Nat
  | (.callout idx, .started _) => some idx
  | (.callout idx, .raised) => some idx
  | _ => none

def returned (trace : Trace) : List Nat := trace.filterMap returnedAt

def onces (trace : Trace) : List Nat := trace.filterMap onceAt

def starts (trace : Trace) : List Nat := trace.filterMap startedAt

def ran (trace : Trace) : List Nat := trace.filterMap ranAt

/-- `RemoveCallOut` was called for an index that was returned before. -/
def Removed (trace : Trace) (idx : Nat) : Prop :=
  ∃ pre env sends o post, trace = pre ++ (.removeCallOut env idx sends, o) :: post ∧
    idx ∈ returned pre

/-- An index that is unknown, removed, or of a `CallOut` that ran. -/
def Finished (trace : Trace) (idx : Nat) : Prop :=
  idx ∉ returned trace ∨ Removed trace idx ∨ idx ∈ onces trace ∧ idx ∈ ran trace

namespace State
variable {s s' : State}

/-- What a step can do with the index and the closures. -/
inductive Moves (s : State) : Event × Output → State → Prop
  | registered {e m f s'} : f.idx = s.callIndex + 1 →
      (f.callType = .normal ↔ onceAt (e, .returned (s.callIndex + 1) m) ≠ none) →
      s'.callIndex = s.callIndex + 1 →
      s'.calloutFunc = Function.update s.calloutFunc (s.callIndex + 1) (some f) →
      (∀ env idx sends, e ≠ .removeCallOut env idx sends) →
      ranAt (e, .returned (s.callIndex + 1) m) = none →
      Moves s (e, .returned (s.callIndex + 1) m) s'
  | removed {env idx sends o s'} : returnedAt (.removeCallOut env idx sends, o) = none →
      startedAt (.removeCallOut env idx sends, o) = none →
      s'.callIndex = s.callIndex →
      s'.calloutFunc = Function.update s.calloutFunc idx none →
      Moves s (.removeCallOut env idx sends, o) s'
  | ran {idx f o s'} : s.calloutFunc idx = some f → (o = .started idx ∨ o = .raised) →
      s'.callIndex = s.callIndex →
      s'.calloutFunc =
        (if f.callType = .normal then Function.update s.calloutFunc f.idx none
          else s.calloutFunc) →
      Moves s (.callout idx, o) s'
  | quiet {e o s'} : returnedAt (e, o) = none → startedAt (e, o) = none → ranAt (e, o) = none →
      (∀ env idx sends, e ≠ .removeCallOut env idx sends) → s.callIndex ≤ s'.callIndex →
      s'.calloutFunc = s.calloutFunc → Moves s (e, o) s'

theorem callOutBy_moves {e : Event} {env : Nat} {func : Option String} {checked sends : Bool}
    {callType : CallType} {message : Nat → Message}
    (once : ∀ idx m, callType = .normal ↔ onceAt (e, .returned idx m) ≠ none)
    (kind : (∀ env idx sends, e ≠ .removeCallOut env idx sends) ∧ ∀ idx, e ≠ .callout idx) :
    s.Moves (e, (s.callOutBy env func checked callType sends message).2)
      (s.callOutBy env func checked callType sends message).1 := by
  have never : ∀ o, ranAt (e, o) = none := by
    intro o
    simp only [ranAt]
    split
    · rename_i idx _ h
      cases h
      exact absurd rfl (kind.2 idx)
    · rename_i idx h
      cases h
      exact absurd rfl (kind.2 idx)
    · rfl
  have raises : ∀ t : State, s.callIndex ≤ t.callIndex → t.calloutFunc = s.calloutFunc →
      s.Moves (e, .raised) t :=
    fun t index funcs => .quiet rfl rfl (never _) kind.1 index funcs
  simp only [callOutBy]
  split
  · split
    · simp only [register]
      split
      · exact .registered rfl (once _ _) rfl rfl kind.1 (never _)
      · exact raises _ (Nat.le_succ _) rfl
    · exact raises s (Nat.le_refl _) rfl
  · exact raises s (Nat.le_refl _) rfl

theorem handle_moves (s : State) (e : Event) : s.Moves (e, (s.handle e).2) (s.handle e).1 := by
  cases e with
  | callOut env func timeOut sends => exact callOutBy_moves (by simp [onceAt]) (by simp)
  | callFre env func freqency sends => exact callOutBy_moves (by simp [onceAt]) (by simp)
  | daily env hour min sec func sends => exact callOutBy_moves (by simp [onceAt]) (by simp)
  | removeCallOut env idx sends =>
      simp only [handle]
      split
      · split
        · exact .removed rfl rfl rfl rfl
        · exact .removed rfl rfl rfl rfl
      · exact .removed rfl rfl rfl rfl
  | callout callIdx =>
      simp only [handle, dispatch]
      cases found : s.calloutFunc callIdx with
      | none => exact .quiet rfl rfl rfl (by simp) (Nat.le_refl _) rfl
      | some f =>
          by_cases normal : f.callType = .normal
          · simp only [normal, if_true]
            split
            · exact .ran found (.inl rfl) rfl (by simp [normal, clearTimer])
            · exact .ran found (.inr rfl) rfl (by simp [normal, clearTimer])
          · simp only [normal, if_false]
            split
            · exact .ran found (.inl rfl) rfl (by simp [normal])
            · exact .ran found (.inr rfl) rfl (by simp [normal])
  | ended idx returns => exact .quiet rfl rfl rfl (by simp) (Nat.le_refl _) rfl
  | define env func isFunction => exact .quiet rfl rfl rfl (by simp) (Nat.le_refl _) rfl

theorem handle_of_step {e : Event} {o : Output} (h : s.step e = some (s', o)) :
    s.handle e = (s', o) := by
  cases e with
  | ended idx returns =>
      simp only [step] at h
      split at h
      · exact Option.some.inj h
      · cases h
  | _ => exact Option.some.inj h

theorem step_moves {e : Event} {o : Output} (h : s.step e = some (s', o)) :
    s.Moves (e, o) s' := by
  have moves := s.handle_moves e
  rwa [handle_of_step h] at moves

end State

section
variable {trace : Trace} {x : Event × Output} {idx : Nat} {s s' : State}

theorem returned_concat : returned (trace ++ [x]) = returned trace ++ (returnedAt x).toList :=
  Machine.filterMap_concat returnedAt trace x

theorem onces_concat : onces (trace ++ [x]) = onces trace ++ (onceAt x).toList :=
  Machine.filterMap_concat onceAt trace x

theorem starts_concat : starts (trace ++ [x]) = starts trace ++ (startedAt x).toList :=
  Machine.filterMap_concat startedAt trace x

theorem ran_concat : ran (trace ++ [x]) = ran trace ++ (ranAt x).toList :=
  Machine.filterMap_concat ranAt trace x

theorem returnedAt_of_onceAt (h : onceAt x = some idx) : returnedAt x = some idx := by
  simp only [onceAt] at h
  split at h
  · exact h
  · cases h

theorem returned_of_onces (h : idx ∈ onces trace) : idx ∈ returned trace := by
  obtain ⟨x, mem, once⟩ := List.mem_filterMap.1 h
  exact List.mem_filterMap.2 ⟨x, mem, returnedAt_of_onceAt once⟩

theorem Removed.returned (h : Removed trace idx) : idx ∈ returned trace := by
  obtain ⟨pre, env, sends, o, post, rfl, mem⟩ := h
  rw [Client.returned, List.filterMap_append]
  exact List.mem_append_left _ mem

theorem Removed.of_concat (h : Removed (trace ++ [x]) idx) :
    Removed trace idx ∨ ∃ env sends, x.1 = .removeCallOut env idx sends := by
  obtain ⟨pre, env, sends, o, post, split, mem⟩ := h
  rcases Machine.split_concat split with ⟨post', rfl, rfl⟩ | ⟨_, _, rfl⟩
  · exact .inl ⟨pre, env, sends, o, post', rfl, mem⟩
  · exact .inr ⟨env, sends, rfl⟩

/-- What a closure under an index tells about the run. -/
structure Live (trace : Trace) (idx : Nat) (f : RealFunc) : Prop where
  idx_eq : f.idx = idx
  returned : idx ∈ returned trace
  notRemoved : ¬ Removed trace idx
  once : f.callType = .normal ↔ idx ∈ onces trace
  notRan : f.callType = .normal → idx ∉ ran trace

theorem Live.concat {f : RealFunc} (live : Live trace idx f)
    (kept : ∀ env sends, x.1 ≠ .removeCallOut env idx sends) (once : onceAt x ≠ some idx)
    (ran : f.callType = .normal → ranAt x ≠ some idx) : Live (trace ++ [x]) idx f where
  idx_eq := live.idx_eq
  returned := by
    rw [returned_concat]
    exact List.mem_append_left _ live.returned
  notRemoved := by
    intro removed
    cases removed.of_concat with
    | inl old => exact live.notRemoved old
    | inr now =>
        obtain ⟨env, sends, h⟩ := now
        exact kept env sends h
  once := by
    rw [onces_concat, List.mem_append, live.once, Option.mem_toList]
    exact ⟨.inl, fun h => h.resolve_right once⟩
  notRan := by
    intro normal mem
    rw [ran_concat, List.mem_append, Option.mem_toList] at mem
    exact mem.elim (live.notRan normal) (ran normal)

/-- The invariant of the client. -/
structure Sound (trace : Trace) (s : State) : Prop where
  bound : ∀ idx ∈ returned trace, idx ≤ s.callIndex
  live : ∀ idx f, s.calloutFunc idx = some f → Live trace idx f
  known : ∀ idx ∈ ran trace, idx ∈ returned trace
  started : ∀ idx ∈ starts trace, idx ∈ ran trace
  distinct : (returned trace).Nodup
  once : ∀ idx ∈ onces trace, (starts trace).count idx ≤ 1
  removed : ∀ pre env idx sends o post,
    trace = pre ++ (.removeCallOut env idx sends, o) :: post → idx ∈ returned pre →
      idx ∉ starts post

/-- No removed index has started, unless one starts now. -/
theorem Sound.removed_concat (sound : Sound trace s)
    (h : ∀ idx, startedAt x = some idx → ¬ Removed trace idx) :
    ∀ pre env idx sends o post,
      trace ++ [x] = pre ++ (.removeCallOut env idx sends, o) :: post → idx ∈ returned pre →
        idx ∉ starts post := by
  intro pre env idx sends o post split mem
  rcases Machine.split_concat split with ⟨post', rfl, rfl⟩ | ⟨rfl, _, _⟩
  · rw [starts_concat, List.mem_append, Option.mem_toList]
    rintro (old | now)
    · exact sound.removed pre env idx sends o post' rfl mem old
    · exact h idx now ⟨pre, env, sends, o, post', rfl, mem⟩
  · exact List.not_mem_nil

theorem Sound.silent (sound : Sound trace s) (noReturn : returnedAt x = none)
    (noStart : startedAt x = none) (noRun : ranAt x = none) (index : s.callIndex ≤ s'.callIndex)
    (live : ∀ idx f, s'.calloutFunc idx = some f → Live (trace ++ [x]) idx f) :
    Sound (trace ++ [x]) s' := by
  have noOnce : onceAt x = none := by
    cases h : onceAt x with
    | none => rfl
    | some idx => exact absurd (returnedAt_of_onceAt h) (by simp [noReturn])
  have returned_eq : returned (trace ++ [x]) = returned trace :=
    Machine.filterMap_concat_none noReturn
  have ran_eq : ran (trace ++ [x]) = ran trace :=
    Machine.filterMap_concat_none noRun
  have starts_eq : starts (trace ++ [x]) = starts trace :=
    Machine.filterMap_concat_none noStart
  have onces_eq : onces (trace ++ [x]) = onces trace :=
    Machine.filterMap_concat_none noOnce
  exact
    { bound := by
        intro idx mem
        rw [returned_eq] at mem
        exact Nat.le_trans (sound.bound idx mem) index
      live := live
      known := by
        rw [ran_eq, returned_eq]
        exact sound.known
      started := by
        rw [starts_eq, ran_eq]
        exact sound.started
      distinct := by
        rw [returned_eq]
        exact sound.distinct
      once := by
        rw [onces_eq, starts_eq]
        exact sound.once
      removed := sound.removed_concat (by simp [noStart]) }

/-- A callback that runs gives up the closure of a timer that fires once. -/
theorem Sound.live_afterRun {f : RealFunc} {o : Output} (sound : Sound trace s)
    (found : s.calloutFunc idx = some f) (noOnce : onceAt (.callout idx, o) = none)
    (runs : ranAt (.callout idx, o) = some idx)
    (funcs : s'.calloutFunc =
      if f.callType = .normal then Function.update s.calloutFunc f.idx none else s.calloutFunc)
    (idx' : Nat) (f' : RealFunc) (found' : s'.calloutFunc idx' = some f') :
    Live (trace ++ [(.callout idx, o)]) idx' f' := by
  have live := sound.live idx f found
  by_cases same : idx' = idx
  · subst same
    by_cases normal : f.callType = .normal
    · rw [funcs, if_pos normal, live.idx_eq, Function.update_self] at found'
      cases found'
    · rw [funcs, if_neg normal, found] at found'
      cases found'
      exact live.concat (by simp) (by simp [noOnce]) fun h => absurd h normal
  · have old : s.calloutFunc idx' = some f' := by
      rw [funcs, live.idx_eq] at found'
      split at found'
      · rwa [Function.update_of_ne same] at found'
      · exact found'
    refine (sound.live idx' f' old).concat (by simp) (by simp [noOnce]) ?_
    intro _ h
    rw [runs] at h
    exact same (Option.some.inj h).symm

theorem Sound.once_afterRun {f : RealFunc} (sound : Sound trace s) (live : Live trace idx f)
    (start : ∀ idx', startedAt x = some idx' → idx' = idx) {idx' : Nat}
    (mem : idx' ∈ onces trace) : (starts (trace ++ [x])).count idx' ≤ 1 := by
  rw [starts_concat, List.count_append]
  cases now : startedAt x with
  | none => simpa using sound.once idx' mem
  | some k =>
      rw [start k now]
      by_cases same : idx' = idx
      · subst same
        have fresh : idx' ∉ starts trace := fun h =>
          live.notRan (live.once.2 mem) (sound.started idx' h)
        simp [List.count_eq_zero.2 fresh]
      · simpa [List.count_eq_zero, Ne.symm same] using sound.once idx' mem

theorem Sound.afterRun {f : RealFunc} {o : Output} (sound : Sound trace s)
    (found : s.calloutFunc idx = some f) (ho : o = .started idx ∨ o = .raised)
    (index : s'.callIndex = s.callIndex)
    (funcs : s'.calloutFunc =
      if f.callType = .normal then Function.update s.calloutFunc f.idx none else s.calloutFunc) :
    Sound (trace ++ [(.callout idx, o)]) s' := by
  have live := sound.live idx f found
  have noReturn : returnedAt (.callout idx, o) = none := by
    rcases ho with rfl | rfl <;> rfl
  have noOnce : onceAt (.callout idx, o) = none := by
    rcases ho with rfl | rfl <;> rfl
  have runs : ranAt (.callout idx, o) = some idx := by
    rcases ho with rfl | rfl <;> rfl
  have start : ∀ idx', startedAt (.callout idx, o) = some idx' → idx' = idx := by
    rcases ho with rfl | rfl
    · intro idx' h
      exact (Option.some.inj h).symm
    · intro idx' h
      cases h
  have returned_eq : returned (trace ++ [(.callout idx, o)]) = returned trace :=
    Machine.filterMap_concat_none noReturn
  have onces_eq : onces (trace ++ [(.callout idx, o)]) = onces trace :=
    Machine.filterMap_concat_none noOnce
  have ran_eq : ran (trace ++ [(.callout idx, o)]) = ran trace ++ [idx] := by
    rw [ran_concat, runs, Option.toList_some]
  exact
    { bound := by
        rw [returned_eq, index]
        exact sound.bound
      live := sound.live_afterRun found noOnce runs funcs
      known := by
        intro idx' mem
        rw [ran_eq, List.mem_append, List.mem_singleton] at mem
        rw [returned_eq]
        rcases mem with old | rfl
        · exact sound.known idx' old
        · exact live.returned
      started := by
        intro idx' mem
        rw [starts_concat, List.mem_append, Option.mem_toList] at mem
        rw [ran_eq, List.mem_append, List.mem_singleton]
        exact mem.imp (sound.started idx') (start idx')
      distinct := by
        rw [returned_eq]
        exact sound.distinct
      once := by
        intro idx' mem
        rw [onces_eq] at mem
        exact sound.once_afterRun live start mem
      removed := by
        apply sound.removed_concat
        intro idx' now
        rw [start idx' now]
        exact live.notRemoved }

/-- The next index has not been given out. -/
theorem Sound.fresh (sound : Sound trace s) : s.callIndex + 1 ∉ returned trace := by
  intro mem
  exact absurd (sound.bound _ mem) (by omega)

/-- A closure that is registered under the next index. -/
theorem Sound.liveRegistered {e : Event} {m : Message} {f : RealFunc} (sound : Sound trace s)
    (idx_eq : f.idx = s.callIndex + 1)
    (normal : f.callType = .normal ↔ onceAt (e, .returned (s.callIndex + 1) m) ≠ none)
    (kind : ∀ env idx sends, e ≠ .removeCallOut env idx sends)
    (noRun : ranAt (e, .returned (s.callIndex + 1) m) = none) :
    Live (trace ++ [(e, .returned (s.callIndex + 1) m)]) (s.callIndex + 1) f where
  idx_eq := idx_eq
  returned := by
    rw [returned_concat, List.mem_append]
    exact .inr (List.mem_singleton_self _)
  notRemoved := by
    intro removed
    cases removed.of_concat with
    | inl old => exact sound.fresh old.returned
    | inr now =>
        obtain ⟨env, sends, h⟩ := now
        exact kind _ _ _ h
  once := by
    have notOnce : s.callIndex + 1 ∉ onces trace := fun mem =>
      sound.fresh (returned_of_onces mem)
    rw [normal, onces_concat, List.mem_append, Option.mem_toList]
    constructor
    · intro some
      obtain ⟨k, hk⟩ := Option.ne_none_iff_exists'.1 some
      rw [(Option.some.inj (returnedAt_of_onceAt hk)).symm] at hk
      exact .inr hk
    · intro mem
      cases mem with
      | inl old => exact absurd old notOnce
      | inr now => simp [now]
  notRan := by
    intro _ mem
    rw [show ran (trace ++ [(e, .returned (s.callIndex + 1) m)]) = ran trace from
      Machine.filterMap_concat_none noRun] at mem
    exact sound.fresh (sound.known _ mem)

theorem Sound.afterRegister {e : Event} {m : Message} {f : RealFunc} (sound : Sound trace s)
    (idx_eq : f.idx = s.callIndex + 1)
    (normal : f.callType = .normal ↔ onceAt (e, .returned (s.callIndex + 1) m) ≠ none)
    (index : s'.callIndex = s.callIndex + 1)
    (funcs : s'.calloutFunc = Function.update s.calloutFunc (s.callIndex + 1) (some f))
    (kind : ∀ env idx sends, e ≠ .removeCallOut env idx sends)
    (noRun : ranAt (e, .returned (s.callIndex + 1) m) = none) :
    Sound (trace ++ [(e, .returned (s.callIndex + 1) m)]) s' := by
  have notStarted : s.callIndex + 1 ∉ starts trace := fun mem =>
    sound.fresh (sound.known _ (sound.started _ mem))
  have once : ∀ idx, onceAt (e, .returned (s.callIndex + 1) m) = some idx →
      idx = s.callIndex + 1 := by
    intro idx h
    exact (Option.some.inj (returnedAt_of_onceAt h)).symm
  have returned_eq : returned (trace ++ [(e, .returned (s.callIndex + 1) m)]) =
      returned trace ++ [s.callIndex + 1] := returned_concat
  have ran_eq : ran (trace ++ [(e, .returned (s.callIndex + 1) m)]) = ran trace :=
    Machine.filterMap_concat_none noRun
  have starts_eq : starts (trace ++ [(e, .returned (s.callIndex + 1) m)]) = starts trace :=
    Machine.filterMap_concat_none rfl
  exact
    { bound := by
        intro idx mem
        rw [returned_eq, List.mem_append, List.mem_singleton] at mem
        rw [index]
        rcases mem with old | rfl
        · exact Nat.le_succ_of_le (sound.bound idx old)
        · exact Nat.le_refl _
      live := by
        intro idx f' found
        rw [funcs] at found
        by_cases same : idx = s.callIndex + 1
        · subst same
          rw [Function.update_self] at found
          cases found
          exact sound.liveRegistered idx_eq normal kind noRun
        · rw [Function.update_of_ne same] at found
          refine (sound.live idx f' found).concat (fun _ _ => kind _ _ _) ?_ ?_
          · intro h
            exact same (once idx h)
          · intro _
            simp [noRun]
      known := by
        intro idx mem
        rw [ran_eq] at mem
        rw [returned_eq]
        exact List.mem_append_left _ (sound.known idx mem)
      started := by
        rw [starts_eq, ran_eq]
        exact sound.started
      distinct := by
        rw [returned_eq]
        exact sound.distinct.append (List.nodup_singleton _) (by simpa using sound.fresh)
      once := by
        intro idx mem
        rw [starts_eq]
        rw [onces_concat, List.mem_append, Option.mem_toList] at mem
        rcases mem with old | now
        · exact sound.once idx old
        · rw [once idx now, List.count_eq_zero.2 notStarted]
          exact Nat.zero_le 1
      removed := by
        apply sound.removed_concat
        intro idx now
        cases now }

theorem Sound.moves (sound : Sound trace s) (moves : s.Moves x s') : Sound (trace ++ [x]) s' := by
  cases moves with
  | registered idx_eq normal index funcs kind noRun =>
      exact sound.afterRegister idx_eq normal index funcs kind noRun
  | @removed env idx sends o _ noReturn noStart index funcs =>
      have noOnce : onceAt (.removeCallOut env idx sends, o) = none := rfl
      refine sound.silent noReturn noStart rfl (Nat.le_of_eq index.symm) ?_
      intro idx' f found
      have ne : idx' ≠ idx := by
        rintro rfl
        rw [funcs, Function.update_self] at found
        cases found
      rw [funcs, Function.update_of_ne ne] at found
      refine (sound.live idx' f found).concat ?_ (by simp [noOnce]) fun _ => by simp [ranAt]
      intro env' sends' h
      cases h
      exact ne rfl
  | ran found ho index funcs => exact sound.afterRun found ho index funcs
  | @quiet e o _ noReturn noStart noRun kind index funcs =>
      refine sound.silent noReturn noStart noRun index ?_
      intro idx f found
      rw [funcs] at found
      refine (sound.live idx f found).concat (fun _ _ => kind _ _ _) ?_ fun _ => by simp [noRun]
      intro h
      exact absurd (returnedAt_of_onceAt h) (by simp [noReturn])

theorem sound_of_reach {functions : Nat → String → Bool}
    (reach : (machine functions).Reach trace s) : Sound trace s := by
  apply Machine.Reach.invariant Sound ?_ ?_ reach
  · exact
      { bound := by simp [returned]
        live := by simp [machine]
        known := by simp [ran]
        started := by simp [starts]
        distinct := List.nodup_nil
        once := by simp [onces]
        removed := by simp }
  · intro trace s e s' o sound step
    exact sound.moves (State.step_moves step)

theorem Sound.not_finished (sound : Sound trace s) {f : RealFunc}
    (found : s.calloutFunc idx = some f) : ¬ Finished trace idx := by
  have live := sound.live idx f found
  rintro (unknown | removed | ran)
  · exact unknown live.returned
  · exact live.notRemoved removed
  · exact live.notRan (live.once.2 ran.1) ran.2

theorem timers_safe {functions : Nat → String → Bool}
    (reach : (machine functions).Reach trace s) :
    (returned trace).Nodup ∧
      (∀ idx ∈ onces trace, (starts trace).count idx ≤ 1) ∧
      (∀ pre env idx sends o post,
        trace = pre ++ (.removeCallOut env idx sends, o) :: post → idx ∈ returned pre →
          idx ∉ starts post) ∧
      ∀ idx, Finished trace idx → s.step (.callout idx) = some (s, .nothing) := by
  have sound := sound_of_reach reach
  refine ⟨sound.distinct, sound.once, sound.removed, ?_⟩
  intro idx finished
  cases found : s.calloutFunc idx with
  | none => simp only [State.step, State.handle, State.dispatch, found]
  | some f => exact absurd finished (sound.not_finished found)

/-- A second message for a `CallOut` that ran is ignored. -/
theorem timers_safe_run :
    ∃ trace s, (machine fun _ _ => true).Reach trace s ∧ returned trace = [1] ∧
      starts trace = [1] ∧ s.step (.callout 1) = some (s, .nothing) := by
  have registered := Machine.Reach.init.next
    (show (machine fun _ _ => true).step _ (.callOut 7 (some "heartbeat") (.int 5) true) =
      some (_, .returned 1 (.callOnce 1 (.int 5))) from rfl)
  have started := registered.next
    (show (machine fun _ _ => true).step _ (.callout 1) = some (_, .started 1) from rfl)
  refine ⟨_, _, started, rfl, rfl, (timers_safe started).2.2.2 1 ?_⟩
  exact .inr (.inr ⟨by simp [onces, onceAt], by simp [ran, ranAt]⟩)

end

end Client

end Qiuqiu.Timer
