import Qiuqiu.Base.Machine
import Qiuqiu.Database.Cache

/-!
One cycle of the periodic save of service/databasecell/dbsave.lua: from the
snapshot one `CacheSaveTimer` takes to the snapshot of the next. In between
`CacheFrameTimer` ticks drain the three work sets, and the next
`CacheSaveTimer` flushes the rest before it takes its own snapshot. Every save
may suspend its coroutine, so ticks overlap with each other and with the
flush. `Invalid` is not set before `closedb`.
-/
namespace Qiuqiu.Database
namespace SaveCycle

inductive Kind where
  | urs
  | uid
  | mod
  deriving DecidableEq

/-- A call of `real_list_setdata_ptrq`, `real_role_setdata_ptrq` or
`real_mod_setdata_ptrq`, by `fn`; `origin` is the kind of work set its key was
taken from. -/
structure Call where
  fn : Kind
  origin : Kind
  key : String
  act : Option String
  isdelCache : Bool
  deriving DecidableEq

/-- Where a `CacheFrameTimer` coroutine stands; `left` counts the rounds its
loop has to go. -/
inductive Tick where
  | idle
  | urs (left : Nat)
  | uid (left : Nat)
  | acts (uid : String) (rest : List String) (left : Nat)
  | mod (left : Nat)

/-- What `CacheFrameTimer(true)` has left of the three tables it took over:
first the urs, then the activities of each uid in turn, then the mods. -/
structure Work where
  urs : List String
  uid : String
  acts : List String
  uids : List String
  mods : List String

/-- Where the next `CacheSaveTimer` stands in its flush. -/
inductive Flush where
  | waiting
  | running (work : Work)
  | flushed

structure State where
  cacheSaveUrs : List String
  cacheSaveUid : List String
  cacheSaveMod : List String
  delCacheSaveUrs : List String
  delCacheSaveUid : List String
  delCacheSaveMod : List String
  cacheFrameUrsSavecnt : Nat
  cacheFrameUidSavecnt : Nat
  cacheFrameModSavecnt : Nat
  /-- `GetCacheUidActList`. -/
  actList : String → List String
  ticks : Nat → Tick
  flush : Flush
  calls : List Call

/-- An activity is only ever added in between: saving a role evicts nothing. -/
inductive Event where
  | tick (i : Nat)
  | go (i : Nat) (key : String)
  | cacheSaveTimer
  | goFlush
  | addActivity (uid act : String)

/-- `_PopCache`: nil from an empty table, else some key of it, the one `pairs`
happens to give first. -/
def popCache (cache : List String) (key : String) : Option (Option String × List String) :=
  if cache = [] then some (none, [])
  else if key ∈ cache then some (some key, cache.erase key)
  else none

namespace State
variable (s : State)

def setTick (i : Nat) (t : Tick) : State := { s with ticks := Function.update s.ticks i t }

/-- `real_list_setdata_ptrq(urs, DelCacheSaveUrs[urs])`. -/
def listCall (urs : String) : Call := ⟨.urs, .urs, urs, none, decide (urs ∈ s.delCacheSaveUrs)⟩

def roleCall (uid act : String) : Call :=
  ⟨.uid, .uid, uid, some act, decide (uid ∈ s.delCacheSaveUid)⟩

def modCall (origin : Kind) (mod : String) : Call :=
  ⟨.mod, origin, mod, none, decide (mod ∈ s.delCacheSaveMod)⟩

def call (c : Call) : State := { s with calls := s.calls ++ [c] }

/-- `CacheFrameTimer()` from one point where it may be suspended to the next.
Its last loop takes its keys from `CacheSaveUid`. -/
def goTick (i : Nat) (key : String) : Option State :=
  match s.ticks i with
  | .idle => none
  | .urs 0 => some (s.setTick i (.uid s.cacheFrameUidSavecnt))
  | .urs (left + 1) =>
      match popCache s.cacheSaveUrs key with
      | none => none
      | some (none, _) => some (s.setTick i (.uid s.cacheFrameUidSavecnt))
      | some (some urs, rest) =>
          some (({ s with cacheSaveUrs := rest }.call (s.listCall urs)).setTick i (.urs left))
  | .uid 0 => some (s.setTick i (.mod s.cacheFrameModSavecnt))
  | .uid (left + 1) =>
      match popCache s.cacheSaveUid key with
      | none => none
      | some (none, _) => some (s.setTick i (.mod s.cacheFrameModSavecnt))
      | some (some uid, rest) =>
          some ({ s with cacheSaveUid := rest }.setTick i (.acts uid (s.actList uid) left))
  | .acts _ [] left => some (s.setTick i (.uid left))
  | .acts uid (act :: rest) left =>
      some ((s.call (s.roleCall uid act)).setTick i (.acts uid rest left))
  | .mod 0 => some (s.setTick i .idle)
  | .mod (left + 1) =>
      match popCache s.cacheSaveUid key with
      | none => none
      | some (none, _) => some (s.setTick i .idle)
      | some (some mod, rest) =>
          some (({ s with cacheSaveUid := rest }.call (s.modCall .uid mod)).setTick i (.mod left))

def setFlush (f : Flush) : State := { s with flush := f }

/-- `CacheFrameTimer(true)` up to its next save. -/
def goWork (work : Work) : State :=
  match work.urs with
  | urs :: rest => (s.call (s.listCall urs)).setFlush (.running { work with urs := rest })
  | [] =>
      match work.acts with
      | act :: rest =>
          (s.call (s.roleCall work.uid act)).setFlush (.running { work with acts := rest })
      | [] =>
          match work.uids with
          | uid :: rest => s.setFlush
              (.running { work with uid := uid, acts := s.actList uid, uids := rest })
          | [] =>
              match work.mods with
              | mod :: rest =>
                  (s.call (s.modCall .mod mod)).setFlush (.running { work with mods := rest })
              | [] => s.setFlush .flushed

def addActivity (uid act : String) : State :=
  let acts := if act ∈ s.actList uid then s.actList uid else s.actList uid ++ [act]
  { s with actList := Function.update s.actList uid acts }

def step : Event → Option (State × Unit)
  | .tick i =>
      match s.ticks i with
      | .idle => some (s.setTick i (.urs s.cacheFrameUrsSavecnt), ())
      | _ => none
  | .go i key => (s.goTick i key).map fun s' => (s', ())
  | .cacheSaveTimer =>
      match s.flush with
      | .waiting => some ({ s with
          flush := .running ⟨s.cacheSaveUrs, "", [], s.cacheSaveUid, s.cacheSaveMod⟩
          cacheSaveUrs := []
          cacheSaveUid := []
          cacheSaveMod := [] }, ())
      | _ => none
  | .goFlush =>
      match s.flush with
      | .running work => some (s.goWork work, ())
      | _ => none
  | .addActivity uid act => some (s.addActivity uid act, ())

end State

/-- `math.ceil(cnt / CACHE_SAVE_SECTIME)`. -/
def perTick (cnt sectime : Nat) : Nat := (cnt + sectime - 1) / sectime

/-- The state the first `CacheSaveTimer` leaves, with ticks that may still be
running from before. -/
def snapshot {Md5 : Type} (c : Dbcache Md5) (databaseCachecnt sectime : Nat) (ticks : Nat → Tick) :
    State :=
  let urs := c.getAllCacheUrs databaseCachecnt
  let uid := c.getAllCacheUid databaseCachecnt
  let mod := c.getAllCacheMod
  { cacheSaveUrs := urs.1
    cacheSaveUid := uid.1
    cacheSaveMod := mod.1
    delCacheSaveUrs := urs.2.1
    delCacheSaveUid := uid.2.1
    delCacheSaveMod := mod.2.1
    cacheFrameUrsSavecnt := perTick urs.2.2 sectime
    cacheFrameUidSavecnt := perTick uid.2.2 sectime
    cacheFrameModSavecnt := perTick mod.2.2 sectime
    actList := fun uid => (c.getCacheUidActList (.string uid)).getD []
    ticks := ticks
    flush := .waiting
    calls := [] }

def machine (start : State) : Machine State Event Unit where
  init := start
  step := State.step

/-- The tick has the activity still to save. -/
def Tick.Has (t : Tick) (uid act : String) : Prop :=
  ∃ rest left, t = .acts uid rest left ∧ act ∈ rest

/-- What a tick can do in one go. -/
inductive TickStep (s : State) (i : Nat) : State → Prop
  | move (t : Tick) : (∀ uid act, ¬ (s.ticks i).Has uid act) → TickStep s i (s.setTick i t)
  | urs (urs : String) (left : Nat) : urs ∈ s.cacheSaveUrs → s.ticks i = .urs (left + 1) →
      TickStep s i
        (({ s with cacheSaveUrs := s.cacheSaveUrs.erase urs }.call (s.listCall urs)).setTick i
          (.urs left))
  | uid (uid : String) (left : Nat) : uid ∈ s.cacheSaveUid → s.ticks i = .uid (left + 1) →
      TickStep s i ({ s with cacheSaveUid := s.cacheSaveUid.erase uid }.setTick i
        (.acts uid (s.actList uid) left))
  | act (uid act : String) (rest : List String) (left : Nat) :
      s.ticks i = .acts uid (act :: rest) left →
      TickStep s i ((s.call (s.roleCall uid act)).setTick i (.acts uid rest left))
  | mod (uid : String) (left : Nat) : uid ∈ s.cacheSaveUid → s.ticks i = .mod (left + 1) →
      TickStep s i
        (({ s with cacheSaveUid := s.cacheSaveUid.erase uid }.call (s.modCall .uid uid)).setTick i
          (.mod left))

theorem popCache_some {cache rest : List String} {key k : String}
    (h : popCache cache key = some (some k, rest)) : k ∈ cache ∧ rest = cache.erase k := by
  simp only [popCache] at h
  split at h
  · cases h
  · split at h
    · cases h
      exact ⟨by assumption, rfl⟩
    · cases h

theorem goTick_cases {s s' : State} {i : Nat} {key : String} (h : s.goTick i key = some s') :
    TickStep s i s' := by
  simp only [State.goTick] at h
  split at h
  · cases h
  · rename_i pc
    cases h
    exact .move _ (by simp [pc, Tick.Has])
  · rename_i left pc
    split at h
    · cases h
    · cases h
      exact .move _ (by simp [pc, Tick.Has])
    · rename_i pop
      cases h
      obtain ⟨mem, rfl⟩ := popCache_some pop
      exact .urs _ left mem pc
  · rename_i pc
    cases h
    exact .move _ (by simp [pc, Tick.Has])
  · rename_i left pc
    split at h
    · cases h
    · cases h
      exact .move _ (by simp [pc, Tick.Has])
    · rename_i pop
      cases h
      obtain ⟨mem, rfl⟩ := popCache_some pop
      exact .uid _ left mem pc
  · rename_i pc
    cases h
    exact .move _ (by simp [pc, Tick.Has])
  · rename_i pc
    cases h
    exact .act _ _ _ _ pc
  · rename_i pc
    cases h
    exact .move _ (by simp [pc, Tick.Has])
  · rename_i left pc
    split at h
    · cases h
    · cases h
      exact .move _ (by simp [pc, Tick.Has])
    · rename_i pop
      cases h
      obtain ⟨mem, rfl⟩ := popCache_some pop
      exact .mod _ left mem pc

/-- What the flush can do in one go. -/
inductive FlushStep (s : State) (work : Work) : State → Prop
  | urs (urs : String) (rest : List String) : work.urs = urs :: rest → FlushStep s work
      ((s.call (s.listCall urs)).setFlush (.running { work with urs := rest }))
  | act (act : String) (rest : List String) : work.acts = act :: rest → FlushStep s work
      ((s.call (s.roleCall work.uid act)).setFlush (.running { work with acts := rest }))
  | uid (uid : String) (rest : List String) : work.acts = [] → work.uids = uid :: rest →
      FlushStep s work
        (s.setFlush (.running { work with uid := uid, acts := s.actList uid, uids := rest }))
  | mod (mod : String) (rest : List String) : work.mods = mod :: rest → FlushStep s work
      ((s.call (s.modCall .mod mod)).setFlush (.running { work with mods := rest }))
  | done : work.urs = [] → work.acts = [] → work.uids = [] → work.mods = [] →
      FlushStep s work (s.setFlush .flushed)

theorem goWork_cases (s : State) (work : Work) : FlushStep s work (s.goWork work) := by
  simp only [State.goWork]
  split
  · exact .urs _ _ (by assumption)
  · split
    · exact .act _ _ (by assumption)
    · split
      · exact .uid _ _ (by assumption) (by assumption)
      · split
        · exact .mod _ _ (by assumption)
        · exact .done (by assumption) (by assumption) (by assumption) (by assumption)

namespace Flush

def ursLeft : Flush → List String
  | .running work => work.urs
  | _ => []

def uidLeft : Flush → List String
  | .running work => work.uids
  | _ => []

def modLeft : Flush → List String
  | .running work => work.mods
  | _ => []

def Has (f : Flush) (uid act : String) : Prop :=
  ∃ work, f = .running work ∧ work.uid = uid ∧ act ∈ work.acts

end Flush

section Kept
variable {s s' : State} {urs uid act mod : String}

/-- The key was passed to the save function of its own kind. -/
def State.Called (s : State) (fn : Kind) (key : String) (act : Option String) : Prop :=
  ∃ call ∈ s.calls, call.fn = fn ∧ call.origin = fn ∧ call.key = key ∧ call.act = act

def UrsKept (s : State) (urs : String) : Prop :=
  urs ∈ s.cacheSaveUrs ∨ urs ∈ s.flush.ursLeft ∨ s.Called .urs urs none

def ActKept (s : State) (uid act : String) : Prop :=
  uid ∈ s.cacheSaveUid ∨ uid ∈ s.flush.uidLeft ∨ (∃ i, (s.ticks i).Has uid act) ∨
    s.flush.Has uid act ∨ s.Called .uid uid (some act)

def ModKept (s : State) (mod : String) : Prop :=
  mod ∈ s.cacheSaveMod ∨ mod ∈ s.flush.modLeft ∨ s.Called .mod mod none

theorem Called.mono {fn : Kind} {key : String} {act : Option String} {more : List Call}
    (h : s.Called fn key act) (calls : s'.calls = s.calls ++ more) : s'.Called fn key act := by
  obtain ⟨call, mem, rest⟩ := h
  exact ⟨call, calls ▸ List.mem_append_left more mem, rest⟩

theorem Called.last {call : Call} {fn : Kind} {key : String} {act : Option String}
    (calls : s'.calls = s.calls ++ [call])
    (h : call.fn = fn ∧ call.origin = fn ∧ call.key = key ∧ call.act = act) :
    s'.Called fn key act :=
  ⟨call, calls ▸ List.mem_append_right s.calls List.mem_cons_self, h⟩

/-- A tick that is moved on loses only what it had itself. -/
theorem has_update {ticks : Nat → Tick} {i : Nat} {t : Tick}
    (h : ∃ j, (ticks j).Has uid act) :
    (ticks i).Has uid act ∨ ∃ j, (Function.update ticks i t j).Has uid act := by
  obtain ⟨j, has⟩ := h
  by_cases same : j = i
  · exact .inl (same ▸ has)
  · exact .inr ⟨j, by rwa [Function.update_of_ne same]⟩

/-- A tick takes a uid for a module only while `CacheSaveUid` is not empty. -/
def ok (s : State) : Event → Bool
  | .go i _ =>
      match s.ticks i with
      | .mod (_ + 1) => s.cacheSaveUid.isEmpty
      | _ => true
  | _ => true

theorem tickStep_calls {i : Nat} (h : TickStep s i s') :
    s'.flush = s.flush ∧ s'.actList = s.actList ∧ s'.cacheSaveMod = s.cacheSaveMod ∧
      ∃ more, s'.calls = s.calls ++ more := by
  cases h with
  | move t _ => exact ⟨rfl, rfl, rfl, [], (List.append_nil _).symm⟩
  | urs k left mem pc => exact ⟨rfl, rfl, rfl, _, rfl⟩
  | uid k left mem pc => exact ⟨rfl, rfl, rfl, [], (List.append_nil _).symm⟩
  | act k a rest left pc => exact ⟨rfl, rfl, rfl, _, rfl⟩
  | mod k left mem pc => exact ⟨rfl, rfl, rfl, _, rfl⟩

theorem UrsKept.carry {more : List Call} (kept : UrsKept s urs) (flush : s'.flush = s.flush)
    (calls : s'.calls = s.calls ++ more)
    (popped : urs ∈ s.cacheSaveUrs → UrsKept s' urs) : UrsKept s' urs := by
  cases kept with
  | inl inSet => exact popped inSet
  | inr later =>
      cases later with
      | inl left => exact .inr (.inl (flush ▸ left))
      | inr called => exact .inr (.inr (Called.mono called calls))

theorem tickStep_urs {i : Nat} (h : TickStep s i s') (kept : UrsKept s urs) : UrsKept s' urs := by
  obtain ⟨flush, -, -, more, calls⟩ := tickStep_calls h
  refine kept.carry flush calls ?_
  intro inSet
  cases h with
  | move t _ => exact .inl inSet
  | urs k left mem pc =>
      by_cases same : urs = k
      · exact .inr (.inr (Called.last rfl ⟨rfl, rfl, same.symm, rfl⟩))
      · exact .inl ((List.mem_erase_of_ne same).mpr inSet)
  | uid k left mem pc => exact .inl inSet
  | act k a rest left pc => exact .inl inSet
  | mod k left mem pc => exact .inl inSet

theorem tickStep_mod {i : Nat} (h : TickStep s i s') (kept : ModKept s mod) : ModKept s' mod := by
  obtain ⟨flush, -, set, more, calls⟩ := tickStep_calls h
  rw [ModKept, flush, set]
  exact kept.imp_right (Or.imp_right fun called => Called.mono called calls)

theorem ActKept.carry {i : Nat} {t : Tick} {more : List Call} (kept : ActKept s uid act)
    (flush : s'.flush = s.flush) (calls : s'.calls = s.calls ++ more)
    (ticks : s'.ticks = Function.update s.ticks i t)
    (popped : uid ∈ s.cacheSaveUid → ActKept s' uid act)
    (own : (s.ticks i).Has uid act → ActKept s' uid act) : ActKept s' uid act := by
  cases kept with
  | inl inSet => exact popped inSet
  | inr later =>
      cases later with
      | inl left => exact .inr (.inl (flush ▸ left))
      | inr later =>
          cases later with
          | inl has =>
              cases has_update has with
              | inl here => exact own here
              | inr there => exact .inr (.inr (.inl (ticks ▸ there)))
          | inr later =>
              cases later with
              | inl has => exact .inr (.inr (.inr (.inl (flush ▸ has))))
              | inr called => exact .inr (.inr (.inr (.inr (Called.mono called calls))))

theorem tickStep_act {i : Nat} (h : TickStep s i s') (acts : act ∈ s.actList uid)
    (clean : ∀ left, s.ticks i = .mod (left + 1) → s.cacheSaveUid = [])
    (kept : ActKept s uid act) : ActKept s' uid act := by
  cases h with
  | move t none =>
      exact kept.carry rfl (List.append_nil _).symm rfl Or.inl (fun has => absurd has (none _ _))
  | urs k left mem pc =>
      refine kept.carry rfl rfl rfl Or.inl ?_
      intro has
      simp [pc, Tick.Has] at has
  | uid k left mem pc =>
      refine kept.carry rfl (List.append_nil _).symm rfl ?_ ?_
      · intro inSet
        by_cases same : uid = k
        · refine .inr (.inr (.inl ⟨i, s.actList uid, left, ?_, acts⟩))
          rw [same]
          exact Function.update_self ..
        · exact .inl ((List.mem_erase_of_ne same).mpr inSet)
      · intro has
        simp [pc, Tick.Has] at has
  | act k a rest left pc =>
      refine kept.carry rfl rfl rfl Or.inl ?_
      intro ⟨rest', left', at_, mem⟩
      rw [pc] at at_
      cases at_
      cases mem with
      | head => exact .inr (.inr (.inr (.inr (Called.last rfl ⟨rfl, rfl, rfl, rfl⟩))))
      | tail _ later =>
          exact .inr (.inr (.inl ⟨i, rest, left, Function.update_self .., later⟩))
  | mod k left mem pc =>
      rw [clean left pc] at mem
      cases mem

theorem flushStep_urs {work : Work} (at_ : s.flush = .running work) (h : FlushStep s work s')
    (kept : UrsKept s urs) : UrsKept s' urs := by
  rw [UrsKept, at_] at kept
  cases h with
  | urs k rest left =>
      refine kept.imp_right fun later => ?_
      cases later with
      | inl mem =>
          rw [Flush.ursLeft, left] at mem
          cases mem with
          | head => exact .inr (Called.last rfl ⟨rfl, rfl, rfl, rfl⟩)
          | tail _ mem => exact .inl mem
      | inr called => exact .inr (Called.mono called rfl)
  | act a rest left =>
      exact kept.imp_right (Or.imp_right fun called => Called.mono called rfl)
  | uid k rest none left => exact kept
  | mod k rest left =>
      exact kept.imp_right (Or.imp_right fun called => Called.mono called rfl)
  | done noUrs _ _ _ =>
      refine kept.imp_right (Or.imp_left fun mem => ?_)
      rw [Flush.ursLeft, noUrs] at mem
      cases mem

theorem flushStep_mod {work : Work} (at_ : s.flush = .running work) (h : FlushStep s work s')
    (kept : ModKept s mod) : ModKept s' mod := by
  rw [ModKept, at_] at kept
  cases h with
  | urs k rest left =>
      exact kept.imp_right (Or.imp_right fun called => Called.mono called rfl)
  | act a rest left =>
      exact kept.imp_right (Or.imp_right fun called => Called.mono called rfl)
  | uid k rest none left => exact kept
  | mod k rest left =>
      refine kept.imp_right fun later => ?_
      cases later with
      | inl mem =>
          rw [Flush.modLeft, left] at mem
          cases mem with
          | head => exact .inr (Called.last rfl ⟨rfl, rfl, rfl, rfl⟩)
          | tail _ mem => exact .inl mem
      | inr called => exact .inr (Called.mono called rfl)
  | done _ _ _ noMods =>
      refine kept.imp_right (Or.imp_left fun mem => ?_)
      rw [Flush.modLeft, noMods] at mem
      cases mem

theorem ActKept.carryFlush {more : List Call} (kept : ActKept s uid act)
    (set : s'.cacheSaveUid = s.cacheSaveUid) (ticks : s'.ticks = s.ticks)
    (calls : s'.calls = s.calls ++ more)
    (left : uid ∈ s.flush.uidLeft → ActKept s' uid act)
    (has : s.flush.Has uid act → ActKept s' uid act) : ActKept s' uid act := by
  cases kept with
  | inl inSet => exact .inl (set ▸ inSet)
  | inr later =>
      cases later with
      | inl mem => exact left mem
      | inr later =>
          cases later with
          | inl inTick => exact .inr (.inr (.inl (ticks ▸ inTick)))
          | inr later =>
              cases later with
              | inl here => exact has here
              | inr called => exact .inr (.inr (.inr (.inr (Called.mono called calls))))

theorem flushStep_act {work : Work} (at_ : s.flush = .running work) (h : FlushStep s work s')
    (acts : act ∈ s.actList uid) (kept : ActKept s uid act) : ActKept s' uid act := by
  have now : s.flush.Has uid act → work.uid = uid ∧ act ∈ work.acts := by
    intro ⟨work', eq, same, mem⟩
    rw [at_] at eq
    cases eq
    exact ⟨same, mem⟩
  have left : uid ∈ s.flush.uidLeft → uid ∈ work.uids := by
    rw [at_]
    exact id
  cases h with
  | urs k rest _ =>
      refine kept.carryFlush rfl rfl rfl (fun mem => .inr (.inl (left mem))) (fun has => ?_)
      exact .inr (.inr (.inr (.inl ⟨_, rfl, now has⟩)))
  | act a rest first =>
      refine kept.carryFlush rfl rfl rfl (fun mem => .inr (.inl (left mem))) (fun has => ?_)
      obtain ⟨same, mem⟩ := now has
      rw [first] at mem
      cases mem with
      | head => exact .inr (.inr (.inr (.inr (Called.last rfl ⟨rfl, rfl, same, rfl⟩))))
      | tail _ mem => exact .inr (.inr (.inr (.inl ⟨_, rfl, same, mem⟩)))
  | uid k rest none first =>
      refine kept.carryFlush rfl rfl (List.append_nil _).symm (fun mem => ?_) (fun has => ?_)
      · have mem := left mem
        rw [first] at mem
        cases mem with
        | head => exact .inr (.inr (.inr (.inl ⟨_, rfl, rfl, acts⟩)))
        | tail _ mem => exact .inr (.inl mem)
      · have mem := (now has).2
        rw [none] at mem
        cases mem
  | mod k rest _ =>
      refine kept.carryFlush rfl rfl rfl (fun mem => .inr (.inl (left mem))) (fun has => ?_)
      exact .inr (.inr (.inr (.inl ⟨_, rfl, now has⟩)))
  | done _ noActs noUids _ =>
      refine kept.carryFlush rfl rfl (List.append_nil _).symm (fun mem => ?_) (fun has => ?_)
      · have mem := left mem
        rw [noUids] at mem
        cases mem
      · have mem := (now has).2
        rw [noActs] at mem
        cases mem

end Kept

/-- What a cycle that started in `start` keeps. -/
structure Inv (start s : State) : Prop where
  urs : ∀ urs ∈ start.cacheSaveUrs, UrsKept s urs
  act : ∀ uid ∈ start.cacheSaveUid, ∀ act ∈ start.actList uid, ActKept s uid act
  mod : ∀ mod ∈ start.cacheSaveMod, ModKept s mod
  acts : ∀ uid, ∀ act ∈ start.actList uid, act ∈ s.actList uid
  emptied : s.flush ≠ .waiting →
    s.cacheSaveUrs = [] ∧ s.cacheSaveUid = [] ∧ s.cacheSaveMod = []
  kinds : ∀ call ∈ s.calls, call.fn = call.origin

section Steps
variable {start s s' : State}

theorem Inv.initial (flush : start.flush = .waiting) (calls : start.calls = []) :
    Inv start start where
  urs := fun _ mem => .inl mem
  act := fun _ mem _ _ => .inl mem
  mod := fun _ mem => .inl mem
  acts := fun _ _ mem => mem
  emptied := fun h => absurd flush h
  kinds := by simp [calls]

theorem kinds_append {calls : List Call} {c : Call} (h : ∀ call ∈ calls, call.fn = call.origin)
    (new : c.fn = c.origin) : ∀ call ∈ calls ++ [c], call.fn = call.origin := by
  intro call mem
  rw [List.mem_append, List.mem_singleton] at mem
  cases mem with
  | inl old => exact h call old
  | inr last => rw [last, new]

theorem Inv.tick (inv : Inv start s) {i : Nat} (h : TickStep s i s')
    (clean : ∀ left, s.ticks i = .mod (left + 1) → s.cacheSaveUid = []) : Inv start s' := by
  obtain ⟨flush, actList, -, -⟩ := tickStep_calls h
  refine ⟨fun k mem => tickStep_urs h (inv.urs k mem),
    fun u mem a ha => tickStep_act h (inv.acts u a ha) clean (inv.act u mem a ha),
    fun k mem => tickStep_mod h (inv.mod k mem), ?_, ?_, ?_⟩
  · rw [actList]
    exact inv.acts
  · intro started
    have empty := inv.emptied (flush ▸ started)
    cases h with
    | move t _ => exact empty
    | urs k left mem pc =>
        rw [empty.1] at mem
        cases mem
    | uid k left mem pc =>
        rw [empty.2.1] at mem
        cases mem
    | act k a rest left pc => exact empty
    | mod k left mem pc =>
        rw [empty.2.1] at mem
        cases mem
  · cases h with
    | move t _ => exact inv.kinds
    | urs k left _ pc => exact kinds_append inv.kinds rfl
    | uid k left _ pc => exact inv.kinds
    | act k a rest left pc => exact kinds_append inv.kinds rfl
    | mod k left mem pc =>
        rw [clean left pc] at mem
        cases mem

theorem Inv.flush (inv : Inv start s) {work : Work} (at_ : s.flush = .running work)
    (h : FlushStep s work s') : Inv start s' := by
  have empty := inv.emptied (by simp [at_])
  refine ⟨fun k mem => flushStep_urs at_ h (inv.urs k mem),
    fun u mem a ha => flushStep_act at_ h (inv.acts u a ha) (inv.act u mem a ha),
    fun k mem => flushStep_mod at_ h (inv.mod k mem), ?_, ?_, ?_⟩
  · cases h <;> exact inv.acts
  · intro _
    cases h <;> exact empty
  · cases h with
    | urs k rest _ => exact kinds_append inv.kinds rfl
    | act a rest _ => exact kinds_append inv.kinds rfl
    | uid k rest _ _ => exact inv.kinds
    | mod k rest _ => exact kinds_append inv.kinds rfl
    | done _ _ _ _ => exact inv.kinds

/-- The flush takes over what the ticks have left. -/
theorem Inv.takeOver (inv : Inv start s) (waiting : s.flush = .waiting) :
    Inv start { s with
      flush := .running ⟨s.cacheSaveUrs, "", [], s.cacheSaveUid, s.cacheSaveMod⟩
      cacheSaveUrs := []
      cacheSaveUid := []
      cacheSaveMod := [] } where
  urs := by
    intro k mem
    have kept := inv.urs k mem
    rw [UrsKept, waiting] at kept
    cases kept with
    | inl inSet => exact .inr (.inl inSet)
    | inr later => exact .inr (.inr (later.resolve_left List.not_mem_nil))
  act := by
    intro u mem a ha
    have kept := inv.act u mem a ha
    rw [ActKept, waiting] at kept
    cases kept with
    | inl inSet => exact .inr (.inl inSet)
    | inr later =>
        refine .inr (.inr ((later.resolve_left List.not_mem_nil).imp_right fun rest => ?_))
        refine .inr (rest.resolve_left ?_)
        intro ⟨work, eq, _⟩
        cases eq
  mod := by
    intro k mem
    have kept := inv.mod k mem
    rw [ModKept, waiting] at kept
    cases kept with
    | inl inSet => exact .inr (.inl inSet)
    | inr later => exact .inr (.inr (later.resolve_left List.not_mem_nil))
  acts := inv.acts
  emptied := fun _ => ⟨rfl, rfl, rfl⟩
  kinds := inv.kinds

theorem Inv.addActivity (inv : Inv start s) (uid act : String) :
    Inv start (s.addActivity uid act) := by
  refine ⟨inv.urs, inv.act, inv.mod, ?_, inv.emptied, inv.kinds⟩
  intro u a ha
  have mem := inv.acts u a ha
  simp only [State.addActivity]
  by_cases same : u = uid
  · rw [same, Function.update_self]
    rw [same] at mem
    split
    · exact mem
    · exact List.mem_append_left _ mem
  · rw [Function.update_of_ne same]
    exact mem

theorem Inv.step (inv : Inv start s) {e : Event} (good : ok s e = true)
    (h : s.step e = some (s', ())) : Inv start s' := by
  cases e with
  | tick i =>
      simp only [State.step] at h
      split at h
      · rename_i idle
        cases h
        exact inv.tick (.move _ (by simp [idle, Tick.Has])) (by simp [idle])
      · cases h
  | go i key =>
      simp only [State.step, Option.map_eq_some_iff] at h
      obtain ⟨s1, go, eq⟩ := h
      cases eq
      refine inv.tick (goTick_cases go) ?_
      intro left pc
      simpa [ok, pc] using good
  | cacheSaveTimer =>
      simp only [State.step] at h
      split at h
      · rename_i waiting
        cases h
        exact inv.takeOver waiting
      · cases h
  | goFlush =>
      simp only [State.step] at h
      split at h
      · rename_i work at_
        cases h
        exact inv.flush at_ (goWork_cases s work)
      · cases h
  | addActivity uid act =>
      cases h
      exact inv.addActivity uid act

end Steps

/-- Every key of the snapshot, and every activity cached with it, was passed to
the save function of its kind. -/
structure Covered (start s : State) : Prop where
  urs : ∀ urs ∈ start.cacheSaveUrs, s.Called .urs urs none
  act : ∀ uid ∈ start.cacheSaveUid, ∀ act ∈ start.actList uid, s.Called .uid uid (some act)
  mod : ∀ mod ∈ start.cacheSaveMod, s.Called .mod mod none

/-- In every cycle whose ticks come to their last loop only with `CacheSaveUid`
empty or no round to go, no key is passed to the save function of another
kind; and when the flush is over and no tick has an activity left to save, the
whole snapshot was saved. -/
theorem saveCycle_covers {Md5 : Type} (c : Dbcache Md5) (databaseCachecnt sectime : Nat)
    (ticks : Nat → Tick) {trace : List (Event × Unit)} {s : State}
    (run : ((machine (snapshot c databaseCachecnt sectime ticks)).guard ok).Reach trace s) :
    (∀ call ∈ s.calls, call.fn = call.origin) ∧
      (s.flush = .flushed → (∀ i uid act, ¬ (s.ticks i).Has uid act) →
        Covered (snapshot c databaseCachecnt sectime ticks) s) := by
  have inv : Inv (snapshot c databaseCachecnt sectime ticks) s := by
    refine run.invariant (fun _ s => Inv (snapshot c databaseCachecnt sectime ticks) s) ?_ ?_
    · exact Inv.initial rfl rfl
    · intro _ s e s' _ inv h
      obtain ⟨good, step⟩ := Machine.guard_step h
      exact inv.step good step
  refine ⟨inv.kinds, fun flushed idle => ?_⟩
  have empty := inv.emptied (by simp [flushed])
  refine ⟨fun k mem => ?_, fun u mem a ha => ?_, fun k mem => ?_⟩
  · have kept := inv.urs k mem
    rw [UrsKept, empty.1, flushed] at kept
    exact (kept.resolve_left List.not_mem_nil).resolve_left List.not_mem_nil
  · have kept := inv.act u mem a ha
    rw [ActKept, empty.2.1, flushed] at kept
    have kept := (kept.resolve_left List.not_mem_nil).resolve_left List.not_mem_nil
    have kept := kept.resolve_left fun ⟨i, has⟩ => idle i u a has
    refine kept.resolve_left ?_
    intro ⟨work, eq, _⟩
    cases eq
  · have kept := inv.mod k mem
    rw [ModKept, empty.2.2, flushed] at kept
    exact (kept.resolve_left List.not_mem_nil).resolve_left List.not_mem_nil

/-- A step that does not meet the condition passes a uid to
`real_mod_setdata_ptrq`. -/
theorem step_crosses_kinds {s s' : State} {e : Event} (bad : ok s e = false)
    (h : s.step e = some (s', ())) : ∃ call ∈ s'.calls, call.fn ≠ call.origin := by
  cases e with
  | go i key =>
      simp only [ok] at bad
      split at bad
      · rename_i left pc
        have busy : s.cacheSaveUid ≠ [] := by simpa using bad
        simp only [State.step, State.goTick, pc, popCache, if_neg busy] at h
        by_cases mem : key ∈ s.cacheSaveUid
        · rw [if_pos mem] at h
          cases h
          exact ⟨s.modCall .uid key, List.mem_append_right _ List.mem_cons_self, by
            simp [State.modCall]⟩
        · rw [if_neg mem] at h
          cases h
      · cases bad
  | tick | cacheSaveTimer | goFlush | addActivity => cases bad

/-- The service with one activity of each of these roles and one module. -/
def cached (uids : List String) : Dbcache Unit :=
  (uids.foldl (fun (c : Dbcache Unit) uid => c.addCacheUid uid "data" ⟨0, [7]⟩ 1 1 none)
    .empty).addCacheMod "m" ⟨1, [8]⟩ 1 1

def fresh (uids : List String) : State := snapshot (cached uids) 100 1501 fun _ => .idle

/-- A tick that saves the only role before its last loop, and the flush. -/
def oneRole : List Event :=
  [.tick 0, .go 0 "", .go 0 "u1", .go 0 "", .go 0 "", .go 0 "", .go 0 "",
    .cacheSaveTimer, .goFlush, .goFlush]

theorem saveCycle_covers_oneRole :
    ∃ s, ((machine (fresh ["u1"])).guard ok).exec (fresh ["u1"]) oneRole = some s ∧
      Covered (fresh ["u1"]) s := by
  have view : (((machine (fresh ["u1"])).guard ok).exec (fresh ["u1"]) oneRole).map
      (fun s => (s.flush, s.ticks)) =
        some (.flushed, [.urs 0, .uid 1, .acts "u1" ["data"] 0, .acts "u1" [] 0, .uid 0, .mod 1,
          .idle].foldl (fun ticks t => Function.update ticks 0 t) fun _ => .idle) := rfl
  obtain ⟨s, exec, eq⟩ := Option.map_eq_some_iff.mp view
  obtain ⟨trace, run⟩ := Machine.Reach.init.exec exec
  simp only [Prod.mk.injEq, List.foldl_cons, List.foldl_nil, Function.update_idem,
    Function.update_eq_self] at eq
  refine ⟨s, exec, (saveCycle_covers (cached ["u1"]) 100 1501 (fun _ => .idle) run).2 eq.1 ?_⟩
  intro i uid act
  rw [eq.2]
  intro ⟨rest, left, pc, _⟩
  cases pc

/-- A tick whose last loop `pairs` gives the second role, and the flush. -/
def twoRoles : List Event :=
  [.tick 0, .go 0 "", .go 0 "u1", .go 0 "", .go 0 "", .go 0 "", .go 0 "u2", .go 0 "",
    .cacheSaveTimer, .goFlush, .goFlush]

/-- The second role is passed to `real_mod_setdata_ptrq`, and never saved in
this cycle. -/
theorem saveCycle_loses_second_role :
    ∃ trace s, (machine (fresh ["u1", "u2"])).Reach trace s ∧ s.flush = .flushed ∧
      ¬ (∀ call ∈ s.calls, call.fn = call.origin) ∧ ¬ Covered (fresh ["u1", "u2"]) s := by
  have view : ((machine (fresh ["u1", "u2"])).exec (fresh ["u1", "u2"]) twoRoles).map
      (fun s => (s.flush, s.calls)) =
        some (.flushed, [⟨.uid, .uid, "u1", some "data", false⟩,
          ⟨.mod, .uid, "u2", none, false⟩, ⟨.mod, .mod, "m", none, true⟩]) := rfl
  obtain ⟨s, exec, eq⟩ := Option.map_eq_some_iff.mp view
  obtain ⟨trace, run⟩ := Machine.Reach.init.exec exec
  simp only [Prod.mk.injEq] at eq
  refine ⟨trace, s, run, eq.1, ?_, ?_⟩
  · intro kinds
    have wrong := kinds ⟨.mod, .uid, "u2", none, false⟩ (by simp [eq.2])
    cases wrong
  · intro covered
    obtain ⟨call, mem, fn, _, key, _⟩ := covered.act "u2" (by decide) "data" (by decide)
    rw [eq.2] at mem
    simp only [List.mem_cons, List.not_mem_nil, or_false] at mem
    obtain rfl | rfl | rfl := mem
    · exact absurd key (by decide)
    · cases fn
    · cases fn

end SaveCycle

end Qiuqiu.Database
