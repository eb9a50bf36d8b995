import Qiuqiu.ModuleDb.Restore

/-!
The save cycle of a service. What `SaveAllModule` notes is saved by the frames, by
a direct save, by the flush before the next `SaveAll`, or by the shutdown: the
shutdown notes all modules once more before it saves them, so that what the cycle
before had left is saved after this note and not before it. A save carries the
variables up to the first nil of the registration.
-/
namespace Qiuqiu.ModuleDb
variable {M Val : Type}

def takesSnapshot (e : Event M Val) : Bool := kindOf e ≠ .plain

def isShutdownEvent (e : Event M Val) : Bool := kindOf e = .shutdown

/-- The service runs until `Shutdown_SaveModule`. -/
def running (s : State M Val) (_ : Event M Val) : Bool := !s.isShutdown

def Attempted (m : M) (log : List (Action M Val)) : Prop :=
  ∃ a, .attempt a ∈ log ∧ a.mod = m

def isSnapshot : Action M Val → Bool
  | .snapshot _ => true
  | _ => false

/-- What an event does before it notes the modules. -/
def beforeSnapshot (out : List (Action M Val)) : List (Action M Val) :=
  out.takeWhile fun x => !isSnapshot x

variable [DecidableEq M]

def isFrameOf (m : M) : Action M Val → Bool
  | .attempt a => a.via = .frame ∧ a.mod = m
  | _ => false

/-- How often the frames have saved a module. -/
def frames (m : M) (log : List (Action M Val)) : Nat := log.countP (isFrameOf m)

/-- The cycle misses nothing: what holds of the events of a run. -/
structure CycleOk (trace : List (Entry M Val)) : Prop where
  /-- A noted module is saved before the next note. -/
  covered : ∀ pre x mid y post, trace = pre ++ x :: (mid ++ y :: post) →
    takesSnapshot x.1 = true → takesSnapshot y.1 = true → (∀ z ∈ mid, takesSnapshot z.1 = false) →
    ∀ m ∈ x.2.2.2.saveRegTbl.map Prod.fst,
      Attempted m (logOf mid ++ beforeSnapshot y.2.2.1)
  /-- The frames save no module twice for one note. -/
  once : ∀ pre x mid rest, trace = pre ++ x :: (mid ++ rest) → takesSnapshot x.1 = true →
    (∀ z ∈ mid, takesSnapshot z.1 = false) →
    ∀ m, frames m (logOf mid ++ (rest.head?.elim [] fun y => beforeSnapshot y.2.2.1)) ≤ 1
  /-- A module leaves `ModuleCache` only with a save of its own, whatever raises. -/
  leaves : ∀ x ∈ trace, ∀ m ∈ x.2.1.moduleCache, m ∉ x.2.2.2.moduleCache → Attempted m x.2.2.1
  /-- The shutdown saves every registered module. -/
  shutdown : ∀ x ∈ trace, isShutdownEvent x.1 = true →
    ∀ m ∈ x.2.1.saveRegTbl.map Prod.fst, Attempted m x.2.2.1
  /-- A save carries the registered variables. -/
  carries : ∀ x ∈ trace, ∀ a, .attempt a ∈ x.2.2.1 →
    ∃ varList, x.2.1.saveRegTbl.lookup a.mod = some varList ∧
      a.tmp = registeredVars (x.2.1.fields a.mod) varList

/-- No module is noted when the shutdown comes. -/
def Flushed (x : Entry M Val) : Prop := isShutdownEvent x.1 = true → x.2.1.moduleCache = []

section Saves
variable {s s' : State M Val} {kind : Kind} {out log : List (Action M Val)} {raises : M → Bool}
  {via : Via} {isTmm : Bool} {m : M}

theorem attempted_attempts (held : m ∈ s.saveRegTbl.map Prod.fst) :
    Attempted m (attempts s raises via isTmm m) := by
  cases found : s.saveRegTbl.lookup m with
  | none => exact absurd held (Assoc.lookup_none.mp found)
  | some varList =>
      refine ⟨doModuleRegTblSave s raises via isTmm m varList, ?_, rfl⟩
      simp only [attempts, found, List.mem_singleton]

theorem attempted_flatMap {ms : List M} (held : m ∈ s.saveRegTbl.map Prod.fst) (mem : m ∈ ms) :
    Attempted m (ms.flatMap (attempts s raises via isTmm)) := by
  have own : Attempted m (attempts s raises via isTmm m) := attempted_attempts held
  obtain ⟨a, inside, same⟩ := own
  exact ⟨a, List.mem_flatMap.mpr ⟨m, mem, inside⟩, same⟩

omit [DecidableEq M] in
theorem Attempted.append_left (done : Attempted m log) : Attempted m (log ++ out) := by
  obtain ⟨a, mem, same⟩ := done
  exact ⟨a, List.mem_append_left _ mem, same⟩

omit [DecidableEq M] in
theorem Attempted.append_right (done : Attempted m out) : Attempted m (log ++ out) := by
  obtain ⟨a, mem, same⟩ := done
  exact ⟨a, List.mem_append_right _ mem, same⟩

theorem frames_append : frames m (log ++ out) = frames m log + frames m out :=
  List.countP_append

theorem frames_attempts_le (m' : M) :
    frames m (attempts s raises via isTmm m') ≤ if m' = m then 1 else 0 := by
  simp only [attempts]
  split
  · exact Nat.zero_le _
  · simp only [frames, List.countP_singleton, isFrameOf, doModuleRegTblSave]
    by_cases here : m' = m
    · simp only [here, if_true]
      split <;> omega
    · simp [here]

theorem frames_flatMap_le (ms : List M) :
    frames m (ms.flatMap (attempts s raises via isTmm)) ≤ ms.count m := by
  induction ms with
  | nil => exact Nat.zero_le _
  | cons m' ms ih =>
      rw [List.flatMap_cons, frames_append, List.count_cons]
      have first : frames m (attempts s raises via isTmm m') ≤ if m' = m then 1 else 0 :=
        frames_attempts_le m'
      simp only [beq_iff_eq]
      omega

theorem frames_of_other (other : ∀ a, .attempt a ∈ out → a.via ≠ .frame) : frames m out = 0 := by
  rw [frames, List.countP_eq_zero]
  intro x mem
  cases x with
  | attempt a => simp [isFrameOf, other a mem]
  | restoring | raised | registered | snapshot => simp [isFrameOf]

/-- `ModuleCache` has registered modules, each once. -/
structure Tidy (s : State M Val) : Prop where
  cached : ∀ m ∈ s.moduleCache, m ∈ s.saveRegTbl.map Prod.fst
  nodup : s.moduleCache.Nodup
  keyed : Assoc.Keyed s.saveRegTbl

theorem Tidy.noted (tidy : Tidy s) : Tidy (noted s) := by
  have cache : (ModuleDb.noted s).moduleCache = s.saveRegTbl.map Prod.fst := by
    have none : s.moduleCache.filter (· ∉ s.saveRegTbl.map Prod.fst) = [] := by
      rw [List.filter_eq_nil_iff]
      intro m mem
      simpa using tidy.cached m mem
    simp only [ModuleDb.noted, saveAllModule, none, List.append_nil]
  refine ⟨fun m mem => ?_, cache ▸ tidy.keyed, tidy.keyed⟩
  rw [cache] at mem
  exact mem

omit [DecidableEq M] in
theorem Tidy.filter (tidy : Tidy s) (p : M → Bool) :
    Tidy { s with moduleCache := s.moduleCache.filter p } where
  cached := fun m mem => tidy.cached m (List.mem_filter.mp mem).1
  nodup := tidy.nodup.filter p
  keyed := tidy.keyed

theorem Tidy.step (tidy : Tidy s) (effect : Effect s kind s' out) : Tidy s' := by
  cases effect with
  | assign | restoring | raised => exact ⟨tidy.cached, tidy.nodup, tidy.keyed⟩
  | registered _ m _ varList fields | renewed m varList =>
      refine ⟨?_, tidy.nodup, tidy.keyed.put⟩
      exact fun m' mem => Assoc.mem_keys_put.mpr (.inr (tidy.cached m' mem))
  | collect m free =>
      refine ⟨?_, tidy.nodup, tidy.keyed.remove⟩
      intro m' mem
      refine Assoc.mem_keys_remove.mpr ⟨tidy.cached m' mem, ?_⟩
      rintro rfl
      exact free mem
  | frame ms raises => exact tidy.filter _
  | direct m isTmm raises => exact tidy.filter _
  | saveAll ms raises => exact (tidy.filter _).noted
  | shutdown ms raises => exact ⟨nofun, List.nodup_nil, tidy.keyed⟩

theorem Effect.shutdown_saves (effect : Effect s .shutdown s' out)
    (held : m ∈ s.saveRegTbl.map Prod.fst) : Attempted m out := by
  cases effect with
  | shutdown ms raises perm =>
      have inside : m ∈ notedCache s := List.mem_append_left _ held
      have flushed : Attempted m (ms.flatMap (attempts s raises .shutdown false)) :=
        attempted_flatMap held (perm.mem_iff.mpr inside)
      obtain ⟨a, saved, same⟩ := flushed
      exact ⟨a, List.mem_cons_of_mem _ saved, same⟩

/-- A module that leaves `ModuleCache` is saved. -/
theorem Effect.leaves (effect : Effect s kind s' out) (tidy : Tidy s) (mem : m ∈ s.moduleCache)
    (gone : m ∉ s'.moduleCache) : Attempted m out := by
  have held := tidy.cached m mem
  cases effect with
  | assign | restoring | raised | registered | renewed | collect => exact absurd mem gone
  | frame ms raises =>
      refine attempted_flatMap held ?_
      by_contra out
      exact gone (List.mem_filter.mpr ⟨mem, decide_eq_true out⟩)
  | direct m' isTmm raises =>
      have here : m = m' := by
        by_contra other
        exact gone (List.mem_filter.mpr ⟨mem, decide_eq_true other⟩)
      subst here
      exact attempted_attempts held
  | saveAll ms raises => exact absurd (List.mem_append_left _ held) gone
  | shutdown ms raises perm => exact (Effect.shutdown ms raises perm).shutdown_saves held

/-- What the frames do in an event without a snapshot. -/
theorem Effect.plain_frames (effect : Effect s .plain s' out) (tidy : Tidy s) (m : M) :
    frames m out ≤ 1 ∧ (m ∉ s.moduleCache → frames m out = 0) ∧
      (m ∈ s'.moduleCache → m ∈ s.moduleCache ∧ frames m out = 0) := by
  cases effect with
  | assign | restoring | raised | registered | renewed | collect =>
      exact ⟨Nat.zero_le _, fun _ => rfl, fun mem => ⟨mem, rfl⟩⟩
  | frame ms raises inside nodup =>
      have few : frames m (ms.flatMap (attempts s raises .frame false)) ≤ ms.count m :=
        frames_flatMap_le ms
      have once := List.nodup_iff_count_le_one.mp (nodup tidy.nodup) m
      have zero : m ∉ ms → frames m (ms.flatMap (attempts s raises .frame false)) = 0 := by
        intro out
        rw [List.count_eq_zero.mpr out] at few
        omega
      refine ⟨Nat.le_trans few once, fun out => zero fun mem => out (inside m mem), ?_⟩
      intro mem
      obtain ⟨stays, out⟩ := List.mem_filter.mp mem
      exact ⟨stays, zero (of_decide_eq_true out)⟩
  | direct m' isTmm raises =>
      have none : frames m (attempts s raises .direct isTmm m') = 0 := by
        apply frames_of_other
        intro a mem
        rw [(mem_attempts mem).2.1]
        decide
      exact ⟨by omega, fun _ => none,
        fun mem => ⟨(List.mem_filter.mp mem).1, none⟩⟩

/-- What stays noted over an event without a snapshot is not saved by it. -/
theorem Effect.plain_stays (effect : Effect s .plain s' out) (mem : m ∈ s'.moduleCache) :
    m ∈ s.moduleCache ∧ ¬ Attempted m out := by
  cases effect with
  | assign | collect =>
      refine ⟨mem, ?_⟩
      rintro ⟨a, sent, -⟩
      cases sent
  | restoring | raised | registered | renewed =>
      refine ⟨mem, ?_⟩
      rintro ⟨a, sent, -⟩
      cases List.mem_singleton.mp sent
  | frame ms raises =>
      obtain ⟨stays, out⟩ := List.mem_filter.mp mem
      refine ⟨stays, ?_⟩
      rintro ⟨a, sent, rfl⟩
      exact of_decide_eq_true out (mem_flatMap_attempts sent).1
  | direct m' isTmm raises =>
      obtain ⟨stays, other⟩ := List.mem_filter.mp mem
      refine ⟨stays, ?_⟩
      rintro ⟨a, sent, rfl⟩
      exact of_decide_eq_true other (mem_attempts sent).1

/-- The flush of `SaveAll` saves what was left. -/
theorem Effect.saveAll_flush (effect : Effect s .saveAll s' out) (tidy : Tidy s)
    (live : s.isShutdown = false) :
    (∀ m ∈ s.moduleCache, Attempted m (beforeSnapshot out)) ∧
      (∀ m, frames m (beforeSnapshot out) ≤ 1 ∧
        (m ∉ s.moduleCache → frames m (beforeSnapshot out) = 0)) ∧
      ∀ m ∈ s'.saveRegTbl.map Prod.fst, m ∈ s'.moduleCache := by
  cases effect with
  | saveAll ms raises flushed =>
      rw [live] at flushed
      have perm : ms.Perm s.moduleCache := by simpa using flushed
      have before : beforeSnapshot (ms.flatMap (attempts s raises .frame false) ++
          [.snapshot (s.saveRegTbl.map Prod.fst)]) =
            ms.flatMap (attempts s raises .frame false) := by
        rw [beforeSnapshot, List.takeWhile_append_of_pos]
        · simp [isSnapshot]
        · intro x mem
          obtain ⟨a, rfl⟩ := flatMap_attempts_silent mem
          rfl
      rw [before]
      refine ⟨?_, ?_, ?_⟩
      · intro m mem
        exact attempted_flatMap (tidy.cached m mem) (perm.mem_iff.mpr mem)
      · intro m
        have few : frames m (ms.flatMap (attempts s raises .frame false)) ≤ ms.count m :=
          frames_flatMap_le ms
        rw [perm.count_eq] at few
        refine ⟨Nat.le_trans few (List.nodup_iff_count_le_one.mp tidy.nodup m), ?_⟩
        intro out
        rw [List.count_eq_zero.mpr out] at few
        omega
      · exact fun m mem => List.mem_append_left _ mem

theorem Effect.shutdown_before (effect : Effect s .shutdown s' out) : beforeSnapshot out = [] := by
  cases effect with
  | shutdown ms raises => rfl

end Saves

section Runs
variable {fields : M → String → Option Val} {s : State M Val} {trace : List (Entry M Val)}

/-- How the modules of the last snapshot stand: each is still noted or was saved since,
and the frames have saved it only if it is no longer noted. -/
structure Since (s : State M Val) (mods : List M) (log : List (Action M Val)) : Prop where
  covered : ∀ m ∈ mods, m ∈ s.moduleCache ∨ Attempted m log
  few : ∀ m, frames m log ≤ 1
  fresh : ∀ m ∈ s.moduleCache, frames m log = 0

theorem Since.plain {s' : State M Val} {mods : List M} {log out : List (Action M Val)}
    (since : Since s mods log) (tidy : Tidy s) (effect : Effect s .plain s' out) :
    Since s' mods (log ++ out) := by
  have one := effect.plain_frames tidy
  refine ⟨?_, ?_, ?_⟩
  · intro m mem
    cases since.covered m mem with
    | inl noted =>
        by_cases stays : m ∈ s'.moduleCache
        · exact .inl stays
        · exact .inr (effect.leaves tidy noted stays).append_right
    | inr saved => exact .inr saved.append_left
  · intro m
    rw [frames_append]
    by_cases noted : m ∈ s.moduleCache
    · have := since.fresh m noted
      have := (one m).1
      omega
    · have := since.few m
      have := (one m).2.1 noted
      omega
  · intro m mem
    obtain ⟨noted, zero⟩ := (one m).2.2 mem
    rw [frames_append, since.fresh m noted, zero]

/-- The invariant of the runs: after the last snapshot. -/
structure Cycling (trace : List (Entry M Val)) (s : State M Val) : Prop where
  tidy : Tidy s
  since : s.isShutdown = false → ∀ pre x mid, trace = pre ++ x :: mid → takesSnapshot x.1 = true →
    (∀ z ∈ mid, takesSnapshot z.1 = false) → Since s (x.2.2.2.saveRegTbl.map Prod.fst) (logOf mid)
  /-- What is noted was so by the last snapshot, and is not saved since. -/
  noted : ∀ m ∈ s.moduleCache, ∃ pre x mid, trace = pre ++ x :: mid ∧ takesSnapshot x.1 = true ∧
    (∀ z ∈ mid, takesSnapshot z.1 = false) ∧ m ∈ x.2.2.2.saveRegTbl.map Prod.fst ∧
      ¬ Attempted m (logOf mid)

omit [DecidableEq M] in
theorem kindOf_plain {e : Event M Val} (plain : takesSnapshot e = false) : kindOf e = .plain := by
  simpa [takesSnapshot] using plain

theorem Cycling.noted_step {s' : State M Val} {e : Event M Val} {out : List (Action M Val)}
    (cycling : Cycling trace s) (effect : Effect s (kindOf e) s' out) {m : M}
    (mem : m ∈ s'.moduleCache) :
    ∃ pre x mid, trace ++ [(e, s, out, s')] = pre ++ x :: mid ∧ takesSnapshot x.1 = true ∧
      (∀ z ∈ mid, takesSnapshot z.1 = false) ∧ m ∈ x.2.2.2.saveRegTbl.map Prod.fst ∧
        ¬ Attempted m (logOf mid) := by
  by_cases plain : takesSnapshot e = false
  · rw [kindOf_plain plain] at effect
    obtain ⟨before, unsaved⟩ := effect.plain_stays mem
    obtain ⟨pre, x, mid, rfl, taken, free, held, since⟩ := cycling.noted m before
    refine ⟨pre, x, mid ++ [(e, s, out, s')], by simp, taken, ?_, held, ?_⟩
    · intro z inside
      cases List.mem_append.mp inside with
      | inl old => exact free z old
      | inr last =>
          rw [List.mem_singleton.mp last]
          exact plain
    · have log : logOf (mid ++ [(e, s, out, s')]) = logOf mid ++ out := by simp [logOf]
      rw [log]
      rintro ⟨a, sent, same⟩
      cases List.mem_append.mp sent with
      | inl old => exact since ⟨a, old, same⟩
      | inr new => exact unsaved ⟨a, new, same⟩
  · refine ⟨trace, (e, s, out, s'), [], rfl, by simpa using plain, List.forall_mem_nil _,
      (cycling.tidy.step effect).cached m mem, ?_⟩
    rintro ⟨a, sent, -⟩
    cases sent

theorem Cycling.step {s' : State M Val} {e : Event M Val} {out : List (Action M Val)}
    (cycling : Cycling trace s) (live : s.isShutdown = false)
    (effect : Effect s (kindOf e) s' out) : Cycling (trace ++ [(e, s, out, s')]) s' := by
  refine ⟨cycling.tidy.step effect, ?_, fun m mem => cycling.noted_step effect mem⟩
  intro live' pre x mid split taken free
  cases Machine.split_concat split with
  | inl inside =>
      obtain ⟨mid', rfl, before⟩ := inside
      have last := free (e, s, out, s') (by simp)
      rw [kindOf_plain last] at effect
      have since := cycling.since live pre x mid' before taken
        fun z mem => free z (List.mem_append_left _ mem)
      have log : logOf (mid' ++ [(e, s, out, s')]) = logOf mid' ++ out := by simp [logOf]
      rw [log]
      exact since.plain cycling.tidy effect
  | inr here =>
      obtain ⟨rfl, rfl, rfl⟩ := here
      cases kind : kindOf e with
      | plain => simp [takesSnapshot, kind] at taken
      | saveAll =>
          rw [kind] at effect
          have noted := (effect.saveAll_flush cycling.tidy live).2.2
          exact ⟨fun m mem => .inl (noted m mem), fun _ => Nat.zero_le _, fun _ _ => rfl⟩
      | shutdown =>
          rw [kind] at effect
          cases effect
          cases live'

theorem reach_cycling (reach : ((machine fields).guard running).record.Reach trace s) :
    Cycling trace s := by
  have start : Tidy (machine fields).init := ⟨nofun, List.nodup_nil, List.nodup_nil⟩
  refine reach.invariant Cycling ⟨start, ?_, nofun⟩ ?_
  · intro _ pre x mid empty
    simp at empty
  · intro trace s e s' x cycling h
    obtain ⟨out, rfl, moved⟩ := Machine.record_step h
    obtain ⟨live, moved⟩ := Machine.guard_step moved
    exact cycling.step (by simpa [running] using live) (step_effect moved)

/-- An event of a run, with the invariant before it. -/
theorem reach_split {pre post : List (Entry M Val)} {x : Entry M Val}
    (reach : ((machine fields).guard running).record.Reach (pre ++ x :: post) s) :
    Cycling pre x.2.1 ∧ x.2.1.isShutdown = false ∧ Effect x.2.1 (kindOf x.1) x.2.2.2 x.2.2.1 := by
  obtain ⟨t, t', before, h, -⟩ := reach.split
  obtain ⟨out, same, moved⟩ := Machine.record_step h
  obtain ⟨live, moved⟩ := Machine.guard_step moved
  rw [same]
  exact ⟨reach_cycling before, by simpa [running] using live, step_effect moved⟩

theorem frames_before_le (m : M) (out : List (Action M Val)) :
    frames m (beforeSnapshot out) ≤ frames m out :=
  (List.takeWhile_sublist _).countP_le

/-- What the frames have done since a snapshot, up to and with the next one. -/
theorem frames_until {pre mid : List (Entry M Val)} {x y : Entry M Val}
    (cycling : Cycling (pre ++ x :: mid) y.2.1) (live : y.2.1.isShutdown = false)
    (effect : Effect y.2.1 (kindOf y.1) y.2.2.2 y.2.2.1) (taken : takesSnapshot x.1 = true)
    (free : ∀ z ∈ mid, takesSnapshot z.1 = false) (m : M) :
    frames m (logOf mid ++ beforeSnapshot y.2.2.1) ≤ 1 := by
  have since := cycling.since live pre x mid rfl taken free
  rw [frames_append]
  cases kind : kindOf y.1 with
  | plain =>
      rw [kind] at effect
      have few := (since.plain cycling.tidy effect).few m
      have part := frames_before_le m y.2.2.1
      rw [frames_append] at few
      omega
  | saveAll =>
      rw [kind] at effect
      obtain ⟨few, none⟩ := (effect.saveAll_flush cycling.tidy live).2.1 m
      by_cases noted : m ∈ y.2.1.moduleCache
      · have := since.fresh m noted
        omega
      · have := none noted
        have := since.few m
        omega
  | shutdown =>
      rw [kind] at effect
      rw [effect.shutdown_before]
      exact since.few m

/-- With a note pending at the shutdown a module is missed before it. -/
theorem flushed_of_covered (reach : ((machine fields).guard running).record.Reach trace s)
    (ok : CycleOk trace) {y : Entry M Val} (mem : y ∈ trace) : Flushed y := by
  intro final
  obtain ⟨before, post, rfl⟩ := List.append_of_mem mem
  obtain ⟨cycling, _, effect⟩ := reach_split reach
  have kind : kindOf y.1 = .shutdown := by simpa [isShutdownEvent] using final
  rw [kind] at effect
  by_contra left
  obtain ⟨m, noted⟩ := List.exists_mem_of_ne_nil _ left
  obtain ⟨pre, x, mid, rfl, taken, free, held, unsaved⟩ := cycling.noted m noted
  have saved := ok.covered pre x mid y post (by simp) taken (by simp [takesSnapshot, kind]) free m
    held
  rw [effect.shutdown_before, List.append_nil] at saved
  exact unsaved saved

/-- A save carries the registered variables exactly when none of them is lost. -/
theorem carries_iff (reach : ((machine fields).guard running).record.Reach trace s)
    {x : Entry M Val} (mem : x ∈ trace) :
    (∀ a, .attempt a ∈ x.2.2.1 → ∃ varList, x.2.1.saveRegTbl.lookup a.mod = some varList ∧
      a.tmp = registeredVars (x.2.1.fields a.mod) varList) ↔ SavesNoneLost x := by
  obtain ⟨pre, post, rfl⟩ := List.append_of_mem mem
  obtain ⟨_, _, effect⟩ := reach_split reach
  refine forall₂_congr fun a sent => ?_
  obtain ⟨varList, carries⟩ := effect.carries sent
  simp only [carries.registered, carries.tmp, Option.some.injEq, exists_eq_left', forall_eq']
  exact tmpOf_iff_noneLost

/-- A noted module is saved before the next note, when the shutdown finds none. -/
theorem covered_of_flushed (reach : ((machine fields).guard running).record.Reach trace s)
    (flushed : ∀ x ∈ trace, Flushed x) {pre mid post : List (Entry M Val)} {x y : Entry M Val}
    (split : trace = pre ++ x :: (mid ++ y :: post)) (takenX : takesSnapshot x.1 = true)
    (takenY : takesSnapshot y.1 = true) (free : ∀ z ∈ mid, takesSnapshot z.1 = false) {m : M}
    (mem : m ∈ x.2.2.2.saveRegTbl.map Prod.fst) :
    Attempted m (logOf mid ++ beforeSnapshot y.2.2.1) := by
  have none := flushed y (by simp [split])
  have shape : pre ++ x :: (mid ++ y :: post) = (pre ++ x :: mid) ++ y :: post := by simp
  rw [split, shape] at reach
  obtain ⟨cycling, live, effect⟩ := reach_split reach
  have since := cycling.since live pre x mid rfl takenX free
  cases since.covered m mem with
  | inr saved => exact saved.append_left
  | inl noted =>
      cases kind : kindOf y.1 with
      | plain => simp [takesSnapshot, kind] at takenY
      | saveAll =>
          rw [kind] at effect
          exact ((effect.saveAll_flush cycling.tidy live).1 m noted).append_right
      | shutdown =>
          rw [none (by simp [isShutdownEvent, kind])] at noted
          cases noted

/-- The frames save no module twice for one note. -/
theorem frames_once (reach : ((machine fields).guard running).record.Reach trace s)
    {pre mid rest : List (Entry M Val)} {x : Entry M Val}
    (split : trace = pre ++ x :: (mid ++ rest)) (taken : takesSnapshot x.1 = true)
    (free : ∀ z ∈ mid, takesSnapshot z.1 = false) (m : M) :
    frames m (logOf mid ++ (rest.head?.elim [] fun y => beforeSnapshot y.2.2.1)) ≤ 1 := by
  subst split
  cases rest with
  | cons y post =>
      have shape : pre ++ x :: (mid ++ y :: post) = (pre ++ x :: mid) ++ y :: post := by simp
      rw [shape] at reach
      obtain ⟨cycling, live, effect⟩ := reach_split reach
      exact frames_until cycling live effect taken free m
  | nil =>
      rw [List.append_nil] at reach
      cases List.eq_nil_or_concat mid with
      | inl nil =>
          subst nil
          exact Nat.zero_le _
      | inr concat =>
          obtain ⟨mid', z, rfl⟩ := concat
          rw [List.concat_eq_append] at *
          have shape : pre ++ x :: (mid' ++ [z]) = (pre ++ x :: mid') ++ z :: [] := by simp
          rw [shape] at reach
          obtain ⟨cycling, live, effect⟩ := reach_split reach
          rw [kindOf_plain (free z (by simp))] at effect
          have since := cycling.since live pre x mid' rfl taken
            fun w mem => free w (List.mem_append_left _ mem)
          have few := (since.plain cycling.tidy effect).few m
          simpa [logOf] using few

/-- In every run up to the shutdown, with any order of the tables and any saves that
raise, the cycle misses nothing exactly when no variable of a saved module stands behind
a nil and the shutdown finds no module noted. -/
theorem cycle_ok_iff (reach : ((machine fields).guard running).record.Reach trace s) :
    CycleOk trace ↔ ∀ x ∈ trace, SavesNoneLost x ∧ Flushed x := by
  constructor
  · intro ok x mem
    exact ⟨(carries_iff reach mem).mp (ok.carries x mem), flushed_of_covered reach ok mem⟩
  · intro meets
    refine ⟨?_, ?_, ?_, ?_, ?_⟩
    · intro pre x mid y post split takenX takenY free m mem
      exact covered_of_flushed reach (fun x mem => (meets x mem).2) split takenX takenY free mem
    · intro pre x mid rest split taken free m
      exact frames_once reach split taken free m
    · intro x mem m noted gone
      obtain ⟨pre, post, rfl⟩ := List.append_of_mem mem
      obtain ⟨cycling, _, effect⟩ := reach_split reach
      exact effect.leaves cycling.tidy noted gone
    · intro x mem final m held
      obtain ⟨pre, post, rfl⟩ := List.append_of_mem mem
      obtain ⟨_, _, effect⟩ := reach_split reach
      have kind : kindOf x.1 = .shutdown := by simpa [isShutdownEvent] using final
      rw [kind] at effect
      exact effect.shutdown_saves held
    · intro x mem
      exact (carries_iff reach mem).mpr (meets x mem).1

theorem savesNoneLost_of_full {x : Entry M Val}
    (full : ∀ kv ∈ x.2.1.saveRegTbl, none ∉ kv.2) : SavesNoneLost x :=
  fun _ _ _ held => noneLost_of_full (full _ (Assoc.mem_of_lookup held))

/-- Two modules are noted and saved by two frames, in one of which the save raises. They are
noted again and saved by a frame and by the flush of the next `SaveAll`, then by a frame and
a direct save, and last by the shutdown. -/
theorem cycle_ok_to_shutdown :
    ∃ trace s, ((machine fun _ _ => none : Machine (State Nat Nat) _ _).guard
        running).record.Reach trace s ∧ trace.length = 13 ∧ CycleOk trace := by
  have reach : ((machine fun _ _ => none : Machine (State Nat Nat) _ _).guard
      running).record.Reach _ _ :=
    .next (.next (.next (.next (.next (.next (.next (.next (.next (.next (.next (.next (.next .init
      (e := .registerByEnv 1 [some (.string "DATA")]) rfl)
      (e := .registerByEnv 2 [some (.string "DATA"), some (.string "MORE")]) rfl)
      (e := .restored 1 (.table [("DATA", 5)])) rfl)
      (e := .restored 0 .nothing) rfl)
      (e := .saveAll .asStored fun _ => false) rfl)
      (e := .saveModuleOnFrame .asStored fun _ => true) rfl)
      (e := .saveModuleOnFrame .asStored fun _ => false) rfl)
      (e := .saveAll .asStored fun _ => false) rfl)
      (e := .saveModuleOnFrame .asStored fun _ => false) rfl)
      (e := .saveAll .asStored fun _ => false) rfl)
      (e := .saveModuleOnFrame .asStored fun _ => false) rfl)
      (e := .saveOneModule 2 false fun _ => false) rfl)
      (e := .shutdownSaveModule .asStored fun _ => false) rfl
  refine ⟨_, _, reach, rfl, (cycle_ok_iff reach).mpr fun x mem => ⟨?_, ?_⟩⟩
  · apply savesNoneLost_of_full
    revert x
    decide
  · unfold Flushed
    revert x
    decide

/-- `RegisterByEnv(m, "A", nil, "B")`: the frame saves the module without B. -/
theorem cycle_loses_variable :
    ∃ trace s, ((machine fun _ _ => none : Machine (State Nat Nat) _ _).guard
        running).record.Reach trace s ∧ s.fields 1 "B" = some 2 ∧
      (∃ a, .attempt a ∈ logOf trace ∧ a.mod = 1 ∧ a.tmp "A" = some 1 ∧ a.tmp "B" = none) ∧
      ¬ CycleOk trace := by
  have reach : ((machine fun _ _ => none : Machine (State Nat Nat) _ _).guard
      running).record.Reach _ _ :=
    .next (.next (.next (.next .init
      (e := .registerByEnv 1 [some (.string "A"), none, some (.string "B")]) rfl)
      (e := .restored 0 (.table [("A", 1), ("B", 2)])) rfl)
      (e := .saveAll .asStored fun _ => false) rfl)
      (e := .saveModuleOnFrame .asStored fun _ => false) rfl
  refine ⟨_, _, reach, rfl, ?_, fun ok => ?_⟩
  · exact ⟨_, List.mem_cons_of_mem _ (List.mem_cons_of_mem _ (List.mem_cons_of_mem _
      List.mem_cons_self)), rfl, rfl, rfl⟩
  · obtain ⟨varList, held, tmp⟩ := ok.carries _ (List.mem_append_right _ List.mem_cons_self) _
      List.mem_cons_self
    cases held
    have lost := congrFun tmp "B"
    cases lost

end Runs

end Qiuqiu.ModuleDb
