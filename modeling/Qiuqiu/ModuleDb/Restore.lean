import Qiuqiu.ModuleDb.Model

/-!
The defaults of a module never overwrite what the database holds. A module is in
`SaveRegTbl` only after its restore returned, and every save looks there first, so
that no save is sent for a module whose restore is pending or raised. What is sent
are the variables of the registration, with their values at the time of the save,
up to the first nil among the arguments of `RegisterByEnv`: `ipairs` stops there.
-/
namespace Qiuqiu.ModuleDb
variable {M Val : Type} [DecidableEq M]

section Effects

theorem saveEach_eq {raises : M → Bool} {via : Via} (ms : List M) (s : State M Val) :
    saveEach raises via s ms =
      ({ s with moduleCache := s.moduleCache.filter (· ∉ ms) },
        ms.flatMap (attempts s raises via false)) := by
  induction ms generalizing s with
  | nil => simp [saveEach]
  | cons m rest ih =>
      have both : s.moduleCache.filter (fun m' => decide (m' ∉ rest) && decide (m' ≠ m)) =
          s.moduleCache.filter (· ∉ m :: rest) := by
        congr 1
        funext m'
        by_cases here : m' = m <;> simp [here]
      simp only [saveEach, saveOneModule, ih, List.filter_filter, both, List.flatMap_cons]
      rfl

/-- The modules that `SaveAllModule` leaves in `ModuleCache`. -/
def notedCache (s : State M Val) : List M :=
  s.saveRegTbl.map Prod.fst ++ s.moduleCache.filter (· ∉ s.saveRegTbl.map Prod.fst)

/-- The state after `SaveAllModule`. -/
def noted (s : State M Val) : State M Val := (saveAllModule s).1

/-- Whether an event takes a snapshot of the registered modules. -/
inductive Kind where
  | plain
  | saveAll
  | shutdown
  deriving DecidableEq

def kindOf : Event M Val → Kind
  | .saveAll _ _ => .saveAll
  | .shutdownSaveModule _ _ => .shutdown
  | _ => .plain

/-- What a step can do. -/
inductive Effect (s : State M Val) : Kind → State M Val → List (Action M Val) → Prop
  | assign (fields : M → String → Option Val) : Effect s .plain { s with fields := fields } []
  | restoring (m : M) (arg : List (Option Arg)) : s.saveRegTbl.lookup m = none →
      Effect s .plain { s with
        restoring := (s.calls, m, arg) :: s.restoring
        calls := s.calls + 1 } [.restoring m]
  | raised (call : Nat) (m : M) (arg : List (Option Arg)) (fields : M → String → Option Val) :
      s.restoring.lookup call = some (m, arg) →
      Effect s .plain { s with fields := fields, restoring := Assoc.remove s.restoring call }
        [.raised m]
  | registered (call : Nat) (m : M) (arg : List (Option Arg)) (varList : List (Option String))
      (fields : M → String → Option Val) : s.restoring.lookup call = some (m, arg) →
      Effect s .plain { s with
        fields := fields
        saveRegTbl := Assoc.put s.saveRegTbl m varList
        restoring := Assoc.remove s.restoring call } [.registered m varList]
  | renewed (m : M) (varList : List (Option String)) : s.saveRegTbl.lookup m ≠ none →
      Effect s .plain { s with saveRegTbl := Assoc.put s.saveRegTbl m varList }
        [.registered m varList]
  | collect (m : M) : m ∉ s.moduleCache →
      Effect s .plain { s with saveRegTbl := Assoc.remove s.saveRegTbl m } []
  | frame (ms : List M) (raises : M → Bool) : (∀ m ∈ ms, m ∈ s.moduleCache) →
      (s.moduleCache.Nodup → ms.Nodup) →
      Effect s .plain { s with moduleCache := s.moduleCache.filter (· ∉ ms) }
        (ms.flatMap (attempts s raises .frame false))
  | direct (m : M) (isTmm : Bool) (raises : M → Bool) :
      Effect s .plain { s with moduleCache := s.moduleCache.filter (· ≠ m) }
        (attempts s raises .direct isTmm m)
  | saveAll (ms : List M) (raises : M → Bool) :
      (if s.isShutdown then ms = [] else ms.Perm s.moduleCache) →
      Effect s .saveAll (noted { s with moduleCache := s.moduleCache.filter (· ∉ ms) })
        (ms.flatMap (attempts s raises .frame false) ++ [.snapshot (s.saveRegTbl.map Prod.fst)])
  | shutdown (ms : List M) (raises : M → Bool) : ms.Perm (notedCache s) →
      Effect s .shutdown { noted { s with isShutdown := true } with moduleCache := [] }
        (.snapshot (s.saveRegTbl.map Prod.fst) :: ms.flatMap (attempts s raises .shutdown false))

variable {s s' : State M Val} {e : Event M Val} {out : List (Action M Val)}

theorem finishRegister_effect {call : Nat} {m : M} {arg : List (Option Arg)}
    (pending : s.restoring.lookup call = some (m, arg)) (fields : M → String → Option Val) :
    Effect s .plain
      (finishRegister { s with fields := fields, restoring := Assoc.remove s.restoring call }
        m arg).1
      (finishRegister { s with fields := fields, restoring := Assoc.remove s.restoring call }
        m arg).2 := by
  simp only [finishRegister]
  split
  · exact .raised call m arg fields pending
  · exact .registered call m arg _ fields pending

/-- `RegisterByEnv` waits for the data of a new module, and is through at once with
one that is registered. -/
theorem registerByEnv_effect (m : M) (arg : List (Option Arg)) :
    Effect s .plain (registerByEnv s m arg).1 (registerByEnv s m arg).2 := by
  rw [registerByEnv]
  split
  case h_1 absent => exact .restoring m arg absent
  case h_2 varList' held =>
      split
      · exact .assign s.fields
      case h_2 varList names =>
          simp only [finishRegister, names]
          refine .renewed m varList ?_
          rw [held]
          exact Option.some_ne_none varList'

/-- The rest of `RegisterByEnv`, with the answer of the database. -/
theorem restored_effect {call : Nat} {m : M} {arg : List (Option Arg)} (answer : Restore Val)
    (pending : s.restoring.lookup call = some (m, arg)) :
    Effect s .plain (restored s call m arg answer).1 (restored s call m arg answer).2 := by
  cases answer with
  | failed | unloadable => exact .raised call m arg s.fields pending
  | nothing => exact finishRegister_effect pending s.fields
  | table data =>
      exact finishRegister_effect pending
        (Function.update s.fields m (assignAll (s.fields m) data))

theorem saveModuleOnFrame_effect (raises : M → Bool) (order : Assoc.PairsOrder M) :
    Effect s .plain (saveModuleOnFrame s raises order false).1
      (saveModuleOnFrame s raises order false).2 := by
  rw [saveModuleOnFrame]
  split
  · exact .assign s.fields
  · simp only [saveEach_eq, Bool.false_eq_true, if_false]
    refine .frame _ raises ?_ ?_
    · intro m mem
      exact (order.perm _).mem_iff.mp (List.mem_of_mem_take mem)
    · intro nodup
      exact ((order.perm _).nodup_iff.mpr nodup).sublist (List.take_sublist _ _)

theorem saveAll_effect (raises : M → Bool) (order : Assoc.PairsOrder M) :
    Effect s .saveAll (saveAll s raises order).1 (saveAll s raises order).2 := by
  by_cases off : s.isShutdown = true
  · simp only [saveAll, saveModuleOnFrame, if_pos off]
    have effect := Effect.saveAll (s := s) [] raises (by simp [off])
    simp only [List.not_mem_nil, not_false_eq_true, decide_true, List.filter_true,
      List.flatMap_nil, List.nil_append] at effect
    exact effect
  · simp only [saveAll, saveModuleOnFrame, if_neg off, if_true, saveEach_eq]
    refine .saveAll _ raises ?_
    rw [if_neg off]
    exact order.perm s.moduleCache

theorem shutdownSaveModule_effect (raises : M → Bool) (order : Assoc.PairsOrder M) :
    Effect s .shutdown (shutdownSaveModule s raises order).1
      (shutdownSaveModule s raises order).2 := by
  have perm := order.perm (notedCache s)
  have none : (notedCache s).filter (· ∉ order.visit (notedCache s)) = [] := by
    rw [List.filter_eq_nil_iff]
    intro m mem
    simpa using perm.mem_iff.mpr mem
  have effect := Effect.shutdown (s := s) (order.visit (notedCache s)) raises perm
  rw [← none] at effect
  rw [shutdownSaveModule]
  simp only [saveEach_eq]
  exact effect

theorem step_effect (h : step s e = some (s', out)) : Effect s (kindOf e) s' out := by
  cases e with
  | assign m key value =>
      cases h
      exact .assign _
  | registerByEnv m arg =>
      have answer : registerByEnv s m arg = (s', out) := Option.some.inj h
      have effect := registerByEnv_effect (s := s) m arg
      rwa [answer] at effect
  | restored call answer =>
      simp only [step] at h
      split at h
      · cases h
      case h_2 m arg waits =>
          have effect := restored_effect answer waits
          rwa [Option.some.inj h] at effect
  | collect m =>
      simp only [step] at h
      split at h
      · cases h
      case isFalse free =>
          cases h
          exact .collect m (not_or.mp free).1
  | saveModuleOnFrame order raises =>
      have answer : saveModuleOnFrame s raises order false = (s', out) := Option.some.inj h
      have effect := saveModuleOnFrame_effect (s := s) raises order
      rwa [answer] at effect
  | saveOneModule m isTmm raises =>
      cases h
      exact .direct m isTmm raises
  | saveAll order raises =>
      have answer : saveAll s raises order = (s', out) := Option.some.inj h
      have effect := saveAll_effect (s := s) raises order
      rwa [answer] at effect
  | shutdownSaveModule order raises =>
      have answer : shutdownSaveModule s raises order = (s', out) := Option.some.inj h
      have effect := shutdownSaveModule_effect (s := s) raises order
      rwa [answer] at effect

end Effects

section Sends
variable {s s' : State M Val} {out : List (Action M Val)} {raises : M → Bool} {via : Via}
  {isTmm : Bool} {a : Attempt M Val}

/-- A save of a module that is registered with these names. -/
structure Carries (s : State M Val) (varList : List (Option String)) (a : Attempt M Val) :
    Prop where
  registered : s.saveRegTbl.lookup a.mod = some varList
  tmp : a.tmp = tmpOf (s.fields a.mod) varList

theorem mem_attempts {m : M} (mem : .attempt a ∈ attempts s raises via isTmm m) :
    a.mod = m ∧ a.via = via ∧ ∃ varList, Carries s varList a := by
  simp only [attempts] at mem
  split at mem
  · cases mem
  case h_2 varList held =>
      cases List.mem_singleton.mp mem
      exact ⟨rfl, rfl, varList, held, rfl⟩

theorem mem_flatMap_attempts {ms : List M}
    (mem : .attempt a ∈ ms.flatMap (attempts s raises via isTmm)) :
    a.mod ∈ ms ∧ a.via = via ∧ ∃ varList, Carries s varList a := by
  obtain ⟨m, inside, mem⟩ := List.mem_flatMap.mp mem
  obtain ⟨rfl, kind, carries⟩ := mem_attempts mem
  exact ⟨inside, kind, carries⟩

/-- Every save is of a module that is registered at that time. -/
theorem Effect.carries {kind : Kind} (effect : Effect s kind s' out) (mem : .attempt a ∈ out) :
    ∃ varList, Carries s varList a := by
  cases effect with
  | assign | collect => cases mem
  | restoring | raised | registered | renewed => simp at mem
  | frame ms raises => exact (mem_flatMap_attempts mem).2.2
  | direct m isTmm raises => exact (mem_attempts mem).2.2
  | saveAll ms raises =>
      exact (mem_flatMap_attempts ((List.mem_append.mp mem).resolve_right (by simp))).2.2
  | shutdown ms raises =>
      exact (mem_flatMap_attempts ((List.mem_cons.mp mem).resolve_left (by simp))).2.2

/-- The saved table has the names that `ipairs` visits, with their values. -/
theorem tmpOf_apply (fields : String → Option Val) (varList : List (Option String))
    (key : String) :
    tmpOf fields varList key = if key ∈ ipairs varList then fields key else none := by
  have general : ∀ (vars : List String) (tmp : String → Option Val),
      vars.foldl (fun tmp var => Function.update tmp var (fields var)) tmp key =
        if key ∈ vars then fields key else tmp key := by
    intro vars
    induction vars with
    | nil => simp
    | cons var vars ih =>
        intro tmp
        rw [List.foldl_cons, ih]
        by_cases here : key = var
        · subst here
          simp
        · simp [here]
  exact general (ipairs varList) fun _ => none

theorem some_mem_of_ipairs {varList : List (Option String)} {name : String}
    (mem : name ∈ ipairs varList) : some name ∈ varList := by
  induction varList with
  | nil => cases mem
  | cons x rest ih =>
      cases x with
      | none => cases mem
      | some var =>
          cases List.mem_cons.mp mem with
          | inl here => exact here ▸ List.mem_cons_self
          | inr later => exact List.mem_cons_of_mem _ (ih later)

/-- The table with all variables of a registration. -/
def registeredVars (fields : String → Option Val) (varList : List (Option String))
    (key : String) : Option Val :=
  if some key ∈ varList then fields key else none

/-- A name that stands behind a nil, where `ipairs` does not come, is one without a value. -/
def NoneLost (fields : String → Option Val) (varList : List (Option String)) : Prop :=
  ∀ name, some name ∈ varList → name ∈ ipairs varList ∨ fields name = none

theorem tmpOf_iff_noneLost {fields : String → Option Val} {varList : List (Option String)} :
    tmpOf fields varList = registeredVars fields varList ↔ NoneLost fields varList := by
  rw [funext_iff]
  refine forall_congr' fun name => ?_
  rw [tmpOf_apply, registeredVars]
  by_cases visited : name ∈ ipairs varList
  · simp [visited, some_mem_of_ipairs visited]
  · by_cases listed : some name ∈ varList
    · simp [visited, listed, eq_comm]
    · simp [visited, listed]

/-- Without nil among the arguments no variable is lost. -/
theorem noneLost_of_full {fields : String → Option Val} {varList : List (Option String)}
    (full : none ∉ varList) : NoneLost fields varList := by
  intro name listed
  left
  induction varList with
  | nil => cases listed
  | cons x rest ih =>
      cases x with
      | none => exact absurd List.mem_cons_self full
      | some var =>
          cases List.mem_cons.mp listed with
          | inl here =>
              cases here
              exact List.mem_cons_self
          | inr later =>
              exact List.mem_cons_of_mem _ (ih (fun mem => full (List.mem_cons_of_mem _ mem)) later)

end Sends

section Status

/-- How the last registration of a module stands. -/
inductive Status where
  | restoring
  | raised
  | registered (varList : List (Option String))

def note (m : M) (status : Option Status) : Action M Val → Option Status
  | .restoring m' => if m' = m then some .restoring else status
  | .raised m' => if m' = m then some .raised else status
  | .registered m' varList => if m' = m then some (.registered varList) else status
  | .attempt _ => status
  | .snapshot _ => status

def statusOf (log : List (Action M Val)) (m : M) : Option Status :=
  log.foldl (note m) none

/-- What a run has done up to some event. -/
def logOf {E S : Type} (trace : List (E × S × List (Action M Val) × S)) : List (Action M Val) :=
  trace.flatMap fun x => x.2.2.1

variable {s s' : State M Val} {out log : List (Action M Val)}

theorem statusOf_append (m : M) :
    statusOf (log ++ out) m = out.foldl (note m) (statusOf log m) := by
  rw [statusOf, List.foldl_append]
  rfl

theorem foldl_note_of_silent (m : M) (status : Option Status)
    (silent : ∀ x ∈ out, (∃ a, x = .attempt a) ∨ ∃ ms, x = .snapshot ms) :
    out.foldl (note m) status = status := by
  induction out with
  | nil => rfl
  | cons x rest ih =>
      rw [List.foldl_cons]
      have same : note m status x = status := by
        obtain ⟨a, rfl⟩ | ⟨ms, rfl⟩ := silent x List.mem_cons_self
        · rfl
        · rfl
      rw [same]
      exact ih fun y mem => silent y (List.mem_cons_of_mem _ mem)

theorem attempts_silent {raises : M → Bool} {via : Via} {isTmm : Bool} {m : M} {x : Action M Val}
    (mem : x ∈ attempts s raises via isTmm m) : ∃ a, x = .attempt a := by
  simp only [attempts] at mem
  split at mem
  · cases mem
  · exact ⟨_, List.mem_singleton.mp mem⟩

/-- No two calls of `RegisterByEnv` wait for one module. -/
def Distinct (s : State M Val) : Prop := (s.restoring.map (·.2.1)).Nodup

omit [DecidableEq M] in
/-- Behind the answer to its call no other one waits for the module. -/
theorem Distinct.not_waiting (distinct : Distinct s) {call : Nat} {m : M}
    {arg : List (Option Arg)} (pending : s.restoring.lookup call = some (m, arg)) :
    m ∉ (Assoc.remove s.restoring call).map (·.2.1) := by
  intro mem
  obtain ⟨x, inside, same⟩ := List.mem_map.mp mem
  obtain ⟨old, other⟩ := Assoc.mem_remove.mp inside
  have own : (call, m, arg) ∈ s.restoring := Assoc.mem_of_lookup pending
  have one : x = (call, m, arg) := List.inj_on_of_nodup_map distinct old own same
  exact other (congrArg Prod.fst one)

/-- The registered modules are those whose last registration went through, and no
module that waits for its data is among them. -/
structure Sound (log : List (Action M Val)) (s : State M Val) : Prop where
  registered : ∀ m varList, s.saveRegTbl.lookup m = some varList →
    statusOf log m = some (.registered varList)
  waiting : ∀ m ∈ s.restoring.map (·.2.1), s.saveRegTbl.lookup m = none

theorem Sound.silent (sound : Sound log s) (table : s'.saveRegTbl = s.saveRegTbl)
    (waits : s'.restoring = s.restoring)
    (silent : ∀ x ∈ out, (∃ a, x = .attempt a) ∨ ∃ ms, x = .snapshot ms) :
    Sound (log ++ out) s' := by
  refine ⟨?_, ?_⟩
  · intro m varList held
    rw [statusOf_append, foldl_note_of_silent m _ silent]
    exact sound.registered m varList (table ▸ held)
  · intro m mem
    rw [table]
    exact sound.waiting m (waits ▸ mem)

theorem flatMap_attempts_silent {raises : M → Bool} {via : Via} {isTmm : Bool} {ms : List M}
    {x : Action M Val} (mem : x ∈ ms.flatMap (attempts s raises via isTmm)) :
    ∃ a, x = .attempt a := by
  obtain ⟨m, -, mem⟩ := List.mem_flatMap.mp mem
  exact attempts_silent mem

/-- An action about one module leaves the registrations of the others. -/
theorem statusOf_other {m m' : M} {x : Action M Val}
    (about : x = .restoring m ∨ x = .raised m ∨ ∃ varList, x = .registered m varList)
    (other : m ≠ m') : statusOf (log ++ [x]) m' = statusOf log m' := by
  rw [statusOf_append, List.foldl_cons, List.foldl_nil]
  obtain rfl | rfl | ⟨varList, rfl⟩ := about
  · exact if_neg other
  · exact if_neg other
  · exact if_neg other

/-- A registration that goes through, of a module that no other call waits for. -/
theorem Sound.registers (sound : Sound log s) {m : M} {varList : List (Option String)}
    (table : s'.saveRegTbl = Assoc.put s.saveRegTbl m varList)
    (waits : ∀ m' ∈ s'.restoring.map (·.2.1), m' ≠ m ∧ m' ∈ s.restoring.map (·.2.1)) :
    Sound (log ++ [.registered m varList]) s' := by
  refine ⟨?_, ?_⟩
  · intro m' varList' held
    rw [table, Assoc.lookup_put] at held
    by_cases here : m' = m
    · subst here
      rw [if_pos rfl] at held
      cases held
      rw [statusOf_append, List.foldl_cons, List.foldl_nil]
      exact if_pos rfl
    · rw [if_neg here] at held
      rw [statusOf_other (.inr (.inr ⟨varList, rfl⟩)) (Ne.symm here)]
      exact sound.registered m' varList' held
  · intro m' mem
    obtain ⟨other, inside⟩ := waits m' mem
    rw [table, Assoc.lookup_put, if_neg other]
    exact sound.waiting m' inside

theorem Sound.step {kind : Kind} (sound : Sound log s) (distinct : Distinct s)
    (effect : Effect s kind s' out) : Sound (log ++ out) s' := by
  cases effect with
  | assign fields => exact sound.silent rfl rfl nofun
  | restoring m arg absent =>
      refine ⟨?_, ?_⟩
      · intro m' varList held
        have other : m ≠ m' := by
          rintro rfl
          rw [absent] at held
          cases held
        rw [statusOf_other (.inl rfl) other]
        exact sound.registered m' varList held
      · intro m' mem
        cases List.mem_cons.mp mem with
        | inl new =>
            subst new
            exact absent
        | inr old => exact sound.waiting m' old
  | raised call m arg fields pending =>
      have own : m ∈ s.restoring.map (·.2.1) :=
        List.mem_map_of_mem (f := (·.2.1)) (Assoc.mem_of_lookup pending)
      refine ⟨?_, ?_⟩
      · intro m' varList held
        have other : m ≠ m' := by
          rintro rfl
          rw [sound.waiting m own] at held
          cases held
        rw [statusOf_other (.inr (.inl rfl)) other]
        exact sound.registered m' varList held
      · intro m' waits
        obtain ⟨x, mem, rfl⟩ := List.mem_map.mp waits
        exact sound.waiting _ (List.mem_map_of_mem (f := (·.2.1)) (Assoc.mem_remove.mp mem).1)
  | registered call m arg varList fields pending =>
      refine sound.registers rfl fun m' mem => ⟨?_, ?_⟩
      · rintro rfl
        exact distinct.not_waiting pending mem
      · obtain ⟨x, inside, rfl⟩ := List.mem_map.mp mem
        exact List.mem_map_of_mem (f := (·.2.1)) (Assoc.mem_remove.mp inside).1
  | renewed m varList held =>
      refine sound.registers rfl fun m' mem => ⟨?_, mem⟩
      rintro rfl
      exact held (sound.waiting m' mem)
  | collect m =>
      refine ⟨?_, ?_⟩
      · intro m' varList held
        rw [Assoc.lookup_remove] at held
        rw [List.append_nil]
        split at held
        · cases held
        · exact sound.registered m' varList held
      · intro m' mem
        rw [Assoc.lookup_remove, sound.waiting m' mem, ite_self]
  | frame ms raises =>
      exact sound.silent rfl rfl fun x mem => .inl (flatMap_attempts_silent mem)
  | direct m isTmm raises => exact sound.silent rfl rfl fun x mem => .inl (attempts_silent mem)
  | saveAll ms raises =>
      refine sound.silent rfl rfl fun x mem => ?_
      cases List.mem_append.mp mem with
      | inl saved => exact .inl (flatMap_attempts_silent saved)
      | inr last => exact .inr ⟨_, List.mem_singleton.mp last⟩
  | shutdown ms raises =>
      refine sound.silent rfl rfl fun x mem => ?_
      cases List.mem_cons.mp mem with
      | inl first => exact .inr ⟨_, first⟩
      | inr saved => exact .inl (flatMap_attempts_silent saved)

end Status

section Runs
variable {fields : M → String → Option Val} {s : State M Val}

/-- A record of an event: the event, the state before, the actions, the state after. -/
abbrev Entry (M Val : Type) := Event M Val × State M Val × List (Action M Val) × State M Val

variable {trace : List (Entry M Val)}

theorem reach_sound (reach : (machine fields).record.Reach trace s)
    (distinct : ∀ x ∈ trace, Distinct x.2.2.2) : Sound (logOf trace) s := by
  have both : (∀ x ∈ trace, Distinct x.2.2.2) → Sound (logOf trace) s ∧ Distinct s := by
    refine reach.invariant (fun trace s => (∀ x ∈ trace, Distinct x.2.2.2) →
      Sound (logOf trace) s ∧ Distinct s) ?_ ?_
    · exact fun _ => ⟨⟨nofun, nofun⟩, (List.nodup_nil : ([] : List M).Nodup)⟩
    · intro trace s e s' x ih h distinct
      obtain ⟨out, rfl, moved⟩ := Machine.record_step h
      obtain ⟨sound, before⟩ := ih fun x mem => distinct x (List.mem_append_left _ mem)
      have after : Distinct s' := distinct _ (List.mem_append_right _ List.mem_cons_self)
      have log : logOf (trace ++ [(e, s, out, s')]) = logOf trace ++ out := by simp [logOf]
      rw [log]
      exact ⟨sound.step before (step_effect moved), after⟩
  exact (both distinct).1

/-- A save is sent for a module only while its last registration stands, with its restore
returned, and sends the variables of this registration with the values they have. -/
def SavesRegistered (log : List (Action M Val)) (x : Entry M Val) : Prop :=
  ∀ a, .attempt a ∈ x.2.2.1 → ∃ varList, statusOf log a.mod = some (.registered varList) ∧
    a.tmp = registeredVars (x.2.1.fields a.mod) varList

/-- The modules that an event saves have values only for names that `ipairs` visits. -/
def SavesNoneLost (x : Entry M Val) : Prop :=
  ∀ a, .attempt a ∈ x.2.2.1 → ∀ varList, x.2.1.saveRegTbl.lookup a.mod = some varList →
    NoneLost (x.2.1.fields a.mod) varList

/-- In every run without two calls for one module, the saves are of registered modules and
send their variables exactly when no variable of a saved module stands behind a nil. -/
theorem saves_registered_iff (reach : (machine fields).record.Reach trace s)
    (distinct : ∀ x ∈ trace, Distinct x.2.2.2) :
    (∀ pre x post, trace = pre ++ x :: post → SavesRegistered (logOf pre) x) ↔
      ∀ x ∈ trace, SavesNoneLost x := by
  have entry : ∀ pre x post, trace = pre ++ x :: post →
      (SavesRegistered (logOf pre) x ↔ SavesNoneLost x) := by
    rintro pre ⟨e, before, out, after⟩ post rfl
    obtain ⟨t, t', reached, h, -⟩ := reach.split
    obtain ⟨out', same, moved⟩ := Machine.record_step h
    cases same
    have sound := reach_sound reached fun x mem => distinct x (List.mem_append_left _ mem)
    refine forall₂_congr fun a mem => ?_
    obtain ⟨varList, carries⟩ := (step_effect moved).carries mem
    have status := sound.registered _ _ carries.registered
    simp only [status, carries.registered, carries.tmp, Option.some.injEq,
      Status.registered.injEq, exists_eq_left', forall_eq']
    exact tmpOf_iff_noneLost
  constructor
  · intro all x mem
    obtain ⟨pre, post, split⟩ := List.append_of_mem mem
    exact (entry pre x post split).mp (all pre x post split)
  · rintro all pre x post rfl
    exact (entry pre x post rfl).mpr (all x (List.mem_append_right _ List.mem_cons_self))

/-- Two modules, the restore of one of which fails; the other one is registered with a nil
before a name without a value, and saved. -/
theorem saves_registered_restored :
    ∃ trace s, (machine fun _ _ => none : Machine (State Nat Nat) _ _).record.Reach trace s ∧
      s.saveRegTbl = [(2, [some "A", none, some "B"])] ∧ (logOf trace).length = 5 ∧
      ∀ pre x post, trace = pre ++ x :: post → SavesRegistered (logOf pre) x := by
  have reach : (machine fun _ _ => none : Machine (State Nat Nat) _ _).record.Reach _ _ :=
    .next (.next (.next (.next (.next (.next .init
      (e := .registerByEnv 1 [some (.string "DATA")]) rfl)
      (e := .registerByEnv 2 [some (.string "A"), none, some (.string "B")]) rfl)
      (e := .restored 1 (.table [("A", 5)])) rfl)
      (e := .restored 0 .failed) rfl)
      (e := .saveOneModule 1 false fun _ => false) rfl)
      (e := .saveOneModule 2 true fun _ => false) rfl
  refine ⟨_, _, reach, rfl, rfl, (saves_registered_iff reach ?_).mpr ?_⟩
  · unfold Distinct
    decide
  · simp only [List.nil_append, List.cons_append, List.forall_mem_cons]
    refine ⟨?_, ?_, ?_, ?_, ?_, ?_, List.forall_mem_nil _⟩
    · intro a mem
      cases List.mem_singleton.mp mem
    · intro a mem
      cases List.mem_singleton.mp mem
    · intro a mem
      cases List.mem_singleton.mp mem
    · intro a mem
      cases List.mem_singleton.mp mem
    · intro a mem
      cases mem
    · intro a mem varList held
      cases List.mem_singleton.mp mem
      cases held
      intro name listed
      simp only [List.mem_cons, Option.some.injEq, reduceCtorEq, List.not_mem_nil, or_false,
        false_or] at listed
      obtain rfl | rfl := listed
      · exact .inl List.mem_cons_self
      · exact .inr rfl

/-- `RegisterByEnv(m, "A", nil, "B")`: the save of the module leaves B out. -/
theorem variable_behind_nil_lost :
    ∃ trace s, (machine fun _ _ => none : Machine (State Nat Nat) _ _).record.Reach trace s ∧
      (∀ x ∈ trace, Distinct x.2.2.2) ∧ s.fields 1 "B" = some 2 ∧
      (∃ a, .attempt a ∈ logOf trace ∧ a.mod = 1 ∧ a.tmp "A" = some 1 ∧ a.tmp "B" = none) ∧
      ¬ ∀ pre x post, trace = pre ++ x :: post → SavesRegistered (logOf pre) x := by
  have reach : (machine fun _ _ => none : Machine (State Nat Nat) _ _).record.Reach _ _ :=
    .next (.next (.next .init
      (e := .registerByEnv 1 [some (.string "A"), none, some (.string "B")]) rfl)
      (e := .restored 0 (.table [("A", 1), ("B", 2)])) rfl)
      (e := .saveOneModule 1 false fun _ => false) rfl
  refine ⟨_, _, reach, ?_, rfl, ?_, fun all => ?_⟩
  · unfold Distinct
    decide
  · exact ⟨_, List.mem_cons_of_mem _ (List.mem_cons_of_mem _ List.mem_cons_self), rfl, rfl, rfl⟩
  · obtain ⟨varList, status, tmp⟩ := all [_, _] _ [] rfl _ List.mem_cons_self
    cases status
    have lost := congrFun tmp "B"
    cases lost

end Runs

end Qiuqiu.ModuleDb
