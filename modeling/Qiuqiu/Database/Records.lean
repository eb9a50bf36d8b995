import Mathlib.Data.List.Basic
import Mathlib.Data.List.Perm.Basic
import Mathlib.Data.List.Nodup
import Mathlib.Data.List.Range
import Mathlib.Tactic.SplitIfs
import Qiuqiu.Base.Holders
import Qiuqiu.Base.Machine

/-!
The delayed deletion of the files of battle records and of result records
(service/databasecell/dbsave.lua). Ids wait in one list up to a tick and in another one up
to the next tick; then a coroutine removes their files and sleeps in between. The last
loops of `CloseAllCache` take what the lists still hold, but look for the files of the
result records where those of the battle records are.
-/
namespace Qiuqiu.Database.Records

/-- An id put into a list. The code keeps the id; its number among the queuings and the
number of ticks before it are those of the run. -/
structure Queuing where
  no : Nat
  id : String
  tick : Nat
  deriving DecidableEq

/-- A call of `os.remove`: for which queuing, the path, the number of ticks before it and
whether `CloseAllCache` made it. -/
structure Removal where
  queuing : Queuing
  path : String
  ticks : Nat
  byClose : Bool

/-- A coroutine over a captured list: the ids it has left, how many it has counted, and
whether it sleeps, with the first of them counted. -/
structure Fork where
  dcnt : Nat
  asleep : Bool
  left : List Queuing

def deleteBattlerecordSleep : Nat := 20

/-- The loop of a coroutine up to its next sleep: what it removes and how it goes on. -/
def deleteFrom (dcnt : Nat) : List Queuing → List Queuing × Fork
  | [] => ([], ⟨dcnt, false, []⟩)
  | q :: left =>
      if (dcnt + 1) % deleteBattlerecordSleep = 0 then ([], ⟨dcnt + 1, true, q :: left⟩)
      else
        let later := deleteFrom (dcnt + 1) left
        (q :: later.1, later.2)

def Fork.resume (fork : Fork) : List Queuing × Fork :=
  match fork.asleep, fork.left with
  | true, q :: left =>
      let later := deleteFrom fork.dcnt left
      (q :: later.1, later.2)
  | _, left => deleteFrom fork.dcnt left

/-- The two lists of one kind of records, `DelayDel…List_F` and `DelayDel…List_S`, and the
coroutines that delete; with them the ticks, queuings and removals so far. -/
structure Buffer where
  first : List Queuing
  second : List Queuing
  forks : List Fork
  ticks : Nat
  queued : List Queuing
  removed : List Removal

namespace Buffer

def empty : Buffer := ⟨[], [], [], 0, [], []⟩

variable (savePath : String → String) (b : Buffer)

/-- `tinsert` of an id. -/
def insert (id : String) : Buffer :=
  let q : Queuing := ⟨b.queued.length, id, b.ticks⟩
  { b with second := b.second ++ [q], queued := b.queued ++ [q] }

/-- A tick of a service that is not closing: `CheckDelayDelBattleRecord` and
`CheckDelayDelResultRecord` differ in their lists and paths only. -/
def checkDelayDel : Buffer :=
  let needDeleteData := b.first
  { b with
    first := b.second
    second := []
    ticks := b.ticks + 1
    forks := if 0 < needDeleteData.length then b.forks ++ [⟨0, false, needDeleteData⟩]
      else b.forks }

def removals (byClose : Bool) (gone : List Queuing) : List Removal :=
  gone.map fun q => ⟨q, savePath q.id, b.ticks, byClose⟩

/-- A coroutine starts, or goes on behind its sleep. -/
def resume (i : Nat) : Option Buffer :=
  match b.forks[i]? with
  | none => none
  | some fork =>
      some { b with
        forks := b.forks.set i fork.resume.2
        removed := b.removed ++ b.removals savePath false fork.resume.1 }

def resumeAll : Buffer → List Nat → Option Buffer
  | b, [] => some b
  | b, i :: is => (b.resume savePath i).bind (resumeAll · is)

/-- A pair of loops of `CloseAllCache`. The lists stay as they are. -/
def flush : Buffer :=
  { b with removed := b.removed ++ b.removals savePath true (b.first ++ b.second) }

/-- No coroutine has anything left. -/
def Ended : Prop := ∀ fork ∈ b.forks, fork.left = []

/-- Files are removed for queuings, each at its path and once, not before the second tick
unless by `CloseAllCache`; and the coroutines come to an end, in whatever order they run,
with every file removed whose time has come. -/
structure Correct (closed : Bool) : Prop where
  path : ∀ r ∈ b.removed, r.path = savePath r.queuing.id
  queued : ∀ r ∈ b.removed, r.queuing ∈ b.queued
  once : (b.removed.map Removal.queuing).Nodup
  late : ∀ r ∈ b.removed, r.byClose = true ∨ r.queuing.tick + 2 ≤ r.ticks
  ends : ∃ is after, b.resumeAll savePath is = some after ∧ after.Ended
  due : ∀ is after, b.resumeAll savePath is = some after → after.Ended →
    ∀ q ∈ b.queued, closed = true ∨ q.tick + 2 ≤ b.ticks →
      q ∈ after.removed.map Removal.queuing

/-- The queuings a coroutine has removed or will remove. -/
def handled : List Queuing := b.removed.map Removal.queuing ++ b.forks.flatMap Fork.left

/-- The queuings that wait for a tick, until `CloseAllCache` has taken them. -/
def waiting (closed : Bool) : List Queuing := if closed then [] else b.first ++ b.second

/-- Every queuing is handled or waits, and none is both. -/
structure Inv (closed : Bool) : Prop where
  account : (b.handled ++ b.waiting closed).Perm b.queued
  numbered : b.queued.map Queuing.no = List.range b.queued.length
  path : ∀ r ∈ b.removed, r.path = savePath r.queuing.id
  late : ∀ r ∈ b.removed, r.byClose = true ∨ r.queuing.tick + 2 ≤ r.ticks
  second : ∀ q ∈ b.second, q.tick = b.ticks
  first : ∀ q ∈ b.first, q.tick + 1 = b.ticks
  forks : ∀ fork ∈ b.forks, ∀ q ∈ fork.left, q.tick + 2 ≤ b.ticks

end Buffer

section Fork

/-- A coroutine removes a first part of its list and has the others left. -/
theorem deleteFrom_append (dcnt : Nat) (left : List Queuing) :
    (deleteFrom dcnt left).1 ++ (deleteFrom dcnt left).2.left = left := by
  fun_induction deleteFrom dcnt left with
  | case1 dcnt => rfl
  | case2 dcnt q left sleeps => rfl
  | case3 dcnt q left awake later ih => exact congrArg (q :: ·) ih

theorem Fork.resume_append (fork : Fork) : fork.resume.1 ++ fork.resume.2.left = fork.left := by
  rw [Fork.resume]
  split
  next q left asleep eq =>
    rw [eq]
    exact congrArg (q :: ·) (deleteFrom_append fork.dcnt left)
  · exact deleteFrom_append _ _

/-- How many times a coroutine runs at most: every start or wake-up lowers it. -/
def Fork.steps (fork : Fork) : Nat :=
  if fork.left = [] then 0 else 2 * fork.left.length + if fork.asleep then 0 else 1

theorem steps_deleteFrom (dcnt : Nat) (left : List Queuing) :
    (deleteFrom dcnt left).2.steps ≤ 2 * left.length := by
  fun_induction deleteFrom dcnt left with
  | case1 dcnt => exact Nat.le_refl 0
  | case2 dcnt q left sleeps => simp [Fork.steps]
  | case3 dcnt q left awake later ih =>
      rw [List.length_cons]
      exact ih.trans (by omega)

theorem Fork.steps_resume (fork : Fork) (more : fork.left ≠ []) :
    fork.resume.2.steps < fork.steps := by
  rw [Fork.resume, Fork.steps.eq_def fork, if_neg more]
  split
  next q left asleep eq =>
    have le := steps_deleteFrom fork.dcnt left
    rw [eq, List.length_cons]
    exact Nat.lt_of_le_of_lt le (by omega)
  next other =>
    have le := steps_deleteFrom fork.dcnt fork.left
    cases asleep : fork.asleep with
    | false => exact Nat.lt_succ_of_le le
    | true =>
        obtain ⟨q, left, eq⟩ := List.exists_cons_of_ne_nil more
        exact absurd eq (other q left asleep)

end Fork

namespace Buffer
variable {savePath : String → String} {b after : Buffer} {closed : Bool} {i : Nat}

/-- What a coroutine does to the buffer: it goes on in its place among the others. -/
theorem resume_cases (done : b.resume savePath i = some after) :
    ∃ before fork behind, b.forks[i]? = some fork ∧ b.forks = before ++ fork :: behind ∧
      after = { b with
        forks := before ++ fork.resume.2 :: behind
        removed := b.removed ++ b.removals savePath false fork.resume.1 } := by
  rw [resume] at done
  split at done
  · cases done
  next fork at_i =>
    cases done
    obtain ⟨before, behind, eq, set⟩ := Holders.exists_place at_i
    exact ⟨before, fork, behind, at_i, eq, by rw [set]⟩

theorem map_removals (byClose : Bool) (gone : List Queuing) :
    (b.removals savePath byClose gone).map Removal.queuing = gone := by
  rw [removals, List.map_map]
  exact List.map_id gone

theorem mem_removals {byClose : Bool} {gone : List Queuing} {r : Removal}
    (mem : r ∈ b.removals savePath byClose gone) :
    r.queuing ∈ gone ∧ r.path = savePath r.queuing.id ∧ r.ticks = b.ticks ∧
      r.byClose = byClose := by
  obtain ⟨q, inside, rfl⟩ := List.mem_map.mp mem
  exact ⟨inside, rfl, rfl, rfl⟩

/-- Whatever the coroutines do, the same queuings are handled. -/
theorem handled_resume (done : b.resume savePath i = some after) :
    after.handled.Perm b.handled := by
  obtain ⟨before, fork, behind, -, eq, rfl⟩ := resume_cases done
  simp only [handled, eq, List.map_append, map_removals, List.flatMap_append, List.flatMap_cons]
  rw [← fork.resume_append]
  simp only [List.append_assoc]
  exact (List.perm_append_comm_assoc _ _ _).append_left _

theorem handled_resumeAll {is : List Nat} (done : b.resumeAll savePath is = some after) :
    after.handled.Perm b.handled := by
  induction is generalizing b with
  | nil =>
      cases done
      exact .rfl
  | cons i is ih =>
      obtain ⟨next, first, rest⟩ := Option.bind_eq_some_iff.mp done
      exact (ih rest).trans (handled_resume first)

/-- The coroutines can run to their end. -/
theorem exists_ended (savePath : String → String) (b : Buffer) :
    ∃ is after, b.resumeAll savePath is = some after ∧ after.Ended := by
  induction measure : (b.forks.map Fork.steps).sum using Nat.strong_induction_on generalizing b with
  | h n ih =>
      by_cases ended : b.Ended
      · exact ⟨[], b, rfl, ended⟩
      simp only [Ended, not_forall] at ended
      obtain ⟨fork, mem, more⟩ := ended
      obtain ⟨i, at_i⟩ := List.mem_iff_getElem?.mp mem
      have runs : ∃ next, b.resume savePath i = some next := by
        rw [resume, at_i]
        exact ⟨_, rfl⟩
      obtain ⟨next, first⟩ := runs
      have less : (next.forks.map Fork.steps).sum < n := by
        obtain ⟨before, fork', behind, at_i', eq, rfl⟩ := resume_cases first
        cases at_i.symm.trans at_i'
        have lowers := fork.steps_resume more
        rw [← measure, eq]
        simp only [List.map_append, List.map_cons, List.sum_append, List.sum_cons]
        omega
      obtain ⟨is, after, rest, ended⟩ := ih _ less next rfl
      exact ⟨i :: is, after, Option.bind_eq_some_iff.mpr ⟨next, first, rest⟩, ended⟩

theorem handled_ended (ended : after.Ended) :
    after.handled = after.removed.map Removal.queuing := by
  rw [handled, List.flatMap_eq_nil_iff.mpr ended, List.append_nil]

/-- A tick hands the list that has waited for two ticks to the coroutines. -/
theorem flatMap_checkDelayDel :
    b.checkDelayDel.forks.flatMap Fork.left = b.forks.flatMap Fork.left ++ b.first := by
  simp only [checkDelayDel]
  split_ifs with some
  · rw [List.flatMap_append, List.flatMap_singleton]
  · rw [List.eq_nil_of_length_eq_zero (Nat.eq_zero_of_not_pos some), List.append_nil]

namespace Inv

theorem nodup (inv : b.Inv savePath closed) : b.queued.Nodup := by
  refine List.Nodup.of_map Queuing.no ?_
  rw [inv.numbered]
  exact List.nodup_range

theorem correct (inv : b.Inv savePath closed) : b.Correct savePath closed where
  path := inv.path
  queued := by
    intro r mem
    refine inv.account.mem_iff.mp (List.mem_append_left _ (List.mem_append_left _ ?_))
    exact List.mem_map_of_mem mem
  once := by
    have all := inv.account.nodup_iff.mpr inv.nodup
    exact (List.nodup_append.mp (List.nodup_append.mp all).1).1
  late := inv.late
  ends := exists_ended savePath b
  due := by
    intro is after done ended q mem due
    rw [← handled_ended ended, (handled_resumeAll done).mem_iff]
    refine (List.mem_append.mp (inv.account.mem_iff.mpr mem)).resolve_right ?_
    intro waits
    rw [waiting] at waits
    split_ifs at waits with open_
    · cases waits
    · have late := due.resolve_left open_
      cases List.mem_append.mp waits with
      | inl mem =>
          have tick := inv.first q mem
          omega
      | inr mem =>
          have tick := inv.second q mem
          omega

theorem empty : Buffer.empty.Inv savePath false := by
  constructor <;> simp [Buffer.empty, handled, waiting]

theorem insert (inv : b.Inv savePath false) (id : String) : (b.insert id).Inv savePath false where
  account := by
    have account := inv.account.append_right [⟨b.queued.length, id, b.ticks⟩]
    simpa [handled, waiting, Buffer.insert] using account
  numbered := by
    simp only [Buffer.insert, List.map_append, inv.numbered, List.length_append]
    exact List.range_succ.symm
  path := inv.path
  late := inv.late
  second := by
    intro q mem
    cases List.mem_append.mp mem with
    | inl mem => exact inv.second q mem
    | inr mem =>
        cases List.mem_singleton.mp mem
        rfl
  first := inv.first
  forks := inv.forks

theorem checkDelayDel (inv : b.Inv savePath false) : b.checkDelayDel.Inv savePath false where
  account := by
    change (b.removed.map Removal.queuing ++ b.checkDelayDel.forks.flatMap Fork.left ++
      (b.second ++ [])).Perm b.queued
    rw [flatMap_checkDelayDel, List.append_nil]
    simpa [handled, waiting] using inv.account
  numbered := inv.numbered
  path := inv.path
  late := inv.late
  second := nofun
  first := by
    intro q mem
    rw [inv.second q mem]
    rfl
  forks := by
    intro fork present q mem
    change q.tick + 2 ≤ b.ticks + 1
    have inside : q ∈ b.checkDelayDel.forks.flatMap Fork.left :=
      List.mem_flatMap.mpr ⟨fork, present, mem⟩
    rw [flatMap_checkDelayDel, List.mem_append] at inside
    cases inside with
    | inl earlier =>
        obtain ⟨fork, present, mem⟩ := List.mem_flatMap.mp earlier
        exact Nat.le_succ_of_le (inv.forks fork present q mem)
    | inr now => rw [← inv.first q now]

theorem resume (inv : b.Inv savePath closed) (done : b.resume savePath i = some after) :
    after.Inv savePath closed := by
  have handled := handled_resume done
  obtain ⟨before, fork, behind, -, eq, rfl⟩ := resume_cases done
  have parts := fork.resume_append
  have tick : ∀ q ∈ fork.left, q.tick + 2 ≤ b.ticks := inv.forks fork (by rw [eq]; simp)
  refine ⟨(handled.append_right _).trans inv.account, inv.numbered, ?_, ?_, inv.second,
    inv.first, ?_⟩
  · intro r mem
    cases List.mem_append.mp mem with
    | inl mem => exact inv.path r mem
    | inr mem => exact (mem_removals mem).2.1
  · intro r mem
    cases List.mem_append.mp mem with
    | inl mem => exact inv.late r mem
    | inr mem =>
        obtain ⟨gone, -, ticks, -⟩ := mem_removals mem
        rw [ticks]
        exact .inr (tick _ (parts ▸ List.mem_append_left _ gone))
  · intro fork' present q mem
    rcases List.mem_append.mp present with present | present
    · exact inv.forks fork' (by rw [eq]; exact List.mem_append_left _ present) q mem
    rcases List.mem_cons.mp present with rfl | present
    · exact tick q (parts ▸ List.mem_append_right _ mem)
    · refine inv.forks fork' ?_ q mem
      rw [eq]
      exact List.mem_append_right _ (List.mem_cons_of_mem _ present)

theorem flush (inv : b.Inv savePath false) : (b.flush savePath).Inv savePath true where
  account := by
    have account := inv.account
    simp only [handled, waiting, Bool.false_eq_true, if_false] at account
    simp only [handled, waiting, Buffer.flush, List.map_append, map_removals, if_true,
      List.append_nil]
    rw [List.append_assoc] at account ⊢
    exact (List.perm_append_comm.append_left _).trans account
  numbered := inv.numbered
  path := by
    intro r mem
    cases List.mem_append.mp mem with
    | inl mem => exact inv.path r mem
    | inr mem => exact (mem_removals mem).2.1
  late := by
    intro r mem
    cases List.mem_append.mp mem with
    | inl mem => exact inv.late r mem
    | inr mem => exact .inl (mem_removals mem).2.2.2
  second := inv.second
  first := inv.first
  forks := inv.forks

/-- A queuing behind `CloseAllCache` is never removed. -/
theorem not_correct_insert (inv : b.Inv savePath true) (id : String) :
    ¬ (b.insert id).Correct savePath true := by
  intro correct
  obtain ⟨is, after, done, ended⟩ := correct.ends
  have mem := correct.due is after done ended ⟨b.queued.length, id, b.ticks⟩
    (List.mem_append_right _ (List.mem_singleton_self _)) (.inl rfl)
  rw [← handled_ended ended, (handled_resumeAll done).mem_iff] at mem
  have before : (⟨b.queued.length, id, b.ticks⟩ : Queuing) ∈ b.queued :=
    inv.account.mem_iff.mp (List.mem_append_left _ mem)
  have small := List.mem_map_of_mem (f := Queuing.no) before
  rw [inv.numbered, List.mem_range] at small
  exact Nat.lt_irrefl _ small

end Inv
end Buffer

/-- The directories of the files, behind `DATABASE_BASEDIR`. -/
def savePath (basePath id : String) : String :=
  basePath ++ "/" ++ String.ofList (id.toList.take 2) ++ "/" ++
    String.ofList ((id.toList.drop 2).take 9) ++ "/" ++ id ++ ".dat"

def getRecordSavePath (baseDir fId : String) : String := savePath (baseDir ++ "record") fId

def getResultRecordSavePath (baseDir rId : String) : String :=
  savePath (baseDir ++ "resultrecord") rId

theorem record_ne_resultRecord (baseDir id : String) :
    getRecordSavePath baseDir id ≠ getResultRecordSavePath baseDir id := by
  intro same
  have length := congrArg String.length same
  simp only [getRecordSavePath, getResultRecordSavePath, savePath, String.length_append] at length
  have : "record".length = 6 := rfl
  have : "resultrecord".length = 12 := rfl
  omega

/-- The service: `Invalid`, whether the loops of `CloseAllCache` are over, and the lists
of both kinds of records. -/
structure State where
  invalid : Bool
  closed : Bool
  battle : Buffer
  result : Buffer

/-- `closedb` is the first part of the request, `closeAllCache` the loops that delete
records; there may be other events in between. -/
inductive Event where
  | battlerecordDelete (fId : String)
  | battlerecordDeletelist (fIdList : List String)
  | resultrecordDelete (rId : String)
  | checkDelayDelBattleRecord
  | checkDelayDelResultRecord
  | resumeBattle (i : Nat)
  | resumeResult (i : Nat)
  | closedb
  | closeAllCache

namespace State
variable (baseDir : String) (s : State)

def battlerecordDelete (fId : String) : State :=
  if s.invalid then s else { s with battle := s.battle.insert fId }

def battlerecordDeletelist (fIdList : List String) : State :=
  if s.invalid then s else { s with battle := fIdList.foldl Buffer.insert s.battle }

def resultrecordDelete (rId : String) : State := { s with result := s.result.insert rId }

def checkDelayDelBattleRecord : State :=
  if s.invalid then s else { s with battle := s.battle.checkDelayDel }

def checkDelayDelResultRecord : State :=
  if s.invalid then s else { s with result := s.result.checkDelayDel }

/-- Both pairs of loops look for the files of battle records. -/
def closeAllCache : State :=
  { s with
    closed := true
    battle := s.battle.flush (getRecordSavePath baseDir)
    result := s.result.flush (getRecordSavePath baseDir) }

def step : Event → Option State
  | .battlerecordDelete fId => some (s.battlerecordDelete fId)
  | .battlerecordDeletelist fIdList => some (s.battlerecordDeletelist fIdList)
  | .resultrecordDelete rId => some (s.resultrecordDelete rId)
  | .checkDelayDelBattleRecord => some s.checkDelayDelBattleRecord
  | .checkDelayDelResultRecord => some s.checkDelayDelResultRecord
  | .resumeBattle i =>
      (s.battle.resume (getRecordSavePath baseDir) i).map ({ s with battle := · })
  | .resumeResult i =>
      (s.result.resume (getResultRecordSavePath baseDir) i).map ({ s with result := · })
  | .closedb => some { s with invalid := true }
  | .closeAllCache => if s.invalid && !s.closed then some (s.closeAllCache baseDir) else none

/-- Both kinds of records are deleted as they should. -/
structure Correct : Prop where
  battle : s.battle.Correct (getRecordSavePath baseDir) s.closed
  result : s.result.Correct (getResultRecordSavePath baseDir) s.closed

structure Inv : Prop where
  battle : s.battle.Inv (getRecordSavePath baseDir) s.closed
  result : s.result.Inv (getResultRecordSavePath baseDir) s.closed
  invalid : s.closed = true → s.invalid = true

/-- No result record waits when `CloseAllCache` comes to its loops, and none is queued
behind them. -/
def StepOk : Event → Prop
  | .resultrecordDelete _ => s.closed = false
  | .closeAllCache => s.result.first = [] ∧ s.result.second = []
  | _ => True

end State

def machine (baseDir : String) : Machine State Event Unit where
  init := ⟨false, false, .empty, .empty⟩
  step := fun s e => (s.step baseDir e).map (·, ())

namespace State
variable {baseDir : String} {s s' : State} {e : Event}

theorem Inv.correct (inv : s.Inv baseDir) : s.Correct baseDir :=
  ⟨inv.battle.correct, inv.result.correct⟩

/-- What a service does only while it is not closing, and so before it has closed. -/
theorem Inv.if_valid (inv : s.Inv baseDir) (keep : s.closed = false → s'.Inv baseDir) :
    (if s.invalid then s else s').Inv baseDir := by
  split_ifs with invalid
  · exact inv
  · refine keep (Bool.eq_false_iff.mpr fun closed => ?_)
    exact invalid (inv.invalid closed)

theorem Inv.setBattle (inv : s.Inv baseDir) (open_ : s.closed = false) {b : Buffer}
    (keep : s.battle.Inv (getRecordSavePath baseDir) false →
      b.Inv (getRecordSavePath baseDir) false) : { s with battle := b }.Inv baseDir := by
  have battle := inv.battle
  rw [open_] at battle
  refine ⟨?_, inv.result, inv.invalid⟩
  rw [open_]
  exact keep battle

theorem Inv.setResult (inv : s.Inv baseDir) (open_ : s.closed = false) {b : Buffer}
    (keep : s.result.Inv (getResultRecordSavePath baseDir) false →
      b.Inv (getResultRecordSavePath baseDir) false) : { s with result := b }.Inv baseDir := by
  have result := inv.result
  rw [open_] at result
  refine ⟨inv.battle, ?_, inv.invalid⟩
  rw [open_]
  exact keep result

theorem foldl_insert {savePath : String → String} {b : Buffer} (inv : b.Inv savePath false)
    (ids : List String) : (ids.foldl Buffer.insert b).Inv savePath false := by
  induction ids generalizing b with
  | nil => exact inv
  | cons id ids ih => exact ih (inv.insert id)

/-- A step that meets the condition keeps the account. -/
theorem Inv.step (inv : s.Inv baseDir) (step : s.step baseDir e = some s') (ok : s.StepOk e) :
    s'.Inv baseDir := by
  cases e with
  | battlerecordDelete fId =>
      cases step
      exact inv.if_valid fun open_ => inv.setBattle open_ (·.insert fId)
  | battlerecordDeletelist fIdList =>
      cases step
      exact inv.if_valid fun open_ => inv.setBattle open_ (foldl_insert · fIdList)
  | resultrecordDelete rId =>
      cases step
      exact inv.setResult ok (·.insert rId)
  | checkDelayDelBattleRecord =>
      cases step
      exact inv.if_valid fun open_ => inv.setBattle open_ (·.checkDelayDel)
  | checkDelayDelResultRecord =>
      cases step
      exact inv.if_valid fun open_ => inv.setResult open_ (·.checkDelayDel)
  | resumeBattle i =>
      obtain ⟨b, done, rfl⟩ := Option.map_eq_some_iff.mp step
      exact ⟨inv.battle.resume done, inv.result, inv.invalid⟩
  | resumeResult i =>
      obtain ⟨b, done, rfl⟩ := Option.map_eq_some_iff.mp step
      exact ⟨inv.battle, inv.result.resume done, inv.invalid⟩
  | closedb =>
      cases step
      exact ⟨inv.battle, inv.result, fun _ => rfl⟩
  | closeAllCache =>
      rw [State.step, Option.ite_none_right_eq_some, Bool.and_eq_true, Bool.not_eq_true'] at step
      obtain ⟨⟨invalid, open_⟩, eq⟩ := step
      cases eq
      have battle := inv.battle
      have result := inv.result
      rw [open_] at battle result
      refine ⟨battle.flush, ?_, fun _ => invalid⟩
      -- There is nothing to remove, so the path does not matter.
      have same : s.result.flush (getRecordSavePath baseDir) =
          s.result.flush (getResultRecordSavePath baseDir) := by
        rw [Buffer.flush, Buffer.flush, ok.1, ok.2]
        rfl
      change (s.result.flush (getRecordSavePath baseDir)).Inv _ true
      rw [same]
      exact result.flush

/-- A step that does not meet it removes a wrong file or leaves a file behind. -/
theorem Inv.stepOk (inv : s.Inv baseDir) (step : s.step baseDir e = some s')
    (correct : s'.Correct baseDir) : s.StepOk e := by
  cases e with
  | resultrecordDelete rId =>
      cases step
      by_contra closed
      have closed : s.closed = true := by simpa [StepOk] using closed
      have result := inv.result
      have wrong := correct.result
      change (s.result.insert rId).Correct _ s.closed at wrong
      rw [closed] at result wrong
      exact result.not_correct_insert rId wrong
  | closeAllCache =>
      rw [State.step, Option.ite_none_right_eq_some] at step
      obtain ⟨-, eq⟩ := step
      cases eq
      have path := correct.result.path
      rw [StepOk, ← List.append_eq_nil_iff, List.eq_nil_iff_forall_not_mem]
      intro q mem
      have wrong := path ⟨q, getRecordSavePath baseDir q.id, s.result.ticks, true⟩
        (List.mem_append_right _ (List.mem_map_of_mem mem))
      exact record_ne_resultRecord baseDir q.id wrong
  | _ => trivial

end State

/-- Along every run the records are deleted as they should exactly when no result record
waits at the loops of `CloseAllCache` and none is queued behind them. -/
theorem correct_iff_no_result_left (baseDir : String)
    {trace : List (Event × State × Unit × State)} {s : State}
    (reach : (machine baseDir).record.Reach trace s) :
    (∀ x ∈ trace, x.2.2.2.Correct baseDir) ↔ ∀ x ∈ trace, x.2.1.StepOk x.1 := by
  refine reach.states_iff (State.Inv baseDir) ?_ ?_ (fun s inv => inv.correct) ?_
  · exact ⟨.empty, .empty, nofun⟩
  · intro s e s' o inv step ok
    obtain ⟨s₁, moved, eq⟩ := Option.map_eq_some_iff.mp step
    cases eq
    exact inv.step moved ok
  · intro s e s' o inv step correct
    obtain ⟨s₁, moved, eq⟩ := Option.map_eq_some_iff.mp step
    cases eq
    exact inv.stepOk moved correct

/-- A battle record queued and deleted behind the second tick, and one deleted by
`CloseAllCache`. -/
theorem correct_of_battle_records :
    ∃ trace s, (machine "").record.Reach trace s ∧ s.battle.removed.length = 2 ∧
      ∀ x ∈ trace, x.2.2.2.Correct "" := by
  have reach : (machine "").record.Reach _ _ :=
    .next (.next (.next (.next (.next (.next (.next .init
      (e := .battlerecordDelete "1001") rfl) (e := .checkDelayDelBattleRecord) rfl)
      (e := .checkDelayDelBattleRecord) rfl) (e := .resumeBattle 0) rfl)
      (e := .battlerecordDelete "1002") rfl) (e := .closedb) rfl) (e := .closeAllCache) rfl
  refine ⟨_, _, reach, rfl, (correct_iff_no_result_left "" reach).mpr ?_⟩
  simp only [List.nil_append, List.cons_append, List.forall_mem_cons]
  exact ⟨trivial, trivial, trivial, trivial, trivial, trivial, ⟨rfl, rfl⟩, nofun⟩

/-- A result record that waits when the service closes. -/
theorem result_record_removed_elsewhere :
    ∃ trace s, (machine "").record.Reach trace s ∧
      s.result.removed.map Removal.path = ["record/10/01/1001.dat"] ∧
      ¬ ∀ x ∈ trace, x.2.2.2.Correct "" := by
  have reach : (machine "").record.Reach _ _ :=
    .next (.next (.next .init (e := .resultrecordDelete "1001") rfl) (e := .closedb) rfl)
      (e := .closeAllCache) rfl
  refine ⟨_, _, reach, rfl, fun all => ?_⟩
  have last := (all _ (List.mem_append_right _ List.mem_cons_self)).result.path _ List.mem_cons_self
  exact record_ne_resultRecord "" "1001" last

end Qiuqiu.Database.Records
