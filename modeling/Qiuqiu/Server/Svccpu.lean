import Mathlib.Data.List.Count
import Mathlib.Data.List.Nodup
import Mathlib.Tactic.SplitIfs
import Qiuqiu.Base.Holders
import Qiuqiu.Base.Machine

/-!
The file of the cpu log of a context (skynet-src/skynet_server.c). A command takes its
steps between those of the others: it loads `logsvccpufile`, opens a file, and exchanges
the field if it still holds what it expects. `cmd_logoff` closes the file it took out;
`cmd_log_svccpu_off`, its copy, closes the file when the exchange failed.
-/
namespace Qiuqiu.Server.Svccpu

/-- What `fopen` returned: an address, and its number among the files opened. Addresses
come back, numbers do not. -/
structure File where
  ptr : Nat
  no : Nat
  deriving DecidableEq

/-- Where a command on the context stands. -/
inductive Command where
  | onStart
  | onOpens
  | onExchanges (f : File)
  | onCloses (f : File)
  | offStart
  | offExchanges (f : File)
  | offCloses (f : File)
  | done
  deriving DecidableEq

/-- The file that a command will store or close. -/
def Command.holds : Command → List File
  | .onExchanges f | .onCloses f | .offCloses f => [f]
  | _ => []

/-- `logsvccpufile` of the context, the commands that have grabbed it, whether it is
deleted, and the files opened and closed so far. -/
structure State where
  logsvccpufile : Option File
  commands : List Command
  deleted : Bool
  opened : List File
  closed : List File

/-- `exchange` may fail although the field holds what is expected: it is the weak one. -/
inductive Event where
  | on
  | off
  | load (i : Nat)
  | fopen (i : Nat) (ptr : Option Nat)
  | exchange (i : Nat) (spurious : Bool)
  | fclose (i : Nat)
  | delete
  deriving DecidableEq

namespace State
variable (s : State)

def grab (c : Command) : Option State :=
  if s.deleted then none else some { s with commands := s.commands ++ [c] }

def become (i : Nat) (c : Command) : State := { s with commands := s.commands.set i c }

def load (i : Nat) : Command → Option State
  | .onStart => some (s.become i (if s.logsvccpufile.isNone then .onOpens else .done))
  | .offStart =>
      some (s.become i (match s.logsvccpufile with
        | some f => .offExchanges f
        | none => .done))
  | _ => none

/-- `skynet_log_svccpu_open`. No two open files have one address. -/
def fopen (i : Nat) (ptr : Option Nat) : Command → Option State
  | .onOpens =>
      match ptr with
      | none => some (s.become i .done)
      | some ptr =>
          if s.opened.all fun f => f ∈ s.closed || f.ptr ≠ ptr then
            let f : File := ⟨ptr, s.opened.length⟩
            some { s.become i (.onExchanges f) with opened := s.opened ++ [f] }
          else none
  | _ => none

/-- `ATOM_CAS_POINTER` with the branch of the command behind it. -/
def exchange (i : Nat) (spurious : Bool) : Command → Option State
  | .onExchanges f =>
      some (if s.logsvccpufile.isNone && !spurious then
        { s.become i .done with logsvccpufile := some f }
      else s.become i (.onCloses f))
  | .offExchanges f =>
      some (if s.logsvccpufile.map File.ptr = some f.ptr && !spurious then
        { s.become i .done with logsvccpufile := none }
      else s.become i (.offCloses f))
  | _ => none

def fclose (i : Nat) : Command → Option State
  | .onCloses f | .offCloses f => some { s.become i .done with closed := f :: s.closed }
  | _ => none

/-- `delete_context`, when the last command has released the context. -/
def delete : Option State :=
  if s.deleted || s.commands.any (· ≠ .done) then none
  else some { s with
    deleted := true
    logsvccpufile := none
    closed := s.logsvccpufile.toList ++ s.closed }

def step : Event → Option State
  | .on => s.grab .onStart
  | .off => s.grab .offStart
  | .load i => s.commands[i]?.bind (s.load i)
  | .fopen i ptr => s.commands[i]?.bind (s.fopen i ptr)
  | .exchange i spurious => s.commands[i]?.bind (s.exchange i spurious)
  | .fclose i => s.commands[i]?.bind (s.fclose i)
  | .delete => s.delete

/-- Who has a file: the field, a command that will store or close it, or it is closed. -/
def owners : List File :=
  s.logsvccpufile.toList ++ (s.commands.flatMap Command.holds ++ s.closed)

/-- Every file opened has one owner: it is not lost, not closed twice and not stored when
closed; behind the deletion all are closed. -/
structure Correct : Prop where
  owned : s.owners.Perm s.opened
  once : s.closed.Nodup
  stored : ∀ f, s.logsvccpufile = some f → f ∈ s.opened ∧ f ∉ s.closed
  ended : s.deleted = true → ∀ f ∈ s.opened, f ∈ s.closed

/-- No command to switch the log off comes to its exchange. -/
def StepOk : Event → Prop
  | .exchange i _ => ∀ f, s.commands[i]? ≠ some (Command.offExchanges f)
  | _ => True

structure Inv : Prop where
  counted : ∀ f, s.owners.count f = s.opened.count f
  numbered : s.opened.map File.no = List.range s.opened.length
  ended : s.deleted = true → s.logsvccpufile = none ∧ ∀ c ∈ s.commands, c = .done

variable {s} {s' : State} {e : Event} {i : Nat} {c c' : Command}

/-- What a command holds changes when it takes a step. -/
theorem count_become (at_i : s.commands[i]? = some c) (c' : Command) (f : File) :
    ((s.become i c').commands.flatMap Command.holds).count f + c.holds.count f =
      (s.commands.flatMap Command.holds).count f + c'.holds.count f := by
  have perm := (Holders.perm_flatMap_set Command.holds at_i c').count_eq f
  rwa [List.count_append, List.count_append] at perm

namespace Inv

theorem nodup (inv : s.Inv) : s.owners.Nodup := by
  refine (List.perm_iff_count.mpr inv.counted).nodup_iff.mpr (List.Nodup.of_map File.no ?_)
  rw [inv.numbered]
  exact List.nodup_range

theorem correct (inv : s.Inv) : s.Correct where
  owned := List.perm_iff_count.mpr inv.counted
  once := (List.nodup_append.mp (List.nodup_append.mp inv.nodup).2.1).2.1
  stored := by
    intro f stored
    have mem : f ∈ s.logsvccpufile.toList := by simp [stored]
    constructor
    · exact (List.perm_iff_count.mpr inv.counted).mem_iff.mp (List.mem_append_left _ mem)
    · intro closed
      exact (List.nodup_append.mp inv.nodup).2.2 f mem f (List.mem_append_right _ closed) rfl
  ended := by
    intro deleted f mem
    obtain ⟨none, done⟩ := inv.ended deleted
    have idle : s.commands.flatMap Command.holds = [] := by
      rw [List.flatMap_eq_nil_iff]
      intro c inside
      rw [done c inside]
      rfl
    have owned := (List.perm_iff_count.mpr inv.counted).mem_iff.mpr mem
    rwa [owners, none, idle] at owned

/-- A deleted context takes no further step. -/
theorem alive (inv : s.Inv) (step : s.step e = some s') : s.deleted = false := by
  cases deleted : s.deleted with
  | false => rfl
  | true =>
      have done := (inv.ended deleted).2
      cases e with
      | on | off | delete => simp [State.step, grab, delete, deleted] at step
      | load i | fopen i _ | exchange i _ | fclose i =>
          obtain ⟨c, at_i, moved⟩ := Option.bind_eq_some_iff.mp step
          rw [done c (List.mem_of_getElem? at_i)] at moved
          cases moved

/-- A step of a command that lets the context live. -/
theorem of_count (inv : s.Inv) (alive : s'.deleted = false)
    (numbered : s'.opened.map File.no = List.range s'.opened.length)
    (counted : ∀ f, s'.owners.count f + s.opened.count f = s.owners.count f + s'.opened.count f) :
    s'.Inv where
  counted := by
    intro f
    have before := inv.counted f
    have after := counted f
    omega
  numbered := numbered
  ended := by simp [alive]

/-- A step that changes nothing but the place of its command. -/
theorem become (inv : s.Inv) (alive : s.deleted = false) (at_i : s.commands[i]? = some c)
    (same : c'.holds = c.holds) : (s.become i c').Inv := by
  refine inv.of_count alive inv.numbered fun f => ?_
  have count := count_become at_i c' f
  rw [same] at count
  simp only [owners, List.count_append, State.become] at count ⊢
  omega

theorem load (inv : s.Inv) (alive : s.deleted = false) (at_i : s.commands[i]? = some c)
    (loaded : s.load i c = some s') : s'.Inv := by
  cases c with
  | onStart =>
      cases loaded
      exact inv.become alive at_i (by split <;> rfl)
  | offStart =>
      cases loaded
      exact inv.become alive at_i (by split <;> rfl)
  | _ => cases loaded

theorem fopen (inv : s.Inv) (alive : s.deleted = false) {ptr : Option Nat}
    (at_i : s.commands[i]? = some c) (opened : s.fopen i ptr c = some s') : s'.Inv := by
  cases c with
  | onOpens =>
      cases ptr with
      | none =>
          cases opened
          exact inv.become alive at_i rfl
      | some ptr =>
          simp only [State.fopen] at opened
          split_ifs at opened with fresh
          cases opened
          refine inv.of_count alive ?_ fun f => ?_
          · simp only [List.map_append, inv.numbered, List.length_append]
            exact List.range_succ.symm
          · have count := count_become at_i (.onExchanges ⟨ptr, s.opened.length⟩) f
            simp only [owners, List.count_append, State.become, Command.holds, List.count_nil]
              at count ⊢
            omega
  | _ => cases opened

/-- The exchange of a command that switches the log on. -/
theorem exchange (inv : s.Inv) (alive : s.deleted = false) {spurious : Bool}
    (at_i : s.commands[i]? = some c) (ok : ∀ f, c ≠ .offExchanges f)
    (exchanged : s.exchange i spurious c = some s') : s'.Inv := by
  cases c with
  | onExchanges f =>
      simp only [State.exchange, Option.some.injEq] at exchanged
      split_ifs at exchanged with won
      · subst exchanged
        refine inv.of_count alive inv.numbered fun f' => ?_
        have count := count_become at_i .done f'
        have empty : s.logsvccpufile = none := by simpa using (Bool.and_eq_true_iff.mp won).1
        simp only [owners, List.count_append, State.become, Command.holds, List.count_nil, empty,
          Option.toList_none, Option.toList_some] at count ⊢
        omega
      · subst exchanged
        exact inv.become alive at_i rfl
  | offExchanges f => exact absurd rfl (ok f)
  | _ => cases exchanged

theorem fclose (inv : s.Inv) (alive : s.deleted = false) (at_i : s.commands[i]? = some c)
    (closed : s.fclose i c = some s') : s'.Inv := by
  have closes : ∀ f, c.holds = [f] →
      { s.become i .done with closed := f :: s.closed }.Inv := by
    intro f holds
    refine inv.of_count alive inv.numbered fun f' => ?_
    have count := count_become at_i .done f'
    rw [holds] at count
    simp only [owners, List.count_append, State.become, Command.holds, List.count_nil,
      List.count_cons] at count ⊢
    omega
  cases c with
  | onCloses f | offCloses f =>
      cases closed
      exact closes f rfl
  | _ => cases closed

theorem grab (inv : s.Inv) (grabbed : s.grab c = some s') (empty : c.holds = []) : s'.Inv := by
  simp only [State.grab] at grabbed
  split_ifs at grabbed with deleted
  cases grabbed
  refine inv.of_count (Bool.eq_false_iff.mpr deleted) inv.numbered fun f => ?_
  simp only [owners, List.flatMap_append, List.flatMap_singleton, empty, List.append_nil]

theorem delete (inv : s.Inv) (deleted : s.delete = some s') : s'.Inv := by
  simp only [State.delete] at deleted
  split_ifs at deleted with busy
  cases deleted
  have idle : s.deleted = false ∧ ∀ c ∈ s.commands, c = .done := by simpa using busy
  refine ⟨fun f => ?_, inv.numbered, fun _ => ⟨rfl, idle.2⟩⟩
  have counted := inv.counted f
  simp only [owners, List.count_append, Option.toList_none, List.count_nil] at counted ⊢
  omega

/-- A step that is not the exchange of a command to switch off keeps the account. -/
theorem step (inv : s.Inv) (step : s.step e = some s') (ok : s.StepOk e) : s'.Inv := by
  have alive := inv.alive step
  cases e with
  | on => exact inv.grab step rfl
  | off => exact inv.grab step rfl
  | delete => exact inv.delete step
  | load i =>
      obtain ⟨c, at_i, moved⟩ := Option.bind_eq_some_iff.mp step
      exact inv.load alive at_i moved
  | fopen i ptr =>
      obtain ⟨c, at_i, moved⟩ := Option.bind_eq_some_iff.mp step
      exact inv.fopen alive at_i moved
  | exchange i spurious =>
      obtain ⟨c, at_i, moved⟩ := Option.bind_eq_some_iff.mp step
      exact inv.exchange alive at_i (fun f off => ok f (off ▸ at_i)) moved
  | fclose i =>
      obtain ⟨c, at_i, moved⟩ := Option.bind_eq_some_iff.mp step
      exact inv.fclose alive at_i moved

/-- The exchange of a command to switch off loses the file it took out, or makes the
command an owner of a file that is not its own. -/
theorem stepOk (inv : s.Inv) (step : s.step e = some s') (correct : s'.Correct) :
    s.StepOk e := by
  cases e with
  | exchange i spurious =>
      intro f at_i
      obtain ⟨c, at_i', moved⟩ := Option.bind_eq_some_iff.mp step
      cases at_i.symm.trans at_i'
      simp only [State.exchange, Option.some.injEq] at moved
      split_ifs at moved with took
      · obtain ⟨g, stored, -⟩ : ∃ g, s.logsvccpufile = some g ∧ g.ptr = f.ptr := by
          simpa using (Bool.and_eq_true_iff.mp took).1
        have owned := correct.owned.count_eq g
        have counted := inv.counted g
        have count := count_become at_i .done g
        subst moved
        simp only [owners, List.count_append, State.become, Command.holds, List.count_nil, stored,
          Option.toList_none, Option.toList_some, List.count_singleton_self] at owned counted count
        omega
      · have owned := correct.owned.count_eq f
        have counted := inv.counted f
        have count := count_become at_i (.offCloses f) f
        subst moved
        simp only [owners, List.count_append, State.become, Command.holds, List.count_nil,
          List.count_singleton_self] at owned counted count
        omega
  | _ => trivial

end Inv

end State

def machine : Machine State Event Unit where
  init := ⟨none, [], false, [], []⟩
  step := fun s e => (s.step e).map (·, ())

/-- Along every interleaving of the commands with the deletion, every file has one owner up
to its close exactly when no command to switch the log off comes to its exchange. -/
theorem correct_iff_no_off_exchange {trace : List (Event × State × Unit × State)} {s : State}
    (reach : machine.record.Reach trace s) :
    (∀ x ∈ trace, x.2.2.2.Correct) ↔ ∀ x ∈ trace, x.2.1.StepOk x.1 := by
  refine reach.states_iff State.Inv ?_ ?_ (fun s inv => inv.correct) ?_
  · exact ⟨fun _ => rfl, rfl, nofun⟩
  · intro s e s' o inv step ok
    obtain ⟨s₁, moved, eq⟩ := Option.map_eq_some_iff.mp step
    cases eq
    exact inv.step moved ok
  · intro s e s' o inv step correct
    obtain ⟨s₁, moved, eq⟩ := Option.map_eq_some_iff.mp step
    cases eq
    exact inv.stepOk moved correct

/-- Two commands to switch on race, the second one closes its file, and the deletion closes
the other. -/
theorem correct_of_race :
    ∃ trace s, machine.record.Reach trace s ∧ s.closed = [⟨16, 0⟩, ⟨32, 1⟩] ∧
      ∀ x ∈ trace, x.2.2.2.Correct := by
  have reach : machine.record.Reach _ _ :=
    .next (.next (.next (.next (.next (.next (.next (.next (.next (.next .init
      (e := .on) rfl) (e := .on) rfl) (e := .load 0) rfl) (e := .load 1) rfl)
      (e := .fopen 0 (some 16)) rfl) (e := .fopen 1 (some 32)) rfl) (e := .exchange 0 false) rfl)
      (e := .exchange 1 false) rfl) (e := .fclose 1) rfl) (e := .delete) rfl
  refine ⟨_, _, reach, rfl, (correct_iff_no_off_exchange reach).mpr ?_⟩
  simp only [List.nil_append, List.cons_append, List.forall_mem_cons]
  exact ⟨trivial, trivial, trivial, trivial, trivial, trivial, nofun, nofun, trivial, trivial,
    nofun⟩

/-- The log is switched on, off, and the context deleted: the file stays open. -/
theorem file_lost :
    ∃ trace s, machine.record.Reach trace s ∧ s.deleted = true ∧ s.opened = [⟨16, 0⟩] ∧
      s.closed = [] ∧ ¬ ∀ x ∈ trace, x.2.2.2.Correct := by
  have reach : machine.record.Reach _ _ :=
    .next (.next (.next (.next (.next (.next (.next (.next .init
      (e := .on) rfl) (e := .load 0) rfl) (e := .fopen 0 (some 16)) rfl)
      (e := .exchange 0 false) rfl) (e := .off) rfl) (e := .load 1) rfl)
      (e := .exchange 1 false) rfl) (e := .delete) rfl
  refine ⟨_, _, reach, rfl, rfl, rfl, fun all => ?_⟩
  have last := all _ (List.mem_append_right _ List.mem_cons_self)
  cases last.ended rfl ⟨16, 0⟩ List.mem_cons_self

end Qiuqiu.Server.Svccpu
