import Mathlib.Logic.Relation
import Qiuqiu.Base.Holders
import Qiuqiu.Base.Machine

/-!
The lock for readers and writers (skynet-src/rwlock.h), between any threads. Each access to
one of its two numbers is a step of its own.
-/
namespace Qiuqiu.Server.Rwlock

/-- Where a thread stands. -/
inductive Thread where
  | idle
  /-- the inner loop of `rwlock_rlock` -/
  | spins
  | increments
  | tests
  | withdraws
  | reads
  /-- the loops of `rwlock_wlock` -/
  | sets
  | waits
  | writes
  deriving Repr, DecidableEq

structure State where
  write : Nat
  read : Int
  threads : List Thread

/-- `write` is what an idle thread wants; the other threads go on. -/
inductive Event where
  | spawn
  | step (i : Nat) (write : Bool)

namespace State
variable (s : State) (i : Nat)

def become (t : Thread) : State := { s with threads := s.threads.set i t }

/-- A step of thread `i`. One that reads or writes leaves by `rwlock_runlock` or
`rwlock_wunlock`. -/
def run (write : Bool) : Thread → State
  | .idle => s.become i (if write then .sets else .spins)
  | .spins => if s.write ≠ 0 then s else s.become i .increments
  | .increments => { s with read := s.read + 1 }.become i .tests
  | .tests => s.become i (if s.write ≠ 0 then .withdraws else .reads)
  | .withdraws => { s with read := s.read - 1 }.become i .spins
  | .reads => { s with read := s.read - 1 }.become i .idle
  | .sets => if s.write = 0 then { s with write := 1 }.become i .waits else s
  | .waits => if s.read ≠ 0 then s else s.become i .writes
  | .writes => { s with write := 0 }.become i .idle

def step (s : State) : Event → Option (State × Unit)
  | .spawn => some ({ s with threads := s.threads ++ [.idle] }, ())
  | .step i write => (s.threads[i]?).map fun t => (s.run i write t, ())

end State

/-- `rwlock_init`. -/
def machine : Machine State Event Unit where
  init := ⟨0, 0, []⟩
  step := State.step

namespace Thread

/-- The thread is counted in `read`. -/
def counted : Thread → Nat
  | .tests | .withdraws | .reads => 1
  | _ => 0

/-- The thread has set `write`. -/
def owns : Thread → Nat
  | .waits | .writes => 1
  | _ => 0

end Thread

/-- The numbers count the threads, one thread has set `write` at most, and nobody reads
while another one writes. -/
structure Inv (s : State) : Prop where
  read : s.read = ((s.threads.map Thread.counted).sum : Nat)
  write : s.write = (s.threads.map Thread.owns).sum
  alone : s.write ≤ 1
  excludes : .writes ∈ s.threads → .reads ∉ s.threads

variable {s s' : State} {i j : Nat} {t t' : Thread} {trace : List (Event × Unit)}

/-- A thread moves. -/
theorem Inv.become (inv : Inv s) (at_i : s.threads[i]? = some t) {read : Int} {write : Nat}
    (counts : read + t.counted = s.read + t'.counted)
    (owned : write + t.owns = s.write + t'.owns) (alone : write ≤ 1)
    (excludes : (t' = .writes → .reads ∉ s.threads) ∧ (t' = .reads → .writes ∉ s.threads)) :
    Inv (State.become ⟨write, read, s.threads⟩ i t') := by
  have counted := Holders.sum_map_set Thread.counted at_i t'
  have owners := Holders.sum_map_set Thread.owns at_i t'
  have read_eq := inv.read
  have write_eq := inv.write
  refine ⟨?_, ?_, alone, ?_⟩
  · change read = (((s.threads.set i t').map Thread.counted).sum : Nat)
    omega
  · change write = ((s.threads.set i t').map Thread.owns).sum
    omega
  · intro writes reads
    cases List.mem_or_eq_of_mem_set writes with
    | inl old =>
        cases List.mem_or_eq_of_mem_set reads with
        | inl old' => exact inv.excludes old old'
        | inr new => exact excludes.2 new.symm old
    | inr new =>
        cases List.mem_or_eq_of_mem_set reads with
        | inl old => exact excludes.1 new.symm old
        | inr new' => cases new.trans new'.symm

/-- A thread moves outside. -/
theorem Inv.pass (inv : Inv s) (at_i : s.threads[i]? = some t) {read : Int} {write : Nat}
    (counts : read + t.counted = s.read + t'.counted)
    (owned : write + t.owns = s.write + t'.owns) (alone : write ≤ 1)
    (outside : t' ≠ .writes ∧ t' ≠ .reads) :
    Inv (State.become ⟨write, read, s.threads⟩ i t') :=
  inv.become at_i counts owned alone
    ⟨fun same => absurd same outside.1, fun same => absurd same outside.2⟩

theorem Inv.run (inv : Inv s) (at_i : s.threads[i]? = some t) (write : Bool) :
    Inv (s.run i write t) := by
  have alone := inv.alone
  have free : s.write = 0 → .writes ∉ s.threads := by
    intro zero mem
    have one := Holders.le_sum Thread.owns mem
    rw [← inv.write, zero] at one
    cases one
  cases t with
  | idle =>
      cases write with
      | true => exact inv.pass at_i rfl rfl alone (by decide)
      | false => exact inv.pass at_i rfl rfl alone (by decide)
  | spins =>
      rw [State.run]
      split
      · exact inv
      · exact inv.pass at_i rfl rfl alone (by decide)
  | increments => exact inv.pass at_i (Int.add_zero _) rfl alone (by decide)
  | tests =>
      rw [State.run]
      split
      · exact inv.pass at_i rfl rfl alone (by decide)
      · rename_i unset
        exact inv.become at_i rfl rfl alone ⟨Thread.noConfusion, fun _ => free (not_not.mp unset)⟩
  | withdraws =>
      exact inv.pass at_i ((Int.sub_add_cancel ..).trans (Int.add_zero _).symm) rfl alone
        (by decide)
  | reads =>
      exact inv.pass at_i ((Int.sub_add_cancel ..).trans (Int.add_zero _).symm) rfl alone
        (by decide)
  | sets =>
      rw [State.run]
      split
      · rename_i unset
        exact inv.pass at_i rfl (by rw [unset]; rfl) (Nat.le_refl 1) (by decide)
      · exact inv
  | waits =>
      rw [State.run]
      split
      · exact inv
      · rename_i unread
        refine inv.become at_i rfl rfl alone ⟨fun _ mem => ?_, Thread.noConfusion⟩
        have one := Holders.le_sum Thread.counted mem
        have zero := inv.read
        have unread := not_not.mp unread
        change 1 ≤ _ at one
        omega
  | writes =>
      have one := Holders.le_sum Thread.owns (List.mem_of_getElem? at_i)
      rw [← inv.write] at one
      exact inv.pass at_i rfl (Nat.le_antisymm one alone) (Nat.zero_le 1) (by decide)

theorem Inv.step {e : Event} {o : Unit} (inv : Inv s) (took : s.step e = some (s', o)) :
    Inv s' := by
  cases e with
  | spawn =>
      cases took
      refine ⟨?_, ?_, inv.alone, fun writes reads => ?_⟩
      · rw [inv.read, List.map_append, List.sum_append]
        rfl
      · rw [inv.write, List.map_append, List.sum_append]
        rfl
      · have old : ∀ t : Thread, t ∈ s.threads ++ [.idle] → t ≠ .idle → t ∈ s.threads :=
          fun t mem other => (List.mem_append.mp mem).resolve_right fun new =>
            other (List.mem_singleton.mp new)
        exact inv.excludes (old _ writes Thread.noConfusion) (old _ reads Thread.noConfusion)
  | step i write =>
      obtain ⟨t, at_i, eq⟩ := Option.map_eq_some_iff.mp took
      cases eq
      exact inv.run at_i write

theorem Inv.of_reach (reach : machine.Reach trace s) : Inv s :=
  reach.invariant (fun _ s => Inv s) ⟨rfl, rfl, Nat.zero_le 1, fun mem => by cases mem⟩
    fun _ _ _ _ _ inv took => inv.step took

/-- The threads that are there can bring the lock from one state to another. -/
def Leads : State → State → Prop :=
  Relation.ReflTransGen fun s s' => ∃ i write, s.step (.step i write) = some (s', ())

/-- A thread at one of the loops of `rwlock_rlock` and `rwlock_wlock` is still there. -/
def Keeps (s s' : State) : Prop :=
  ∀ (k : Nat) (t : Thread), t = .spins ∨ t = .sets → s.threads[k]? = some t →
    s'.threads[k]? = some t

/-- The steps a reader makes until it is not counted. -/
def Thread.pending : Thread → Nat
  | .tests => 2
  | .withdraws | .reads => 1
  | _ => 0

theorem step_eq (at_i : s.threads[i]? = some t) (write : Bool) :
    s.step (.step i write) = some (s.run i write t, ()) := by
  rw [State.step, at_i]
  rfl

theorem leads_run (at_i : s.threads[i]? = some t) (write : Bool) : Leads s (s.run i write t) :=
  .single ⟨i, write, step_eq at_i write⟩

theorem Inv.of_leads (inv : Inv s) (leads : Leads s s') : Inv s' := by
  induction leads with
  | refl => exact inv
  | tail _ next ih =>
      obtain ⟨i, write, took⟩ := next
      exact ih.step took

theorem get_become (at_i : s.threads[i]? = some t) (t' : Thread) :
    (s.become i t').threads[i]? = some t' := by
  obtain ⟨lt, -⟩ := List.getElem?_eq_some_iff.mp at_i
  exact List.getElem?_set_self lt

theorem get_become_ne (other : i ≠ j) (t' : Thread) :
    (s.become i t').threads[j]? = s.threads[j]? := List.getElem?_set_ne other

/-- A thread that is elsewhere moves. -/
theorem Keeps.become (at_i : s.threads[i]? = some t) (inside : t ≠ .spins ∧ t ≠ .sets)
    (write : Nat) (read : Int) (t' : Thread) :
    Keeps s (State.become ⟨write, read, s.threads⟩ i t') := by
  intro k x loops at_k
  have other : i ≠ k := by
    intro same
    subst same
    cases at_i.symm.trans at_k
    cases loops with
    | inl spins => exact inside.1 spins
    | inr sets => exact inside.2 sets
  exact (get_become_ne other t').trans at_k

/-- A writer that has set `write` comes in when nobody is counted. -/
theorem enters (at_i : s.threads[i]? = some .waits) (unread : s.read = 0) :
    ∃ s', Leads s s' ∧ s'.threads[i]? = some .writes ∧ Keeps s s' := by
  have run : s.run i false .waits = s.become i .writes := if_neg (not_not_intro unread)
  refine ⟨_, leads_run at_i false, ?_, ?_⟩
  · rw [run]
    exact get_become at_i _
  · rw [run]
    exact Keeps.become at_i (by decide) _ _ _

theorem exists_counted (inv : Inv s) (read : s.read ≠ 0) : ∃ t ∈ s.threads, t.counted ≠ 0 := by
  apply Holders.exists_of_sum
  intro zero
  apply read
  rw [inv.read, zero]
  rfl

/-- The readers can leave. -/
theorem drains (inv : Inv s) (at_i : s.threads[i]? = some .waits) :
    ∃ s', Leads s s' ∧ s'.threads[i]? = some .writes ∧ Keeps s s' := by
  -- by the steps that the readers have to make
  obtain ⟨n, bound⟩ : ∃ n, (s.threads.map Thread.pending).sum ≤ n := ⟨_, Nat.le_refl _⟩
  induction n generalizing s with
  | zero =>
      refine enters at_i ?_
      by_contra read
      obtain ⟨t, mem, pos⟩ := exists_counted inv read
      have pending := Nat.le_trans (Holders.le_sum Thread.pending mem) bound
      cases t <;> first | exact pos rfl | cases pending
  | succ n ih =>
      by_cases unread : s.read = 0
      · exact enters at_i unread
      · obtain ⟨t, mem, pos⟩ := exists_counted inv unread
        obtain ⟨j, at_j⟩ := List.getElem?_of_mem mem
        have set : s.write ≠ 0 := by
          have one := Holders.le_sum Thread.owns (List.mem_of_getElem? at_i)
          rw [← inv.write] at one
          exact Nat.ne_of_gt one
        obtain ⟨t', read, run, less, inside⟩ : ∃ t' read,
            s.run j false t = State.become ⟨s.write, read, s.threads⟩ j t' ∧
              t'.pending < t.pending ∧ t ≠ .waits ∧ t ≠ .spins ∧ t ≠ .sets := by
          cases t with
          | tests =>
              exact ⟨.withdraws, s.read, congrArg (s.become j) (if_pos set), by decide, by decide⟩
          | withdraws => exact ⟨.spins, s.read - 1, rfl, by decide, by decide⟩
          | reads => exact ⟨.idle, s.read - 1, rfl, by decide, by decide⟩
          | idle | spins | increments | sets | waits | writes => exact absurd rfl pos
        have other : j ≠ i := by
          intro same
          subst same
          exact inside.1 (Option.some.inj (at_j.symm.trans at_i))
        have sum := Holders.sum_map_set Thread.pending at_j t'
        obtain ⟨s', leads, writes, keeps⟩ := ih (s := s.run j false t) (inv.run at_j false)
          (by rw [run]; exact (get_become_ne other t').trans at_i)
          (by
            rw [run]
            change ((s.threads.set j t').map Thread.pending).sum ≤ n
            omega)
        refine ⟨s', (leads_run at_j false).trans leads, writes, fun k x loops at_k => ?_⟩
        refine keeps k x loops ?_
        rw [run]
        exact Keeps.become at_j inside.2 _ _ _ k x loops at_k

/-- Who has the lock for writing can give it back. -/
theorem releases (inv : Inv s) : ∃ s', Leads s s' ∧ s'.write = 0 ∧ Keeps s s' := by
  have leaves : ∀ s : State, ∀ j : Nat, s.threads[j]? = some .writes →
      ∃ s', Leads s s' ∧ s'.write = 0 ∧ Keeps s s' := by
    intro s j at_j
    exact ⟨_, leads_run at_j false, rfl, Keeps.become at_j (by decide) _ _ _⟩
  by_cases unset : s.write = 0
  · exact ⟨s, .refl, unset, fun _ _ _ at_k => at_k⟩
  · have owned : (s.threads.map Thread.owns).sum ≠ 0 := inv.write ▸ unset
    obtain ⟨t, mem, pos⟩ := Holders.exists_of_sum Thread.owns owned
    obtain ⟨j, at_j⟩ := List.getElem?_of_mem mem
    cases t with
    | waits =>
        obtain ⟨s₁, leads, writes, keeps⟩ := drains inv at_j
        obtain ⟨s₂, leads', zero, keeps'⟩ := leaves s₁ j writes
        exact ⟨s₂, leads.trans leads', zero,
          fun k x loops at_k => keeps' k x loops (keeps k x loops at_k)⟩
    | writes => exact leaves s j at_j
    | idle | spins | increments | tests | withdraws | reads | sets => exact absurd rfl pos

/-- A thread that wants the lock can always get it. -/
theorem admits (inv : Inv s) (at_i : s.threads[i]? = some t) (wants : t ≠ .idle) :
    ∃ s', Leads s s' ∧ (s'.threads[i]? = some .reads ∨ s'.threads[i]? = some .writes) := by
  have from_tests : ∀ s : State, s.write = 0 → s.threads[i]? = some .tests →
      ∃ s', Leads s s' ∧ (s'.threads[i]? = some .reads ∨ s'.threads[i]? = some .writes) := by
    intro s unset at_i
    refine ⟨_, leads_run at_i false, .inl ?_⟩
    rw [State.run, if_neg (not_not_intro unset)]
    exact get_become at_i _
  have from_spins : ∀ s : State, Inv s → s.threads[i]? = some .spins →
      ∃ s', Leads s s' ∧ (s'.threads[i]? = some .reads ∨ s'.threads[i]? = some .writes) := by
    intro s inv at_i
    obtain ⟨s₁, leads, unset, keeps⟩ := releases inv
    have at_s₁ := keeps i .spins (.inl rfl) at_i
    have run : s₁.run i false .spins = s₁.become i .increments := if_neg (not_not_intro unset)
    have at_s₂ : (s₁.run i false .spins).threads[i]? = some .increments := by
      rw [run]
      exact get_become at_s₁ _
    have unset' : (s₁.run i false .spins).write = 0 := by
      rw [run]
      exact unset
    obtain ⟨s', leads', inside⟩ := from_tests
      ((s₁.run i false .spins).run i false .increments) unset'
      (get_become (s := { s₁.run i false .spins with read := _ }) at_s₂ _)
    exact ⟨s', ((leads.trans (leads_run at_s₁ false)).trans (leads_run at_s₂ false)).trans leads',
      inside⟩
  have from_withdraws : ∀ s : State, Inv s → s.threads[i]? = some .withdraws →
      ∃ s', Leads s s' ∧ (s'.threads[i]? = some .reads ∨ s'.threads[i]? = some .writes) := by
    intro s inv at_i
    obtain ⟨s', leads, inside⟩ := from_spins (s.run i false .withdraws) (inv.run at_i false)
      (get_become (s := { s with read := _ }) at_i _)
    exact ⟨s', (leads_run at_i false).trans leads, inside⟩
  have past_tests : ∀ s : State, Inv s → s.threads[i]? = some .tests →
      ∃ s', Leads s s' ∧ (s'.threads[i]? = some .reads ∨ s'.threads[i]? = some .writes) := by
    intro s inv at_i
    by_cases unset : s.write = 0
    · exact from_tests s unset at_i
    · have at_s' : (s.run i false .tests).threads[i]? = some .withdraws := by
        rw [State.run, if_pos unset]
        exact get_become at_i _
      obtain ⟨s', leads, inside⟩ := from_withdraws _ (inv.run at_i false) at_s'
      exact ⟨s', (leads_run at_i false).trans leads, inside⟩
  cases t with
  | idle => exact absurd rfl wants
  | spins => exact from_spins s inv at_i
  | increments =>
      obtain ⟨s', leads, inside⟩ := past_tests (s.run i false .increments) (inv.run at_i false)
        (get_become (s := { s with read := _ }) at_i _)
      exact ⟨s', (leads_run at_i false).trans leads, inside⟩
  | tests => exact past_tests s inv at_i
  | withdraws => exact from_withdraws s inv at_i
  | reads => exact ⟨s, .refl, .inl at_i⟩
  | sets =>
      obtain ⟨s₁, leads, unset, keeps⟩ := releases inv
      have at_s₁ := keeps i .sets (.inr rfl) at_i
      have at_s₂ : (s₁.run i false .sets).threads[i]? = some .waits := by
        rw [State.run, if_pos unset]
        exact get_become (s := { s₁ with write := 1 }) at_s₁ _
      obtain ⟨s', leads', writes, -⟩ := drains ((inv.of_leads leads).run at_s₁ false) at_s₂
      exact ⟨s', (leads.trans (leads_run at_s₁ false)).trans leads', .inr writes⟩
  | waits =>
      obtain ⟨s', leads, writes, -⟩ := drains inv at_i
      exact ⟨s', leads, .inr writes⟩
  | writes => exact ⟨s, .refl, .inr at_i⟩

/-- Over every run: while a thread writes no other one reads or writes, a lock that nobody is
at is as `rwlock_init` leaves it, and each thread that wants the lock can still get it. -/
theorem rwlock_excludes (reach : machine.Reach trace s) :
    (∀ i j : Nat, i ≠ j → s.threads[i]? = some .writes →
      s.threads[j]? ≠ some .reads ∧ s.threads[j]? ≠ some .writes) ∧
    ((∀ t ∈ s.threads, t = .idle) → s.write = 0 ∧ s.read = 0) ∧
    ∀ (i : Nat) (t : Thread), s.threads[i]? = some t → t ≠ .idle →
      ∃ s', Leads s s' ∧ (s'.threads[i]? = some .reads ∨ s'.threads[i]? = some .writes) := by
  have inv := Inv.of_reach reach
  refine ⟨?_, ?_, fun i t at_i wants => admits inv at_i wants⟩
  · intro i j other at_i
    constructor
    · intro at_j
      exact inv.excludes (List.mem_of_getElem? at_i) (List.mem_of_getElem? at_j)
    · intro at_j
      -- without one of the two the other is left in the sum
      have sum := Holders.sum_map_set Thread.owns at_j .idle
      have one := Holders.le_sum Thread.owns (List.mem_of_getElem?
        ((List.getElem?_set_ne other.symm (a := .idle)).trans at_i))
      have alone := inv.alone
      have write := inv.write
      change 1 ≤ _ at one
      change _ + 1 = _ + 0 at sum
      omega
  · intro idle
    have zero : ∀ f : Thread → Nat, f .idle = 0 → (s.threads.map f).sum = 0 := by
      intro f none
      by_contra pos
      obtain ⟨t, mem, other⟩ := Holders.exists_of_sum f pos
      exact other ((congrArg f (idle t mem)).trans none)
    exact ⟨inv.write.trans (zero _ rfl), inv.read.trans (congrArg _ (zero _ rfl))⟩

/-- A writer that waits for a reader. -/
theorem rwlock_excludes_two : ∃ trace s, machine.Reach trace s ∧
    s.threads = [.reads, .waits] ∧
    ∃ s', Leads s s' ∧ (s'.threads[1]? = some .reads ∨ s'.threads[1]? = some .writes) := by
  have ran : ∃ trace s, machine.run machine.init
      [.spawn, .spawn, .step 0 false, .step 0 false, .step 0 false, .step 0 false,
        .step 1 true, .step 1 true] = some (trace, s) ∧ s.threads = [.reads, .waits] :=
    ⟨_, _, rfl, rfl⟩
  obtain ⟨trace, s, ran, threads⟩ := ran
  refine ⟨trace, s, Machine.reach_run ran, threads, ?_⟩
  exact (rwlock_excludes (Machine.reach_run ran)).2.2 1 .waits (by rw [threads]; rfl) (by decide)

end Qiuqiu.Server.Rwlock
