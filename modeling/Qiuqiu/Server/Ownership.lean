import Mathlib.Data.List.Count
import Mathlib.Data.List.Nodup
import Qiuqiu.Base.Holders
import Qiuqiu.Server.Dispatch

/-!
Who has a queue and who has a context. A queue that is not parked stands in the global queue
or with one task; the references of a context are those of its handle and of the tasks; the
last one to let it go deletes it, and the last one to have its queue frees it.
-/
namespace Qiuqiu.Server.Dispatch
variable {M : Type}

namespace Task

/-- The queues a task has to itself. -/
def queues : Task M → List Nat
  | .holds q | .pops q _ _ | .sizes q _ _ _ | .dispatches q _ _ _ | .calls q _ _ | .swaps q
  | .inits q | .initializes q | .publishes q => [q]
  | .returns q nq => [q, nq]
  | .retires _ next | .lets _ next | .marks _ next | .frees _ next => next.queues
  | .releases q next | .drops q next | .freesQueue q next => q :: next.queues
  | .idle | .done | .sends _ _ | .pushes _ _ => []

/-- The contexts a task has a reference to. -/
def refs : Task M → List Nat
  | .pops q _ _ | .sizes q _ _ _ | .dispatches q _ _ _ | .calls q _ _ | .swaps q | .returns q _
  | .pushes q _ | .inits q => [q]
  | .lets handle next => handle :: next.refs
  | .retires _ next | .marks _ next | .frees _ next | .releases _ next | .drops _ next
  | .freesQueue _ next => next.refs
  | .idle | .done | .holds _ | .sends _ _ | .initializes _ | .publishes _ => []

/-- The contexts a task is about to mark. -/
def marking : Task M → List Nat
  | .marks handle next => handle :: next.marking
  | .retires _ next | .lets _ next | .frees _ next | .releases _ next | .drops _ next
  | .freesQueue _ next => next.marking
  | _ => []

/-- The contexts a task is about to free. -/
def freeing : Task M → List Nat
  | .frees handle next => handle :: next.freeing
  | .retires _ next | .lets _ next | .marks _ next | .releases _ next | .drops _ next
  | .freesQueue _ next => next.freeing
  | _ => []

end Task

/-- An idle queue: the next push brings it to the global queue. -/
def Service.parked (v : Service M) : Bool := !v.mq.inGlobal && !v.mq.release

/-- A service against the places of its queue and the references to its context. -/
structure Service.Fits (v : Service M) (queues refs marking freeing : Nat) : Prop where
  token : queues + v.parked.toNat + v.queueFreed.toNat = 1
  counted : v.ref = v.inTable.toNat + refs
  deleted : (v.ref = 0 ∧ marking + freeing + v.freed.toNat = 1) ∨
    (0 < v.ref ∧ marking + freeing + v.freed.toNat = 0)
  marked : v.mq.release.toNat = freeing + v.freed.toNat
  ended : v.queueFreed.toNat ≤ v.mq.release.toNat

/-- Nobody has anything of a service that does not exist. -/
def Balanced (v : Option (Service M)) (queues refs marking freeing : Nat) : Prop :=
  match v with
  | some v => v.Fits queues refs marking freeing
  | none => queues = 0 ∧ refs = 0 ∧ marking = 0 ∧ freeing = 0

namespace State
variable (s : State M)

def places : List Nat := s.global ++ s.tasks.flatMap Task.queues

def Owned : Prop := ∀ q, Balanced s.services[q]? (s.places.count q)
  ((s.tasks.flatMap Task.refs).count q) ((s.tasks.flatMap Task.marking).count q)
  ((s.tasks.flatMap Task.freeing).count q)

variable {s} {services : List (Service M)} {global : List Nat} {i : Nat} {t t' : Task M}

/-- A task takes a step: whatever the others have, the service stays balanced. -/
theorem Owned.move (owned : s.Owned) (at_i : s.tasks[i]? = some t)
    (moves : ∀ q Q R D F,
      Balanced s.services[q]? (s.global.count q + t.queues.count q + Q) (t.refs.count q + R)
        (t.marking.count q + D) (t.freeing.count q + F) →
      Balanced services[q]? (global.count q + t'.queues.count q + Q) (t'.refs.count q + R)
        (t'.marking.count q + D) (t'.freeing.count q + F)) :
    State.Owned ⟨services, global, s.tasks.set i t'⟩ := by
  obtain ⟨front, back, eq, set⟩ := Holders.exists_place at_i
  have count : ∀ (f : Task M → List Nat) (t : Task M) (q : Nat),
      ((front ++ t :: back).flatMap f).count q =
        (f t).count q + ((front.flatMap f).count q + (back.flatMap f).count q) := by
    intro f t q
    simp only [List.flatMap_append, List.flatMap_cons, List.count_append]
    omega
  intro q
  have before := owned q
  rw [places, eq, List.count_append, count, count, count, count, ← Nat.add_assoc] at before
  have after := moves q _ _ _ _ before
  rw [places, set, List.count_append, count, count, count, count, ← Nat.add_assoc]
  exact after

/-- A step that gives nothing away and takes nothing. -/
theorem Owned.shuffle (owned : s.Owned) (at_i : s.tasks[i]? = some t)
    (queues : ∀ q, global.count q + t'.queues.count q = s.global.count q + t.queues.count q)
    (refs : t'.refs = t.refs) (marking : t'.marking = t.marking)
    (freeing : t'.freeing = t.freeing) :
    State.Owned ⟨s.services, global, s.tasks.set i t'⟩ := by
  apply owned.move at_i
  intro q Q R D F balanced
  rw [queues, refs, marking, freeing]
  exact balanced

/-- A step that changes one service. -/
theorem Owned.act (owned : s.Owned) (at_i : s.tasks[i]? = some t) {h : Nat} {v : Service M}
    {f : Service M → Service M} (at_h : s.services[h]? = some v)
    (here : ∀ Q R D F,
      v.Fits (s.global.count h + t.queues.count h + Q) (t.refs.count h + R)
        (t.marking.count h + D) (t.freeing.count h + F) →
      (f v).Fits (global.count h + t'.queues.count h + Q) (t'.refs.count h + R)
        (t'.marking.count h + D) (t'.freeing.count h + F))
    (others : ∀ q, q ≠ h →
      global.count q + t'.queues.count q = s.global.count q + t.queues.count q ∧
      t'.refs.count q = t.refs.count q ∧ t'.marking.count q = t.marking.count q ∧
      t'.freeing.count q = t.freeing.count q) :
    State.Owned ⟨s.services.modify h f, global, s.tasks.set i t'⟩ := by
  apply owned.move at_i
  intro q Q R D F balanced
  by_cases same : q = h
  · subst same
    rw [at_h] at balanced
    rw [List.getElem?_modify_eq, at_h]
    exact here Q R D F balanced
  · obtain ⟨queues, refs, marking, freeing⟩ := others q same
    rw [List.getElem?_modify_ne f _ (Ne.symm same), queues, refs, marking, freeing]
    exact balanced

end State

namespace Service
variable {v : Service M} {mq : Mq M} {Q R D F : Nat}

theorem Fits.of_eq (fits : v.Fits Q R D F) {Q' R' D' F' : Nat} (queues : Q = Q') (refs : R = R')
    (marking : D = D') (freeing : F = F') : v.Fits Q' R' D' F' := by
  subst queues refs marking freeing
  exact fits

/-- The references and the places look at the flags of a queue only. -/
theorem Fits.setMq (fits : v.Fits Q R D F) (release : mq.release = v.mq.release)
    (inGlobal : mq.inGlobal = v.mq.inGlobal) : Fits { v with mq := mq } Q R D F := by
  obtain ⟨token, counted, deleted, marked, ended⟩ := fits
  refine ⟨?_, counted, deleted, ?_, ?_⟩
  · simpa only [parked, inGlobal, release] using token
  · rwa [release]
  · rwa [release]

/-- Behind the mark the flag that says where the queue is means nothing. -/
theorem Fits.setMarked (fits : v.Fits Q R D F) (release : mq.release = true)
    (marked : v.mq.release = true) : Fits { v with mq := mq } Q R D F := by
  obtain ⟨token, counted, deleted, same, ended⟩ := fits
  refine ⟨?_, counted, deleted, ?_, ?_⟩
  · simpa [parked, release, marked] using token
  · rwa [release, ← marked]
  · rwa [release, ← marked]

theorem Fits.grab (fits : v.Fits Q R D F) (inTable : v.inTable = true) :
    Fits { v with ref := v.ref + 1 } Q (1 + R) D F := by
  obtain ⟨token, counted, deleted, marked, ended⟩ := fits
  rw [inTable, Bool.toNat_true] at counted
  refine ⟨token, ?_, ?_, marked, ended⟩
  · rw [inTable, Bool.toNat_true]
    dsimp only
    omega
  · dsimp only
    omega

/-- A reference goes, not the last one. -/
theorem Fits.letGo (fits : v.Fits Q (1 + R) D F) (more : v.ref ≠ 1) :
    Fits { v with ref := v.ref - 1 } Q R D F := by
  obtain ⟨token, counted, deleted, marked, ended⟩ := fits
  refine ⟨token, ?_, ?_, marked, ended⟩
  · dsimp only
    omega
  · dsimp only
    omega

theorem Fits.letLast (fits : v.Fits Q (1 + R) D F) (last : v.ref = 1) :
    Fits { v with ref := v.ref - 1 } Q R (1 + D) F := by
  obtain ⟨token, counted, deleted, marked, ended⟩ := fits
  refine ⟨token, ?_, ?_, marked, ended⟩
  · dsimp only
    omega
  · dsimp only
    omega

theorem Fits.retire (fits : v.Fits Q R D F) (inTable : v.inTable = true) :
    Fits { v with inTable := false } Q (1 + R) D F := by
  obtain ⟨token, counted, deleted, marked, ended⟩ := fits
  rw [inTable, Bool.toNat_true] at counted
  refine ⟨token, ?_, deleted, marked, ended⟩
  rw [Bool.toNat_false]
  dsimp only
  omega

/-- A reference keeps the mark away. -/
theorem Fits.not_release (fits : v.Fits Q R D F) (held : 0 < v.inTable.toNat + R) :
    v.mq.release = false := by
  obtain ⟨token, counted, deleted, marked, ended⟩ := fits
  apply Bool.toNat_eq_zero.mp
  omega

/-- The mark, with the place of the queue it makes if there is none. -/
theorem Fits.mark (fits : v.Fits Q R (1 + D) F) :
    Fits { v with mq := { v.mq with release := true } }
      (Q + (!v.mq.inGlobal).toNat) R D (1 + F) := by
  obtain ⟨token, counted, deleted, marked, ended⟩ := fits
  have unmarked : v.mq.release = false := by
    apply Bool.toNat_eq_zero.mp
    omega
  rw [parked, unmarked, Bool.not_false, Bool.and_true] at token
  refine ⟨?_, counted, by dsimp only; omega, ?_, ?_⟩
  · simp only [parked, Bool.not_true, Bool.and_false, Bool.toNat_false]
    omega
  · rw [unmarked, Bool.toNat_false] at marked
    simp only [Bool.toNat_true]
    omega
  · exact Bool.toNat_le _

theorem Fits.free (fits : v.Fits Q R D (1 + F)) : Fits { v with freed := true } Q R D F := by
  obtain ⟨token, counted, deleted, marked, ended⟩ := fits
  refine ⟨token, counted, ?_, ?_, ended⟩
  · simp only [Bool.toNat_true]
    omega
  · simp only [Bool.toNat_true]
    omega

/-- The queue goes from its only place into the ground. -/
theorem Fits.freeQueue (fits : v.Fits (1 + Q) R D F) (release : v.mq.release = true) :
    Fits { v with queueFreed := true } Q R D F := by
  obtain ⟨token, counted, deleted, marked, ended⟩ := fits
  refine ⟨?_, counted, deleted, marked, ?_⟩
  · simp only [parked, release, Bool.not_true, Bool.and_false, Bool.toNat_false,
      Bool.toNat_true] at token ⊢
    omega
  · exact Nat.le_of_eq (congrArg Bool.toNat release.symm)

/-- An empty queue is parked. -/
theorem Fits.park (fits : v.Fits (1 + Q) R D F) (inGlobal : mq.inGlobal = false)
    (release : mq.release = v.mq.release) (unmarked : v.mq.release = false) :
    Fits { v with mq := mq } Q R D F := by
  obtain ⟨token, counted, deleted, marked, ended⟩ := fits
  refine ⟨?_, counted, deleted, ?_, ?_⟩
  · simp only [parked, inGlobal, release, unmarked, Bool.not_false, Bool.and_self,
      Bool.toNat_true]
    omega
  · rwa [release]
  · rwa [release]

/-- The queue comes to the global one unless it is there or with a task. -/
theorem Fits.push (fits : v.Fits Q R D F) (unmarked : v.mq.release = false) (message : M) :
    Fits { v with mq := (v.mq.push message).1 } (Q + (v.mq.push message).2.toNat) R D F := by
  obtain ⟨token, counted, deleted, marked, ended⟩ := fits
  rw [parked, unmarked, Bool.not_false, Bool.and_true] at token
  refine ⟨?_, counted, deleted, marked, ended⟩
  simp only [parked, Mq.push, Bool.not_true, Bool.false_and, Bool.toNat_false]
  omega

/-- What a service keeps along a run. -/
structure Grows (v v' : Service M) : Prop where
  init : v.init = true → v'.init = true
  release : v.mq.release = true → v'.mq.release = true
  inTable : v'.inTable = true → v.inTable = true
  parked : v'.parked = true → v.parked = true ∨ v.init = true

theorem Grows.rfl : v.Grows v := ⟨id, id, id, .inl⟩

end Service

/-- The service has run its init function, or its handle is gone. -/
def Born (services : List (Service M)) (q : Nat) : Prop :=
  ∀ v : Service M, services[q]? = some v → v.inTable = true → v.init = true

namespace Task

/-- The queues of a task outside of the launch of their service. -/
def published : Task M → List Nat
  | .holds q | .pops q _ _ | .sizes q _ _ _ | .dispatches q _ _ _ | .calls q _ _ | .swaps q
  | .publishes q => [q]
  | .returns q nq => [q, nq]
  | .lets _ next | .marks _ next | .frees _ next => next.published
  | .releases q next | .drops q next | .freesQueue q next => q :: next.published
  | .idle | .done | .sends _ _ | .pushes _ _ | .retires _ _ | .inits _ | .initializes _ => []

/-- What a task relies on. -/
def Ok (services : List (Service M)) : Task M → Prop
  | .pops q _ _ | .sizes q _ _ _ | .dispatches q _ _ _ | .calls q _ _ | .swaps q
  | .returns q _ =>
      ∀ v : Service M, services[q]? = some v → v.init = true
  | .drops q next | .freesQueue q next =>
      (∀ v : Service M, services[q]? = some v → v.mq.release = true) ∧ next.Ok services
  | .releases _ next | .marks _ next | .frees _ next => next.Ok services
  | .lets handle next =>
      (∀ q ∈ next.deleted.published, q = handle ∨ q ∈ next.published) ∧ next.Ok services
  | .retires handle next => (∀ q ∈ next.deleted.published, q = handle) ∧ next.Ok services
  | .idle | .done | .holds _ | .sends _ _ | .pushes _ _ | .inits _ | .initializes _
  | .publishes _ => True

end Task

/-- Every service grows, and no other ones are there. -/
def GrowsTo (services services' : List (Service M)) : Prop :=
  ∀ (q : Nat) (v' : Service M), services'[q]? = some v' →
    ∃ v : Service M, services[q]? = some v ∧ v.Grows v'

variable {services services' : List (Service M)} {t t' : Task M}

theorem GrowsTo.rfl : GrowsTo services services := fun _ v' here => ⟨v', here, .rfl⟩

theorem GrowsTo.modify {h : Nat} {f : Service M → Service M}
    (grows : ∀ v, services[h]? = some v → v.Grows (f v)) :
    GrowsTo services (services.modify h f) := by
  intro q v' here
  by_cases same : h = q
  · subst same
    rw [List.getElem?_modify_eq] at here
    obtain ⟨v, at_h, rfl⟩ := Option.map_eq_some_iff.mp here
    exact ⟨v, at_h, grows v at_h⟩
  · rw [List.getElem?_modify_ne f _ same] at here
    exact ⟨v', here, .rfl⟩

theorem Born.mono {q : Nat} (grows : GrowsTo services services') (born : Born services q) :
    Born services' q := by
  intro v' here inTable
  obtain ⟨v, before, grown⟩ := grows q v' here
  exact grown.init (born v before (grown.inTable inTable))

theorem Task.Ok.mono (grows : GrowsTo services services') (ok : t.Ok services) :
    t.Ok services' := by
  have init : ∀ q : Nat, (∀ v : Service M, services[q]? = some v → v.init = true) →
      ∀ v : Service M, services'[q]? = some v → v.init = true := by
    intro q ran v' here
    obtain ⟨v, before, grown⟩ := grows q v' here
    exact grown.init (ran v before)
  have release : ∀ q : Nat, (∀ v : Service M, services[q]? = some v → v.mq.release = true) →
      ∀ v : Service M, services'[q]? = some v → v.mq.release = true := by
    intro q marked v' here
    obtain ⟨v, before, grown⟩ := grows q v' here
    exact grown.release (marked v before)
  induction t with
  | idle | done | holds _ | sends _ _ | pushes _ _ | inits _ | initializes _ | publishes _ =>
      trivial
  | pops q _ _ | sizes q _ _ _ | dispatches q _ _ _ | calls q _ _ | swaps q | returns q _ =>
      exact init q ok
  | drops q next ih | freesQueue q next ih => exact ⟨release q ok.1, ih ok.2⟩
  | releases _ next ih | marks _ next ih | frees _ next ih => exact ih ok
  | lets _ next ih | retires _ next ih => exact ⟨ok.1, ih ok.2⟩

namespace State

structure Inv (s : State M) : Prop where
  owned : s.Owned
  ok : ∀ t ∈ s.tasks, t.Ok s.services
  born : ∀ q ∈ s.global, Born s.services q
  published : ∀ t ∈ s.tasks, ∀ q ∈ t.published, Born s.services q
  parked : ∀ (q : Nat) (v : Service M), s.services[q]? = some v → v.parked = true → v.init = true

variable {s : State M} {global : List Nat} {i : Nat}

/-- A step of a task, as far as the others go. -/
theorem Inv.step (inv : s.Inv) (owned : State.Owned ⟨services, global, s.tasks.set i t'⟩)
    (grows : GrowsTo s.services services) (ok : t'.Ok services)
    (born : ∀ q ∈ global, q ∈ s.global ∨ Born services q)
    (published : ∀ q ∈ t'.published, Born services q) :
    State.Inv ⟨services, global, s.tasks.set i t'⟩ where
  owned := owned
  ok := by
    intro t mem
    cases List.mem_or_eq_of_mem_set mem with
    | inl old => exact (inv.ok t old).mono grows
    | inr new => exact new ▸ ok
  born := by
    intro q mem
    cases born q mem with
    | inl old => exact (inv.born q old).mono grows
    | inr new => exact new
  published := by
    intro t mem
    cases List.mem_or_eq_of_mem_set mem with
    | inl old => exact fun q inside => (inv.published t old q inside).mono grows
    | inr new => exact new ▸ published
  parked := by
    intro q v' here parked
    obtain ⟨v, before, grown⟩ := grows q v' here
    cases grown.parked parked with
    | inl parked => exact grown.init (inv.parked q v before parked)
    | inr init => exact grown.init init

section Worker
variable {w : Int} {initOk : Bool} {s' : State M} {o : Output M} {q k n : Nat}

/-- The context that a task is about to free is there. -/
theorem Inv.exists_freeing (inv : s.Inv) (at_i : s.tasks[i]? = some t) {q : Nat}
    (mem : q ∈ t.freeing) : ∃ v, s.services[q]? = some v := by
  cases at_q : s.services[q]? with
  | some v => exact ⟨v, rfl⟩
  | none =>
      have balanced := inv.owned q
      rw [at_q] at balanced
      have held : 0 < (s.tasks.flatMap Task.freeing).count q :=
        List.count_pos_iff.mpr (List.mem_flatMap.mpr ⟨t, List.mem_of_getElem? at_i, mem⟩)
      have none := balanced.2.2.2
      omega

theorem Inv.exists_queue (inv : s.Inv) (at_i : s.tasks[i]? = some t) {q : Nat}
    (mem : q ∈ t.queues) : ∃ v, s.services[q]? = some v := by
  cases at_q : s.services[q]? with
  | some v => exact ⟨v, rfl⟩
  | none =>
      have balanced := inv.owned q
      rw [at_q] at balanced
      have held : 0 < (s.tasks.flatMap Task.queues).count q :=
        List.count_pos_iff.mpr (List.mem_flatMap.mpr ⟨t, List.mem_of_getElem? at_i, mem⟩)
      have none := balanced.1
      rw [places, List.count_append] at none
      omega

/-- A reference keeps the mark away from the queue. -/
theorem Inv.not_release (inv : s.Inv) (at_i : s.tasks[i]? = some t) {q : Nat} {v : Service M}
    (mem : q ∈ t.refs) (at_q : s.services[q]? = some v) : v.mq.release = false := by
  have fits := inv.owned q
  rw [at_q] at fits
  have held : 0 < (s.tasks.flatMap Task.refs).count q :=
    List.count_pos_iff.mpr (List.mem_flatMap.mpr ⟨t, List.mem_of_getElem? at_i, mem⟩)
  exact Service.Fits.not_release fits (by omega)

theorem Inv.mem_published (inv : s.Inv) (at_i : s.tasks[i]? = some t) {q : Nat}
    (mem : q ∈ t.published) : Born s.services q :=
  inv.published t (List.mem_of_getElem? at_i) q mem

theorem Inv.task_ok (inv : s.Inv) (at_i : s.tasks[i]? = some t) : t.Ok s.services :=
  inv.ok t (List.mem_of_getElem? at_i)

/-- A task goes on without giving anything away. -/
theorem Inv.keep (inv : s.Inv) (at_i : s.tasks[i]? = some t) (queues : t'.queues = t.queues)
    (refs : t'.refs = t.refs) (marking : t'.marking = t.marking)
    (freeing : t'.freeing = t.freeing) (ok : t'.Ok s.services)
    (published : ∀ q ∈ t'.published, Born s.services q) : (s.become i t').Inv :=
  inv.step (inv.owned.shuffle at_i (fun _ => by rw [queues]) refs marking freeing) .rfl ok
    (fun _ mem => .inl mem) published

/-- A task takes the first queue of the global queue. -/
theorem Inv.take (inv : s.Inv) (at_i : s.tasks[i]? = some t) {q : Nat}
    (first : s.global = q :: global) (queues : ∀ q', t'.queues.count q' = (q :: t.queues).count q')
    (refs : t'.refs = t.refs) (marking : t'.marking = t.marking)
    (freeing : t'.freeing = t.freeing) (ok : t'.Ok s.services)
    (published : ∀ q' ∈ t'.published, q' = q ∨ q' ∈ t.published) :
    State.Inv ⟨s.services, global, s.tasks.set i t'⟩ := by
  refine inv.step (inv.owned.shuffle at_i ?_ refs marking freeing) .rfl ok ?_ ?_
  · intro q'
    rw [queues, first, List.count_cons, List.count_cons]
    omega
  · intro q' mem
    exact .inl (first ▸ List.mem_cons_of_mem q mem)
  · intro q' mem
    cases published q' mem with
    | inl here =>
        subst here
        exact inv.born q' (first ▸ List.mem_cons_self)
    | inr there => exact inv.mem_published at_i there

/-- A task gives a queue to the global queue. -/
theorem Inv.give (inv : s.Inv) (at_i : s.tasks[i]? = some t) {q : Nat}
    (queues : ∀ q', t.queues.count q' = (q :: t'.queues).count q') (refs : t'.refs = t.refs)
    (marking : t'.marking = t.marking) (freeing : t'.freeing = t.freeing)
    (ok : t'.Ok s.services) (published : ∀ q' ∈ q :: t'.published, q' ∈ t.published) :
    ((s.globalPush q).become i t').Inv := by
  refine inv.step (inv.owned.shuffle at_i ?_ refs marking freeing) .rfl ok ?_ ?_
  · intro q'
    rw [queues]
    simp only [globalPush, List.count_append, List.count_cons, List.count_nil]
    omega
  · intro q' mem
    cases List.mem_append.mp mem with
    | inl old => exact .inl old
    | inr new =>
        cases List.mem_singleton.mp new
        exact .inr (inv.mem_published at_i (published q List.mem_cons_self))
  · intro q' mem
    exact inv.mem_published at_i (published q' (List.mem_cons_of_mem q mem))

theorem Inv.idle (inv : s.Inv) (at_i : s.tasks[i]? = some .idle)
    (step : s.run w i initOk .idle = some (s', o)) : s'.Inv := by
  rw [run] at step
  split at step
  · cases step
    exact inv
  · rename_i q global first
    cases step
    exact inv.take at_i first (fun _ => rfl) rfl rfl rfl trivial
      (fun q' mem => .inl (List.mem_singleton.mp mem))

/-- A handle is looked up. -/
theorem grab_cases (s : State M) (handle : Nat) :
    (s.grab handle = none ∧ ∀ v, s.services[handle]? = some v → v.inTable = false) ∨
      ∃ v, s.services[handle]? = some v ∧ v.inTable = true ∧
        s.grab handle = some (s.update handle fun v => { v with ref := v.ref + 1 }) := by
  rw [grab]
  cases s.services[handle]? with
  | none => exact .inl ⟨rfl, fun _ none => by cases none⟩
  | some v =>
      cases inTable : v.inTable with
      | false => exact .inl ⟨by simp [inTable], fun _ same => by cases same; exact inTable⟩
      | true => exact .inr ⟨v, rfl, inTable, by simp [inTable]⟩

/-- A task gets a reference. -/
theorem Inv.grab (inv : s.Inv) (at_i : s.tasks[i]? = some t) {handle : Nat} {v : Service M}
    (at_h : s.services[handle]? = some v) (inTable : v.inTable = true)
    (queues : t'.queues = t.queues) (refs : t'.refs = handle :: t.refs)
    (marking : t'.marking = t.marking) (freeing : t'.freeing = t.freeing)
    (ok : t'.Ok s.services) (published : ∀ q ∈ t'.published, Born s.services q) :
    ((s.update handle fun v => { v with ref := v.ref + 1 }).become i t').Inv := by
  have grows : GrowsTo s.services
      (s.services.modify handle fun v => { v with ref := v.ref + 1 }) :=
    .modify fun v _ => ⟨id, id, id, .inl⟩
  refine inv.step (inv.owned.act at_i at_h ?_ ?_) grows (ok.mono grows) (fun _ mem => .inl mem)
    (fun q mem => (published q mem).mono grows)
  · intro Q R D F fits
    have more : (handle :: t.refs).count handle + R = 1 + (t.refs.count handle + R) := by
      rw [List.count_cons_self]
      omega
    rw [queues, refs, marking, freeing, more]
    exact fits.grab inTable
  · intro q other
    rw [queues, refs, marking, freeing, List.count_cons_of_ne other.symm]
    exact ⟨rfl, rfl, rfl, rfl⟩

theorem Inv.holds (inv : s.Inv) (at_i : s.tasks[i]? = some (.holds q))
    (step : s.run w i initOk (.holds q) = some (s', o)) : s'.Inv := by
  have born := inv.mem_published at_i List.mem_cons_self
  rw [run] at step
  obtain ⟨gone, -⟩ | ⟨v, at_q, inTable, grabbed⟩ := s.grab_cases q
  · rw [gone] at step
    cases step
    exact inv.keep at_i rfl rfl rfl rfl trivial (List.forall_mem_singleton.mpr born)
  · rw [grabbed] at step
    cases step
    refine inv.grab at_i at_q inTable rfl rfl rfl rfl ?_ (List.forall_mem_singleton.mpr born)
    intro v' here
    cases at_q.symm.trans here
    exact born v at_q inTable

/-- A task writes the queue of a service and its flags stay. -/
theorem Inv.setMq (inv : s.Inv) (at_i : s.tasks[i]? = some t) {v : Service M} {mq : Mq M}
    (at_q : s.services[q]? = some v) (release : mq.release = v.mq.release)
    (inGlobal : mq.inGlobal = v.mq.inGlobal) (queues : t'.queues = t.queues)
    (refs : t'.refs = t.refs) (marking : t'.marking = t.marking)
    (freeing : t'.freeing = t.freeing) (ok : t'.Ok s.services)
    (published : ∀ q ∈ t'.published, Born s.services q) :
    ((s.setMq q mq).become i t').Inv := by
  have grows : GrowsTo s.services (s.services.modify q fun v => { v with mq := mq }) := by
    refine .modify fun v' here => ?_
    cases at_q.symm.trans here
    refine ⟨id, fun marked => release.trans marked, id, fun parked => .inl ?_⟩
    rw [Service.parked] at parked ⊢
    rwa [release, inGlobal] at parked
  refine inv.step (inv.owned.act at_i at_q ?_ ?_) grows (ok.mono grows) (fun _ mem => .inl mem)
    (fun q mem => (published q mem).mono grows)
  · intro Q R D F fits
    rw [queues, refs, marking, freeing]
    exact fits.setMq release inGlobal
  · intro q other
    rw [queues, refs, marking, freeing]
    exact ⟨rfl, rfl, rfl, rfl⟩

theorem Inv.pops (inv : s.Inv) (at_i : s.tasks[i]? = some (.pops q k n))
    (step : s.run w i initOk (.pops q k n) = some (s', o)) : s'.Inv := by
  have born := inv.mem_published at_i List.mem_cons_self
  have ok := inv.task_ok at_i
  obtain ⟨v, at_q, ran⟩ := Option.map_eq_some_iff.mp step
  split at ran
  · rename_i message mq popped
    cases ran
    obtain ⟨release, inGlobal⟩ := Mq.pop_some popped
    exact inv.setMq at_i at_q release inGlobal rfl rfl rfl rfl ok
      (List.forall_mem_singleton.mpr born)
  · rename_i mq popped
    cases ran
    obtain ⟨release, inGlobal⟩ := Mq.pop_none popped
    have grows : GrowsTo s.services (s.services.modify q fun v => { v with mq := mq }) := by
      refine .modify fun v' here => ?_
      cases at_q.symm.trans here
      exact ⟨id, fun marked => release.trans marked, id, fun _ => .inr (ok v at_q)⟩
    refine inv.step (inv.owned.act at_i at_q ?_ ?_) grows ⟨fun _ mem => .inr mem, trivial⟩
      (fun _ mem => .inl mem) (List.forall_mem_nil _)
    · intro Q R D F fits
      simp only [Task.queues, Task.refs, Task.marking, Task.freeing, List.count_cons_self,
        List.count_nil, global_setMq] at fits ⊢
      have unmarked := fits.not_release (by omega)
      have placed : v.Fits (1 + (s.global.count q + Q)) (0 + 1 + R) (0 + D) (0 + F) :=
        fits.of_eq (by omega) rfl rfl rfl
      exact (placed.park inGlobal release unmarked).of_eq rfl rfl rfl rfl
    · intro q' other
      simp [Task.queues, Task.refs, Task.marking, Task.freeing, other.symm]

theorem Inv.sizes (inv : s.Inv) {msg : M} (at_i : s.tasks[i]? = some (.sizes q k n msg))
    (step : s.run w i initOk (.sizes q k n msg) = some (s', o)) : s'.Inv := by
  have born := inv.mem_published at_i List.mem_cons_self
  have ok := inv.task_ok at_i
  obtain ⟨v, at_q, ran⟩ := Option.map_eq_some_iff.mp step
  cases ran
  exact inv.setMq at_i at_q rfl rfl rfl rfl rfl rfl ok (List.forall_mem_singleton.mpr born)

/-- A worker goes on in its loop, or leaves it. -/
theorem loop_cases (q k n : Nat) :
    (.loop q k n : Task M) = .pops q (k + 1) n ∨ (.loop q k n : Task M) = .swaps q := by
  rw [Task.loop]
  split
  · exact .inl rfl
  · exact .inr rfl

theorem Inv.loop (inv : s.Inv) (at_i : s.tasks[i]? = some t) (queues : t.queues = [q])
    (refs : t.refs = [q]) (marking : t.marking = []) (freeing : t.freeing = [])
    (ok : ∀ v, s.services[q]? = some v → v.init = true) (born : Born s.services q) :
    (s.become i (.loop q k n)).Inv := by
  have published := List.forall_mem_singleton.mpr born
  cases loop_cases q k n with
  | inl pops =>
      rw [pops]
      exact inv.keep at_i queues.symm refs.symm marking.symm freeing.symm ok published
  | inr swaps =>
      rw [swaps]
      exact inv.keep at_i queues.symm refs.symm marking.symm freeing.symm ok published

theorem Inv.dispatches (inv : s.Inv) {msg : M}
    (at_i : s.tasks[i]? = some (.dispatches q k n msg))
    (step : s.run w i initOk (.dispatches q k n msg) = some (s', o)) : s'.Inv := by
  have born := inv.mem_published at_i List.mem_cons_self
  have ok := inv.task_ok at_i
  obtain ⟨v, at_q, ran⟩ := Option.map_eq_some_iff.mp step
  split at ran
  · cases ran
    exact inv.keep at_i rfl rfl rfl rfl ok (List.forall_mem_singleton.mpr born)
  · cases ran
    exact inv.loop at_i rfl rfl rfl rfl ok born

theorem Inv.calls (inv : s.Inv) (at_i : s.tasks[i]? = some (.calls q k n))
    (step : s.run w i initOk (.calls q k n) = some (s', o)) : s'.Inv := by
  cases step
  exact inv.loop at_i rfl rfl rfl rfl (inv.task_ok at_i)
    (inv.mem_published at_i List.mem_cons_self)

theorem Inv.swaps (inv : s.Inv) (at_i : s.tasks[i]? = some (.swaps q))
    (step : s.run w i initOk (.swaps q) = some (s', o)) : s'.Inv := by
  have born := inv.mem_published at_i List.mem_cons_self
  have ok := inv.task_ok at_i
  rw [run] at step
  split at step
  · cases step
    exact inv.keep at_i rfl rfl rfl rfl ⟨fun _ mem => .inr mem, trivial⟩
      (List.forall_mem_singleton.mpr born)
  · rename_i nq global first
    cases step
    refine inv.take at_i first ?_ rfl rfl rfl ok ?_
    · intro q'
      simp only [Task.queues, List.count_cons, List.count_nil]
      omega
    · intro q' mem
      cases mem with
      | head => exact .inr List.mem_cons_self
      | tail _ mem => exact .inl (List.mem_singleton.mp mem)

theorem Inv.returns (inv : s.Inv) {nq : Nat} (at_i : s.tasks[i]? = some (.returns q nq))
    (step : s.run w i initOk (.returns q nq) = some (s', o)) : s'.Inv := by
  cases step
  exact inv.give at_i (fun _ => rfl) rfl rfl rfl ⟨fun _ mem => .inr mem, trivial⟩
    (fun _ mem => mem)

/-- No queue is in two places, what a task has is not freed, a callback runs in a context
whose init function has returned, and no context is marked twice. -/
structure Exclusive (s : State M) : Prop where
  alone : s.places.Nodup
  kept : ∀ q ∈ s.places, ∃ v, s.services[q]? = some v ∧ v.queueFreed = false
  referenced : ∀ t ∈ s.tasks, ∀ q ∈ t.refs, ∃ v, s.services[q]? = some v ∧
    v.freed = false ∧ v.queueFreed = false
  dispatched : ∀ q k n, .calls q k n ∈ s.tasks → ∃ v, s.services[q]? = some v ∧
    v.init = true ∧ v.freed = false
  deleted : ((s.tasks.flatMap Task.marking) ++ s.tasks.flatMap Task.freeing).Nodup
  marked : ∀ t ∈ s.tasks, ∀ q ∈ t.marking, ∃ v, s.services[q]? = some v ∧
    v.mq.release = false ∧ v.freed = false

theorem Inv.sends (inv : s.Inv) {message : M} (at_i : s.tasks[i]? = some (.sends q message))
    (step : s.run w i initOk (.sends q message) = some (s', o)) : s'.Inv := by
  rw [run] at step
  obtain ⟨gone, -⟩ | ⟨v, at_q, inTable, grabbed⟩ := s.grab_cases q
  · rw [gone] at step
    cases step
    exact inv.keep at_i rfl rfl rfl rfl trivial (List.forall_mem_nil _)
  · rw [grabbed] at step
    cases step
    exact inv.grab at_i at_q inTable rfl rfl rfl rfl trivial (List.forall_mem_nil _)

/-- A queue comes to the global queue when a flag says so. -/
theorem ite_globalPush (s : State M) (b : Bool) (q : Nat) :
    (if b then s.globalPush q else s) =
      { s with global := s.global ++ if b then [q] else [] } := by
  cases b with
  | true => rfl
  | false => simp

theorem Inv.pushes (inv : s.Inv) {message : M} (at_i : s.tasks[i]? = some (.pushes q message))
    (step : s.run w i initOk (.pushes q message) = some (s', o)) : s'.Inv := by
  obtain ⟨v, at_q, ran⟩ := Option.map_eq_some_iff.mp step
  cases ran
  have unmarked := inv.not_release at_i (List.mem_singleton_self q) at_q
  have grows : GrowsTo s.services
      (s.services.modify q fun v' => { v' with mq := (v.mq.push message).1 }) := by
    refine .modify fun v' here => ?_
    cases at_q.symm.trans here
    exact ⟨id, id, id, fun parked => by cases parked⟩
  rw [ite_globalPush]
  refine inv.step (inv.owned.act at_i at_q ?_ ?_) grows ⟨fun _ mem => .inr mem, trivial⟩ ?_
    (List.forall_mem_nil _)
  · intro Q R D F fits
    have place : ((if (v.mq.push message).2 then [q] else []).count q) =
        (v.mq.push message).2.toNat := by
      cases (v.mq.push message).2 <;> simp
    simp only [Task.queues, Task.refs, Task.marking, Task.freeing, List.count_cons_self,
      List.count_nil, List.count_append, place, become, global_setMq] at fits ⊢
    exact (fits.push unmarked message).of_eq (by omega) rfl rfl rfl
  · intro q' other
    have place : ((if (v.mq.push message).2 then [q] else []).count q') = 0 := by
      cases (v.mq.push message).2 <;> simp [other.symm]
    simp [Task.queues, Task.refs, Task.marking, Task.freeing, place, become, other.symm]
  · intro q' mem
    cases List.mem_append.mp mem with
    | inl old => exact .inl old
    | inr new =>
        -- the queue was parked
        cases inGlobal : v.mq.inGlobal with
        | true => simp [Mq.push, inGlobal] at new
        | false =>
            have here : q' = q := by simpa [Mq.push, inGlobal] using new
            subst here
            refine .inr (Born.mono grows fun v' here _ => ?_)
            cases at_q.symm.trans here
            exact inv.parked q' v at_q (by simp [Service.parked, inGlobal, unmarked])

theorem deleted_spec (next : Task M) : next.deleted.queues = next.queues ∧
    next.deleted.refs = next.refs ∧ next.deleted.marking = next.marking ∧
    next.deleted.freeing = next.freeing := by
  cases next <;> exact ⟨rfl, rfl, rfl, rfl⟩

theorem ok_deleted {next : Task M} (ok : next.Ok services) : next.deleted.Ok services := by
  cases next <;> exact ok

theorem published_deleted {next : Task M} {q : Nat} (mem : q ∈ next.published) :
    q ∈ next.deleted.published := by
  cases next <;> first | exact mem | cases mem

/-- A context is retired, or the handle is gone already. -/
theorem Inv.retires (inv : s.Inv) {next : Task M} (at_i : s.tasks[i]? = some (.retires q next))
    (step : s.run w i initOk (.retires q next) = some (s', o)) : s'.Inv := by
  obtain ⟨own, ok⟩ := inv.task_ok at_i
  rw [run] at step
  split at step
  · rename_i v at_q
    split at step
    · rename_i inTable
      cases step
      have grows : GrowsTo s.services
          (s.services.modify q fun v => { v with inTable := false }) :=
        .modify fun v _ => ⟨id, id, (fun inTable => by cases inTable), .inl⟩
      refine inv.step (inv.owned.act at_i at_q ?_ ?_) grows
        ⟨fun q' mem => .inl (own q' mem), ok.mono grows⟩ (fun _ mem => .inl mem) ?_
      · intro Q R D F fits
        have more : (q :: next.refs).count q + R = 1 + (next.refs.count q + R) := by
          rw [List.count_cons_self]
          omega
        simp only [Task.refs, more, update]
        exact fits.retire inTable
      · intro q' other
        simp [Task.queues, Task.refs, Task.marking, Task.freeing, update, other.symm]
      · intro q' mem v' here inTable'
        rw [own q' (published_deleted mem), services_update, List.getElem?_modify_eq, at_q] at here
        cases here
        cases inTable'
    · rename_i gone
      cases step
      refine inv.keep at_i rfl rfl rfl rfl ok ?_
      intro q' mem v' here inTable
      rw [own q' (published_deleted mem)] at here
      cases at_q.symm.trans here
      exact absurd inTable gone
  · rename_i absent
    cases step
    refine inv.keep at_i rfl rfl rfl rfl ok ?_
    intro q' mem v' here
    rw [own q' (published_deleted mem), absent] at here
    cases here

theorem Inv.inits (inv : s.Inv) (at_i : s.tasks[i]? = some (.inits q))
    (step : s.run w i initOk (.inits q) = some (s', o)) : s'.Inv := by
  cases step
  cases initOk with
  | true =>
      exact inv.keep at_i rfl rfl rfl rfl ⟨fun _ mem => .inl (List.mem_singleton.mp mem), trivial⟩
        (List.forall_mem_nil _)
  | false =>
      exact inv.keep at_i rfl rfl rfl rfl
        ⟨fun _ mem => .inr mem, fun _ mem => List.mem_singleton.mp mem, trivial⟩
        (List.forall_mem_nil _)

theorem Inv.initializes (inv : s.Inv) (at_i : s.tasks[i]? = some (.initializes q))
    (step : s.run w i initOk (.initializes q) = some (s', o)) : s'.Inv := by
  cases step
  have grows : GrowsTo s.services (s.services.modify q fun v => { v with init := true }) :=
    .modify fun v _ => ⟨fun _ => rfl, id, id, .inl⟩
  have ran : Born (s.services.modify q fun v => { v with init := true }) q := by
    intro v' here _
    rw [List.getElem?_modify_eq] at here
    obtain ⟨v, -, rfl⟩ := Option.map_eq_some_iff.mp here
    rfl
  refine inv.step ?_ grows trivial (fun _ mem => .inl mem) (List.forall_mem_singleton.mpr ran)
  apply inv.owned.move at_i
  intro q' Q R D F balanced
  by_cases here : q' = q
  · subst here
    rw [services_update, List.getElem?_modify_eq]
    cases at_q : s.services[q']? with
    | none => rwa [at_q] at balanced
    | some v =>
        rw [at_q] at balanced
        obtain ⟨token, counted, deleted, marked, ended⟩ := balanced
        exact ⟨token, counted, deleted, marked, ended⟩
  · rw [services_update, List.getElem?_modify_ne _ _ (Ne.symm here)]
    exact balanced

theorem Inv.publishes (inv : s.Inv) (at_i : s.tasks[i]? = some (.publishes q))
    (step : s.run w i initOk (.publishes q) = some (s', o)) : s'.Inv := by
  cases step
  exact inv.give at_i (fun _ => rfl) rfl rfl rfl trivial (fun _ mem => mem)

theorem Inv.lets (inv : s.Inv) {next : Task M} (at_i : s.tasks[i]? = some (.lets q next))
    (step : s.run w i initOk (.lets q next) = some (s', o)) : s'.Inv := by
  obtain ⟨own, ok⟩ := inv.task_ok at_i
  have born := fun q' mem => inv.mem_published at_i (q := q') mem
  obtain ⟨v, at_q, ran⟩ := Option.map_eq_some_iff.mp step
  cases ran
  have grows : GrowsTo s.services (s.services.modify q fun v => { v with ref := v.ref - 1 }) :=
    .modify fun v _ => ⟨id, id, id, .inl⟩
  have less : (q :: next.refs).count q = 1 + next.refs.count q := by
    rw [List.count_cons_self]
    omega
  split
  · rename_i last
    obtain ⟨queues, refs, marking, freeing⟩ := deleted_spec next
    refine inv.step (inv.owned.act at_i at_q ?_ ?_) grows ?_ (fun _ mem => .inl mem) ?_
    · intro Q R D F fits
      have more : (q :: next.marking).count q = 1 + next.marking.count q := by
        rw [List.count_cons_self]
        omega
      simp only [Task.queues, Task.refs, Task.marking, Task.freeing, less, more, global_update,
        queues, refs, marking, freeing] at fits ⊢
      have before : v.Fits _ (1 + (next.refs.count q + R)) _ _ :=
        fits.of_eq rfl (by omega) rfl rfl
      exact (before.letLast last).of_eq rfl rfl (by omega) rfl
    · intro q' other
      simp [Task.queues, Task.refs, Task.marking, Task.freeing, queues, refs, marking, freeing,
        other.symm]
    · exact (ok_deleted ok).mono grows
    · intro q' mem
      cases own q' mem with
      | inr old => exact (born q' old).mono grows
      | inl here =>
          -- the handle went before the last reference
          subst here
          have fits := inv.owned q'
          rw [at_q] at fits
          have held : 0 < (s.tasks.flatMap Task.refs).count q' :=
            List.count_pos_iff.mpr (List.mem_flatMap.mpr
              ⟨_, List.mem_of_getElem? at_i, List.mem_cons_self⟩)
          have counted := fits.counted
          have gone : v.inTable = false := by
            apply Bool.toNat_eq_zero.mp
            omega
          intro v' here inTable
          rw [services_update, List.getElem?_modify_eq, at_q] at here
          cases here
          exact absurd (gone.symm.trans inTable) Bool.false_ne_true
  · rename_i more
    refine inv.step (inv.owned.act at_i at_q ?_ ?_) grows (ok.mono grows) (fun _ mem => .inl mem)
      (fun q' mem => (born q' mem).mono grows)
    · intro Q R D F fits
      simp only [Task.queues, Task.refs, Task.marking, Task.freeing, less, global_update] at fits ⊢
      have before : v.Fits _ (1 + (next.refs.count q + R)) _ _ :=
        fits.of_eq rfl (by omega) rfl rfl
      exact before.letGo more
    · intro q' other
      simp [Task.queues, Task.refs, Task.marking, Task.freeing, update, other.symm]

theorem Inv.marks (inv : s.Inv) {next : Task M} (at_i : s.tasks[i]? = some (.marks q next))
    (step : s.run w i initOk (.marks q next) = some (s', o)) : s'.Inv := by
  have ok := inv.task_ok at_i
  have born := fun q' mem => inv.mem_published at_i (q := q') mem
  obtain ⟨v, at_q, ran⟩ := Option.map_eq_some_iff.mp step
  cases ran
  have grows : GrowsTo s.services
      (s.services.modify q fun v' => { v' with mq := { v.mq with release := true } }) := by
    refine .modify fun v' here => ?_
    cases at_q.symm.trans here
    refine ⟨id, fun _ => rfl, id, fun parked => ?_⟩
    simp [Service.parked] at parked
  -- the last reference is gone, and the handle with it
  have gone : Born s.services q := by
    have fits := inv.owned q
    rw [at_q] at fits
    have held : 0 < (s.tasks.flatMap Task.marking).count q :=
      List.count_pos_iff.mpr (List.mem_flatMap.mpr
        ⟨_, List.mem_of_getElem? at_i, List.mem_cons_self⟩)
    have counted := fits.counted
    have deleted := fits.deleted
    have gone : v.inTable = false := by
      apply Bool.toNat_eq_zero.mp
      omega
    intro v' here inTable
    cases at_q.symm.trans here
    exact absurd (gone.symm.trans inTable) Bool.false_ne_true
  have result : (if v.mq.inGlobal then
        (s.setMq q { v.mq with release := true }).become i (.frees q next)
      else ((s.setMq q { v.mq with release := true }).become i (.frees q next)).globalPush q) =
      { (s.setMq q { v.mq with release := true }).become i (.frees q next) with
        global := s.global ++ if v.mq.inGlobal then [] else [q] } := by
    split
    · rw [List.append_nil]
      rfl
    · rfl
  rw [result]
  refine inv.step (inv.owned.act at_i at_q ?_ ?_) grows (ok.mono grows) ?_
    (fun q' mem => (born q' mem).mono grows)
  · intro Q R D F fits
    have marks : (q :: next.marking).count q = 1 + next.marking.count q := by
      rw [List.count_cons_self]
      omega
    have frees : (q :: next.freeing).count q = 1 + next.freeing.count q := by
      rw [List.count_cons_self]
      omega
    have place : (if v.mq.inGlobal then [] else [q]).count q = (!v.mq.inGlobal).toNat := by
      cases v.mq.inGlobal <;> simp
    simp only [Task.queues, Task.refs, Task.marking, Task.freeing, marks, frees, place,
      List.count_append] at fits ⊢
    have before : v.Fits _ _ (1 + (next.marking.count q + D)) _ :=
      fits.of_eq rfl rfl (by omega) rfl
    exact before.mark.of_eq (by omega) rfl rfl (by omega)
  · intro q' other
    have place : (if v.mq.inGlobal then [] else [q]).count q' = 0 := by
      cases v.mq.inGlobal <;> simp [other.symm]
    simp [Task.queues, Task.refs, Task.marking, Task.freeing, place, other.symm]
  · intro q' mem
    cases List.mem_append.mp mem with
    | inl old => exact .inl old
    | inr new =>
        have here : q' = q := by
          split at new
          · cases new
          · exact List.mem_singleton.mp new
        subst here
        exact .inr (gone.mono grows)

theorem Inv.frees (inv : s.Inv) {next : Task M} (at_i : s.tasks[i]? = some (.frees q next))
    (step : s.run w i initOk (.frees q next) = some (s', o)) : s'.Inv := by
  have ok := inv.task_ok at_i
  have born := fun q' mem => inv.mem_published at_i (q := q') mem
  cases step
  have grows : GrowsTo s.services (s.services.modify q fun v => { v with freed := true }) :=
    .modify fun v _ => ⟨id, id, id, .inl⟩
  obtain ⟨v, at_q⟩ := inv.exists_freeing at_i List.mem_cons_self
  refine inv.step (inv.owned.act at_i at_q ?_ ?_) grows (ok.mono grows) (fun _ mem => .inl mem)
    (fun q' mem => (born q' mem).mono grows)
  · intro Q R D F fits
    have less : (q :: next.freeing).count q = 1 + next.freeing.count q := by
      rw [List.count_cons_self]
      omega
    simp only [Task.queues, Task.refs, Task.marking, Task.freeing, less] at fits ⊢
    have before : v.Fits _ _ _ (1 + (next.freeing.count q + F)) :=
      fits.of_eq rfl rfl rfl (by omega)
    exact before.free
  · intro q' other
    simp [Task.queues, Task.refs, Task.marking, Task.freeing, other.symm]

theorem Inv.releases (inv : s.Inv) {next : Task M} (at_i : s.tasks[i]? = some (.releases q next))
    (step : s.run w i initOk (.releases q next) = some (s', o)) : s'.Inv := by
  have ok := inv.task_ok at_i
  have born := fun q' mem => inv.mem_published at_i (q := q') mem
  obtain ⟨v, at_q, ran⟩ := Option.map_eq_some_iff.mp step
  split at ran
  · rename_i marked
    cases ran
    refine inv.keep at_i rfl rfl rfl rfl ⟨?_, ok⟩ born
    intro v' here
    cases at_q.symm.trans here
    exact marked
  · cases ran
    exact inv.give at_i (fun _ => rfl) rfl rfl rfl ok (fun _ mem => mem)

theorem Inv.drops (inv : s.Inv) {next : Task M} (at_i : s.tasks[i]? = some (.drops q next))
    (step : s.run w i initOk (.drops q next) = some (s', o)) : s'.Inv := by
  have ok := inv.task_ok at_i
  have born := fun q' mem => inv.mem_published at_i (q := q') mem
  obtain ⟨v, at_q, ran⟩ := Option.map_eq_some_iff.mp step
  have marked := ok.1 v at_q
  split at ran
  · rename_i message mq popped
    cases ran
    obtain ⟨release, inGlobal⟩ := Mq.pop_some popped
    exact inv.setMq at_i at_q release inGlobal rfl rfl rfl rfl ok born
  · rename_i mq popped
    cases ran
    obtain ⟨release, inGlobal⟩ := Mq.pop_none popped
    have grows : GrowsTo s.services (s.services.modify q fun v => { v with mq := mq }) := by
      refine .modify fun v' here => ?_
      cases at_q.symm.trans here
      refine ⟨id, fun marked => release.trans marked, id, fun parked => ?_⟩
      simp [Service.parked, release, marked] at parked
    refine inv.step (inv.owned.act at_i at_q ?_ ?_) grows (ok.mono grows) (fun _ mem => .inl mem)
      (fun q' mem => (born q' mem).mono grows)
    · intro Q R D F fits
      exact fits.setMarked (release.trans marked) marked
    · intro q' other
      exact ⟨rfl, rfl, rfl, rfl⟩

theorem Inv.freesQueue (inv : s.Inv) {next : Task M}
    (at_i : s.tasks[i]? = some (.freesQueue q next))
    (step : s.run w i initOk (.freesQueue q next) = some (s', o)) : s'.Inv := by
  obtain ⟨released, ok⟩ := inv.task_ok at_i
  have born := fun q' mem => inv.mem_published at_i (q := q') mem
  cases step
  have grows : GrowsTo s.services (s.services.modify q fun v => { v with queueFreed := true }) :=
    .modify fun v _ => ⟨id, id, id, .inl⟩
  obtain ⟨v, at_q⟩ := inv.exists_queue at_i List.mem_cons_self
  refine inv.step (inv.owned.act at_i at_q ?_ ?_) grows (ok.mono grows) (fun _ mem => .inl mem)
    (fun q' mem => (born q' (List.mem_cons_of_mem q mem)).mono grows)
  · intro Q R D F fits
    have less : (q :: next.queues).count q = 1 + next.queues.count q := by
      rw [List.count_cons_self]
      omega
    simp only [Task.queues, Task.refs, Task.marking, Task.freeing, less, global_update] at fits ⊢
    have before : v.Fits (1 + (s.global.count q + next.queues.count q + Q)) _ _ _ :=
      fits.of_eq (by omega) rfl rfl rfl
    exact before.freeQueue (released v at_q)
  · intro q' other
    simp [Task.queues, Task.refs, Task.marking, Task.freeing, other.symm]

/-- What a task does keeps the invariant. -/
theorem Inv.run (inv : s.Inv) (at_i : s.tasks[i]? = some t)
    (step : s.run w i initOk t = some (s', o)) : s'.Inv := by
  cases t with
  | idle => exact inv.idle at_i step
  | done => cases step
  | holds q => exact inv.holds at_i step
  | pops q k n => exact inv.pops at_i step
  | sizes q k n msg => exact inv.sizes at_i step
  | dispatches q k n msg => exact inv.dispatches at_i step
  | calls q k n => exact inv.calls at_i step
  | swaps q => exact inv.swaps at_i step
  | returns q nq => exact inv.returns at_i step
  | sends q message => exact inv.sends at_i step
  | pushes q message => exact inv.pushes at_i step
  | retires q next => exact inv.retires at_i step
  | inits q => exact inv.inits at_i step
  | initializes q => exact inv.initializes at_i step
  | publishes q => exact inv.publishes at_i step
  | lets q next => exact inv.lets at_i step
  | marks q next => exact inv.marks at_i step
  | frees q next => exact inv.frees at_i step
  | releases q next => exact inv.releases at_i step
  | drops q next => exact inv.drops at_i step
  | freesQueue q next => exact inv.freesQueue at_i step

/-- A task begins that has nothing. -/
theorem Inv.spawn (inv : s.Inv) (none : t.queues = [] ∧ t.refs = [] ∧ t.marking = [] ∧
    t.freeing = [] ∧ t.published = []) (ok : t.Ok s.services) : (s.spawn t).Inv := by
  obtain ⟨queues, refs, marking, freeing, published⟩ := none
  refine ⟨?_, ?_, inv.born, ?_, inv.parked⟩
  · intro q
    have balanced := inv.owned q
    simpa [State.spawn, places, queues, refs, marking, freeing] using balanced
  · intro t' mem
    cases List.mem_append.mp mem with
    | inl old => exact inv.ok t' old
    | inr new => exact List.mem_singleton.mp new ▸ ok
  · intro t' mem q inside
    cases List.mem_append.mp mem with
    | inl old => exact inv.published t' old q inside
    | inr new =>
        rw [List.mem_singleton.mp new, published] at inside
        cases inside

theorem mem_queues_of_published {q : Nat} (mem : q ∈ t.published) : q ∈ t.queues := by
  induction t with
  | idle | done | sends _ _ | pushes _ _ | inits _ | initializes _ | retires _ _ _ => cases mem
  | holds _ | pops _ _ _ | sizes _ _ _ _ | dispatches _ _ _ _ | calls _ _ _ | swaps _
  | publishes _ | returns _ _ => exact mem
  | lets _ next ih | marks _ next ih | frees _ next ih => exact ih mem
  | releases q' next ih | drops q' next ih | freesQueue q' next ih =>
      cases List.mem_cons.mp mem with
      | inl here => exact List.mem_cons.mpr (.inl here)
      | inr later => exact List.mem_cons_of_mem q' (ih later)

/-- What a task relies on is about the queues it has. -/
theorem ok_of_same (ok : t.Ok services)
    (same : ∀ q ∈ t.queues, services'[q]? = services[q]?) : t.Ok services' := by
  induction t with
  | idle | done | holds _ | sends _ _ | pushes _ _ | inits _ | initializes _ | publishes _ =>
      trivial
  | pops q _ _ | sizes q _ _ _ | dispatches q _ _ _ | calls q _ _ | swaps q | returns q _ =>
      intro v here
      exact ok v ((same q List.mem_cons_self).symm.trans here)
  | drops q next ih | freesQueue q next ih =>
      refine ⟨?_, ih ok.2 fun q' mem => same q' (List.mem_cons_of_mem q mem)⟩
      intro v here
      exact ok.1 v ((same q List.mem_cons_self).symm.trans here)
  | releases q next ih => exact ih ok fun q' mem => same q' (List.mem_cons_of_mem q mem)
  | marks _ next ih | frees _ next ih => exact ih ok same
  | lets _ next ih | retires _ next ih => exact ⟨ok.1, ih ok.2 same⟩

theorem create_fits [Inhabited M] : (Service.create : Service M).Fits 1 1 0 0 :=
  ⟨rfl, rfl, .inr ⟨by simp [Service.create], rfl⟩, rfl, Nat.le_refl _⟩

theorem Inv.launch [Inhabited M] (inv : s.Inv) :
    ({ s with services := s.services ++ [Service.create] }.spawn
      (.inits s.services.length)).Inv := by
  have fresh := inv.owned s.services.length
  rw [List.getElem?_eq_none (Nat.le_refl _)] at fresh
  obtain ⟨queues, refs, marking, freeing⟩ := fresh
  have same : ∀ q ≠ s.services.length,
      (s.services ++ [Service.create])[q]? = s.services[q]? := by
    intro q other
    by_cases old : q < s.services.length
    · exact List.getElem?_append_left old
    · rw [List.getElem?_eq_none (by simp; omega), List.getElem?_eq_none (by omega)]
  have place : ∀ q ∈ s.places, q ≠ s.services.length := by
    intro q mem here
    exact List.count_eq_zero.mp queues (here ▸ mem)
  have born : ∀ q ∈ s.places, Born s.services q → Born (s.services ++ [Service.create]) q := by
    intro q mem born v here
    exact born v ((same q (place q mem)).symm.trans here)
  have with_task : ∀ t ∈ s.tasks, ∀ q ∈ t.queues, q ∈ s.places := by
    intro t mem q inside
    exact List.mem_append_right _ (List.mem_flatMap.mpr ⟨t, mem, inside⟩)
  refine ⟨?_, ?_, ?_, ?_, ?_⟩
  · intro q
    simp only [State.spawn, places, List.flatMap_append, List.flatMap_singleton, Task.queues,
      Task.refs, Task.marking, Task.freeing, List.append_nil]
    by_cases here : q = s.services.length
    · subst here
      rw [places] at queues
      simp only [← List.append_assoc, List.count_append, List.count_singleton_self] at queues ⊢
      rw [List.getElem?_append_right (Nat.le_refl _), Nat.sub_self]
      exact create_fits.of_eq (by omega) (by omega) marking.symm freeing.symm
    · have balanced := inv.owned q
      rw [same q here]
      simpa [places, List.count_append, List.count_singleton, Ne.symm here] using balanced
  · intro t mem
    cases List.mem_append.mp mem with
    | inl old =>
        exact ok_of_same (inv.ok t old) fun q inside => same q (place q (with_task t old q inside))
    | inr new =>
        rw [List.mem_singleton.mp new]
        trivial
  · intro q mem
    exact born q (List.mem_append_left _ mem) (inv.born q mem)
  · intro t mem q inside
    cases List.mem_append.mp mem with
    | inl old =>
        exact born q (with_task t old q (mem_queues_of_published inside))
          (inv.published t old q inside)
    | inr new =>
        rw [List.mem_singleton.mp new] at inside
        cases inside
  · intro q v here parked
    by_cases new : q = s.services.length
    · subst new
      have last : v = Service.create := by
        simpa [State.spawn] using here.symm
      subst last
      cases parked
    · exact inv.parked q v ((same q new).symm.trans here) parked

/-- The callback of a context is nobody's place or reference. -/
theorem Inv.callback (inv : s.Inv) {handle : Nat} {cb : Bool} :
    (s.update handle fun v => { v with cb := cb }).Inv := by
  have grows : GrowsTo s.services (s.services.modify handle fun v => { v with cb := cb }) :=
    .modify fun v _ => ⟨id, id, id, .inl⟩
  refine ⟨?_, fun t mem => (inv.ok t mem).mono grows, fun q mem => (inv.born q mem).mono grows,
    fun t mem q inside => (inv.published t mem q inside).mono grows, ?_⟩
  · intro q
    have balanced := inv.owned q
    by_cases here : handle = q
    · subst here
      rw [services_update, List.getElem?_modify_eq]
      cases at_h : s.services[handle]? with
      | none => rwa [at_h] at balanced
      | some v =>
          rw [at_h] at balanced
          obtain ⟨token, counted, deleted, marked, ended⟩ := balanced
          exact ⟨token, counted, deleted, marked, ended⟩
    · rwa [services_update, List.getElem?_modify_ne _ _ here]
  · intro q v' at_q parked
    obtain ⟨v, before, grown⟩ := grows q v' at_q
    cases grown.parked parked with
    | inl parked => exact grown.init (inv.parked q v before parked)
    | inr init => exact grown.init init

theorem Inv.init : State.Inv (⟨[], [], []⟩ : State M) := by
  refine ⟨?_, ?_, ?_, ?_, ?_⟩
  · intro q
    exact ⟨rfl, rfl, rfl, rfl⟩
  · exact List.forall_mem_nil _
  · exact List.forall_mem_nil _
  · exact List.forall_mem_nil _
  · intro q v here
    cases here

theorem Inv.event [Inhabited M] {weight : Nat → Int} {e : Event M} (inv : s.Inv)
    (step : s.step weight e = some (s', o)) : s'.Inv := by
  cases e with
  | worker =>
      cases step
      exact inv.spawn ⟨rfl, rfl, rfl, rfl, rfl⟩ trivial
  | launch =>
      cases step
      exact inv.launch
  | send q message =>
      cases step
      exact inv.spawn ⟨rfl, rfl, rfl, rfl, rfl⟩ trivial
  | retire q =>
      cases step
      exact inv.spawn ⟨rfl, rfl, rfl, rfl, rfl⟩ ⟨List.forall_mem_nil _, trivial⟩
  | callback i cb =>
      obtain ⟨handle, -, ran⟩ := Option.map_eq_some_iff.mp step
      cases ran
      exact inv.callback
  | step i initOk =>
      obtain ⟨t, at_i, ran⟩ := Option.bind_eq_some_iff.mp step
      exact inv.run at_i ran

theorem Inv.of_reach [Inhabited M] {weight : Nat → Int} {trace : List (Event M × Output M)}
    (reach : (machine weight).Reach trace s) : s.Inv :=
  reach.invariant (fun _ s => s.Inv) Inv.init fun _ _ _ _ _ inv step => inv.event step

end Worker

theorem Inv.exclusive (inv : s.Inv) : s.Exclusive := by
  have count : ∀ q, q ∈ s.places ∨ q ∈ s.tasks.flatMap Task.refs ∨
      q ∈ s.tasks.flatMap Task.marking ∨ q ∈ s.tasks.flatMap Task.freeing →
      ∃ v, s.services[q]? = some v ∧ v.Fits (s.places.count q)
        ((s.tasks.flatMap Task.refs).count q) ((s.tasks.flatMap Task.marking).count q)
        ((s.tasks.flatMap Task.freeing).count q) := by
    intro q has
    have balanced := inv.owned q
    cases at_q : s.services[q]? with
    | some v =>
        rw [at_q] at balanced
        exact ⟨v, rfl, balanced⟩
    | none =>
        rw [at_q] at balanced
        simp only [← List.count_pos_iff, balanced.1, balanced.2.1, balanced.2.2.1,
          balanced.2.2.2] at has
        omega
  have inside : ∀ (f : Task M → List Nat) t, t ∈ s.tasks → ∀ q ∈ f t, q ∈ s.tasks.flatMap f :=
    fun f t mem q at_ => List.mem_flatMap.mpr ⟨t, mem, at_⟩
  have referenced : ∀ t ∈ s.tasks, ∀ q ∈ t.refs, ∃ v, s.services[q]? = some v ∧
      v.freed = false ∧ v.queueFreed = false := by
    intro t mem q at_
    have held := inside Task.refs t mem q at_
    obtain ⟨v, at_q, fits⟩ := count q (.inr (.inl held))
    have held := List.count_pos_iff.mpr held
    obtain ⟨token, counted, deleted, marked, ended⟩ := fits
    exact ⟨v, at_q, Bool.toNat_eq_zero.mp (by omega), Bool.toNat_eq_zero.mp (by omega)⟩
  refine ⟨?_, ?_, referenced, ?_, ?_, ?_⟩
  · rw [List.nodup_iff_count_le_one]
    intro q
    by_cases mem : q ∈ s.places
    · obtain ⟨v, -, fits⟩ := count q (.inl mem)
      have token := fits.token
      omega
    · rw [List.count_eq_zero.mpr mem]
      exact Nat.zero_le 1
  · intro q mem
    obtain ⟨v, at_q, fits⟩ := count q (.inl mem)
    have held := List.count_pos_iff.mpr mem
    have token := fits.token
    exact ⟨v, at_q, Bool.toNat_eq_zero.mp (by omega)⟩
  · intro q k n mem
    obtain ⟨v, at_q, freed, -⟩ := referenced _ mem q List.mem_cons_self
    exact ⟨v, at_q, inv.ok _ mem v at_q, freed⟩
  · rw [List.nodup_iff_count_le_one]
    intro q
    rw [List.count_append]
    by_cases mem : q ∈ s.tasks.flatMap Task.marking ∨ q ∈ s.tasks.flatMap Task.freeing
    · obtain ⟨v, -, fits⟩ := count q (.inr (.inr mem))
      have deleted := fits.deleted
      omega
    · rw [not_or] at mem
      rw [List.count_eq_zero.mpr mem.1, List.count_eq_zero.mpr mem.2]
      exact Nat.zero_le 1
  · intro t mem q at_
    have held := inside Task.marking t mem q at_
    obtain ⟨v, at_q, fits⟩ := count q (.inr (.inr (.inl held)))
    have held := List.count_pos_iff.mpr held
    obtain ⟨token, counted, deleted, marked, ended⟩ := fits
    exact ⟨v, at_q, Bool.toNat_eq_zero.mp (by omega), Bool.toNat_eq_zero.mp (by omega)⟩

end State

/-- Whatever the tasks are and in whatever order they take their steps: a queue stands in
the global queue or with one task, no task has what is freed, and every context that loses
its last reference is deleted once. -/
theorem dispatch_exclusive [Inhabited M] {weight : Nat → Int} {s : State M}
    {trace : List (Event M × Output M)} (reach : (machine weight).Reach trace s) : s.Exclusive :=
  (State.Inv.of_reach reach).exclusive

/-- A worker is in the callback of a service while a message waits behind it. -/
theorem dispatch_exclusive_callback : ∃ trace, ∃ s : State Nat,
    (machine fun _ => -1).Reach trace s ∧ s.tasks = [.done, .calls 0 0 1, .done, .done] ∧
      s.Exclusive := by
  have ran : ∃ trace s, (machine (M := Nat) fun _ => -1).run (machine fun _ => -1).init
      [.launch, .callback 0 true, .step 0 true, .step 0 true, .step 0 true, .step 0 true, .worker,
        .send 0 7, .step 2 true, .step 2 true, .step 2 true, .send 0 8, .step 3 true,
        .step 3 true, .step 3 true, .step 1 true, .step 1 true, .step 1 true, .step 1 true,
        .step 1 true] = some (trace, s) ∧ s.tasks = [.done, .calls 0 0 1, .done, .done] :=
    ⟨_, _, rfl, rfl⟩
  obtain ⟨trace, s, ran, tasks⟩ := ran
  exact ⟨trace, s, Machine.reach_run ran, tasks, dispatch_exclusive (Machine.reach_run ran)⟩

end Qiuqiu.Server.Dispatch
