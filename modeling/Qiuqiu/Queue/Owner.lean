import Qiuqiu.Queue.Model

/-!
The owners of the agent's queues (skynet/lualib/skynet/queue.lua). All queues of the
service write one table `co2urs`: a call of an owned queue assigns the entry of its
coroutine, and its end removes the entry, whatever the coroutine still has open
below. The entry names the innermost owner along a run exactly when no owned call
ends inside another one.
-/
namespace Qiuqiu.Queue.Owner
variable {Q Co Urs Val : Type}

/-- The service: its queues, the table they share, and of every coroutine the queues
whose bodies it has open, the innermost first, and the queue it waits in. -/
structure Service (Q Co Urs : Type) where
  queues : Q → State Co Urs (ring Co)
  co2urs : Co → Option Urs
  stack : Co → List Q
  waitsIn : Co → Option Q

inductive Event (Q Co Val : Type) where
  | call (thread : Co) (queue : Q)
  | resume (thread : Co)
  | finish (thread : Co) (ok : Bool) (result : Val)

namespace Service

section
variable (s : Service Q Co Urs)

/-- A queue as its functions see it. -/
def view (queue : Q) : State Co Urs (ring Co) :=
  { s.queues queue with co2urs := s.co2urs }

/-- The owner of the innermost owned queue among these. -/
def ownerOf (queues : List Q) : Option Urs :=
  queues.findSome? fun queue => (s.queues queue).ownerUrs

/-- The table names the innermost owner of every coroutine, and nothing for a
coroutine in no owned body. -/
def Attributed : Prop := ∀ thread, s.co2urs thread = s.ownerOf (s.stack thread)

/-- The owned body that ends stands in no other owned body. -/
def unnested : Event Q Co Val → Bool
  | .finish thread _ _ =>
      match s.stack thread with
      | queue :: rest => (s.queues queue).ownerUrs.isNone || (s.ownerOf rest).isNone
      | [] => true
  | _ => true

end

section
variable {s s' : Service Q Co Urs}

/-- No step changes an owner. -/
def SameOwners (s s' : Service Q Co Urs) : Prop :=
  ∀ queue, (s'.queues queue).ownerUrs = (s.queues queue).ownerUrs

theorem ownerOf_cons (queue : Q) (rest : List Q) :
    s.ownerOf (queue :: rest) = (s.queues queue).ownerUrs.or (s.ownerOf rest) := by
  cases owner : (s.queues queue).ownerUrs with
  | none => simp [ownerOf, owner]
  | some urs => simp [ownerOf, owner]

theorem SameOwners.ownerOf (same : SameOwners s s') (queues : List Q) :
    s'.ownerOf queues = s.ownerOf queues := by
  unfold Service.ownerOf
  exact congrArg (fun f => queues.findSome? f) (funext same)

theorem unnested_of_not_finish {e : Event Q Co Val}
    (other : ∀ thread ok result, e ≠ .finish thread ok result) : s.unnested e = true := by
  cases e with
  | call thread queue => rfl
  | resume thread => rfl
  | finish thread ok result => exact absurd rfl (other thread ok result)

end

section
variable [DecidableEq Co] (s : Service Q Co Urs)

def push (thread : Co) (queue : Q) : Service Q Co Urs :=
  { s with stack := Function.update s.stack thread (queue :: s.stack thread) }

def setWaits (thread : Co) (queue : Option Q) : Service Q Co Urs :=
  { s with waitsIn := Function.update s.waitsIn thread queue }

/-- The table after an operation of the queue that assigns `value`. -/
def marked (queue : Q) (thread : Co) (value : Option Urs) :
    Co → Option Urs :=
  if (s.queues queue).ownerUrs.isSome then Function.update s.co2urs thread value else s.co2urs

variable {s} {thread : Co} {queue : Q} {value : Option Urs}

/-- The coroutines that do not move keep their entries and their bodies. -/
theorem marked_other {other : Co} (ne : other ≠ thread) :
    s.marked queue thread value other = s.co2urs other := by
  unfold marked
  split
  · exact Function.update_of_ne ne _ _
  · rfl

theorem marked_self : s.marked queue thread value thread =
    if (s.queues queue).ownerUrs.isSome then value else s.co2urs thread := by
  unfold marked
  split
  · exact Function.update_self _ _ _
  · rfl

variable {s' : Service Q Co Urs}

/-- A step that changes the bodies and the entry of one coroutine only keeps the table
right when it does so for this coroutine. -/
theorem attributed_iff_self (same : SameOwners s s') (good : s.Attributed) {queues : List Q}
    (stack : s'.stack = Function.update s.stack thread queues)
    (table : s'.co2urs = s.marked queue thread value) :
    s'.Attributed ↔ s.marked queue thread value thread = s.ownerOf queues := by
  constructor
  · intro good'
    have self := good' thread
    rwa [table, stack, Function.update_self, same.ownerOf] at self
  · intro self other
    rw [table, stack, same.ownerOf]
    by_cases here : other = thread
    · subst here
      rw [Function.update_self]
      exact self
    · rw [marked_other here, Function.update_of_ne here]
      exact good other

end

section
variable [DecidableEq Q] [DecidableEq Co] (s : Service Q Co Urs)

def store (queue : Q) (q : State Co Urs (ring Co)) : Service Q Co Urs :=
  { s with queues := Function.update s.queues queue q, co2urs := q.co2urs }

/-- A coroutine that waits in a queue moves only when that queue resumes it, and the
body that ends is the innermost one. -/
def step : Event Q Co Val → Option (Service Q Co Urs × Answer Val)
  | .call thread queue =>
      match s.waitsIn thread, Queue.step true (s.view queue) (.call thread) with
      | none, some (q, .enters) => some ((s.store queue q).push thread queue, .enters)
      | none, some (q, o) => some ((s.store queue q).setWaits thread (some queue), o)
      | _, _ => none
  | .resume thread =>
      match s.waitsIn thread with
      | some queue =>
          match Queue.step true (s.view queue) (.resume thread) with
          | some (q, .enters) =>
              some (((s.store queue q).setWaits thread none).push thread queue, .enters)
          | some (q, o) => some ((s.store queue q).setWaits thread none, o)
          | none => none
      | none => none
  | .finish thread ok result =>
      match s.waitsIn thread, s.stack thread with
      | none, queue :: rest =>
          match Queue.step true (s.view queue) (.finish thread ok result) with
          | some (q, o) =>
              some ({ s.store queue q with stack := Function.update s.stack thread rest }, o)
          | none => none
      | _, _ => none

end

end Service

variable [DecidableEq Q] [DecidableEq Co]

/-- The service in which every queue has been given its owner, or none, before its
first call. -/
def machine (Val : Type) (owner : Q → Option Urs) :
    Machine (Service Q Co Urs) (Event Q Co Val) (Answer Val) where
  init := ⟨fun queue => { create with ownerUrs := owner queue }, fun _ => none, fun _ => [],
    fun _ => none⟩
  step := Service.step

section Effect
variable {q q' : State Co Urs (ring Co)} {thread : Co} {o : Answer Val} {value : Option Urs}

/-- The operation leaves the owner, and an owned queue assigns `value` to the entry of
the coroutine. -/
def Effect (q : State Co Urs (ring Co)) (thread : Co) (value : Option Urs)
    (q' : State Co Urs (ring Co)) : Prop :=
  q'.ownerUrs = q.ownerUrs ∧ q'.co2urs =
    if q.ownerUrs.isSome then Function.update q.co2urs thread value else q.co2urs

theorem setCo2urs_effect {s : State Co Urs (ring Co)} (owner : s.ownerUrs = q.ownerUrs)
    (table : s.co2urs = q.co2urs) : Effect q thread value (s.setCo2urs true thread value) := by
  refine ⟨owner, ?_⟩
  simp only [State.setCo2urs, owner, table, Bool.true_and]

theorem enter_effect {s : State Co Urs (ring Co)} (owner : s.ownerUrs = q.ownerUrs)
    (table : s.co2urs = q.co2urs) : Effect q thread q.ownerUrs (s.enter true thread) := by
  rw [← owner]
  exact setCo2urs_effect (s := { s with currentThread := some thread, ref := s.ref + 1 }) owner
    table

omit [DecidableEq Co] in
theorem handOver_frame (s : State Co Urs (ring Co)) :
    s.handOver.ownerUrs = s.ownerUrs ∧ s.handOver.co2urs = s.co2urs := by
  simp only [State.handOver]
  split
  · exact ⟨rfl, rfl⟩
  · exact ⟨rfl, rfl⟩

/-- A call or a resumption that enters assigns the entry, any other one changes
neither the owner nor the table. -/
def Enters (q : State Co Urs (ring Co)) (thread : Co) (o : Answer Val)
    (q' : State Co Urs (ring Co)) : Prop :=
  o = .enters ∧ Effect q thread q.ownerUrs q' ∨
    o ≠ .enters ∧ q'.ownerUrs = q.ownerUrs ∧ q'.co2urs = q.co2urs

theorem call_enters (h : Queue.step true q (.call thread) = some (q', o)) :
    Enters q thread o q' := by
  simp only [Queue.step, State.call] at h
  split at h
  · cases h
  · split at h
    · cases h
      exact .inr ⟨nofun, rfl, rfl⟩
    · cases h
      exact .inl ⟨rfl, enter_effect rfl rfl⟩

theorem resume_enters (h : Queue.step true q (.resume thread) = some (q', o)) :
    Enters q thread o q' := by
  simp only [Queue.step, State.resume] at h
  split at h
  · split at h
    · cases h
      exact .inl ⟨rfl, enter_effect rfl rfl⟩
    · cases h
      exact .inr ⟨nofun, rfl, rfl⟩
  · cases h

theorem finish_effect {ok : Bool} {result : Val}
    (h : Queue.step true q (.finish thread ok result) = some (q', o)) :
    Effect q thread none q' := by
  simp only [Queue.step, State.xpcallRet] at h
  split at h
  · cases h
    split
    · exact setCo2urs_effect (handOver_frame _).1 (handOver_frame _).2
    · exact setCo2urs_effect rfl rfl
  · cases h

end Effect

namespace Service
variable {s s' : Service Q Co Urs} {thread : Co} {queue : Q} {value : Option Urs}

/-- What a step can do to the open bodies and the table. -/
inductive Moves (s s' : Service Q Co Urs) : Event Q Co Val → Prop
  | enters {e thread queue} : (∀ thread ok result, e ≠ .finish thread ok result) →
      s'.stack = Function.update s.stack thread (queue :: s.stack thread) →
      s'.co2urs = s.marked queue thread (s.queues queue).ownerUrs → Moves s s' e
  | waits {e} : (∀ thread ok result, e ≠ .finish thread ok result) →
      s'.stack = s.stack → s'.co2urs = s.co2urs → Moves s s' e
  | leaves {thread ok result queue rest} : s.stack thread = queue :: rest →
      s'.stack = Function.update s.stack thread rest →
      s'.co2urs = s.marked queue thread none → Moves s s' (.finish thread ok result)

omit [DecidableEq Co] in
theorem sameOwners_store {q : State Co Urs (ring Co)}
    (owner : q.ownerUrs = (s.queues queue).ownerUrs) : SameOwners s (s.store queue q) := by
  intro other
  by_cases same : other = queue
  · subst same
    simpa [store] using owner
  · simp [store, same]

theorem step_moves {e : Event Q Co Val} {o : Answer Val} (step : s.step e = some (s', o)) :
    SameOwners s s' ∧ Moves s s' e := by
  cases e with
  | call thread queue =>
      simp only [Service.step] at step
      split at step
      · rename_i q _ called
        cases step
        obtain ⟨-, effect⟩ | ⟨other, -⟩ := call_enters called
        · exact ⟨sameOwners_store effect.1, .enters (fun _ _ _ h => by cases h) rfl effect.2⟩
        · exact absurd rfl other
      · rename_i q o notEnters _ called
        cases step
        obtain ⟨enters, -⟩ | ⟨-, owner, table⟩ := call_enters called
        · exact absurd enters notEnters
        · exact ⟨sameOwners_store owner, .waits (fun _ _ _ h => by cases h) rfl table⟩
      · cases step
  | resume thread =>
      simp only [Service.step] at step
      split at step
      · rename_i queue _
        split at step
        · rename_i q resumed
          cases step
          obtain ⟨-, effect⟩ | ⟨other, -⟩ := resume_enters resumed
          · exact ⟨sameOwners_store effect.1, .enters (fun _ _ _ h => by cases h) rfl effect.2⟩
          · exact absurd rfl other
        · rename_i q o notEnters resumed
          cases step
          obtain ⟨enters, -⟩ | ⟨-, owner, table⟩ := resume_enters resumed
          · exact absurd enters notEnters
          · exact ⟨sameOwners_store owner, .waits (fun _ _ _ h => by cases h) rfl table⟩
        · cases step
      · cases step
  | finish thread ok result =>
      simp only [Service.step] at step
      split at step
      · rename_i queue rest _ stack
        split at step
        · rename_i q o finished
          cases step
          have effect := finish_effect finished
          exact ⟨sameOwners_store effect.1, .leaves stack rfl effect.2⟩
        · cases step
      · cases step

theorem attributed_step {e : Event Q Co Val} {o : Answer Val} (good : s.Attributed)
    (step : s.step e = some (s', o)) : s'.Attributed ↔ s.unnested e = true := by
  obtain ⟨same, moves⟩ := step_moves step
  cases moves with
  | @enters _ thread queue other stack table =>
      rw [attributed_iff_self same good stack table, unnested_of_not_finish other, marked_self,
        ownerOf_cons, good thread]
      cases (s.queues queue).ownerUrs with
      | none => simp
      | some urs => simp
  | waits other stack table =>
      rw [unnested_of_not_finish other]
      refine iff_of_true (fun thread => ?_) rfl
      rw [table, stack, same.ownerOf]
      exact good thread
  | @leaves thread ok result queue rest open_ stack table =>
      have before := good thread
      rw [open_, ownerOf_cons] at before
      rw [attributed_iff_self same good stack table, marked_self]
      simp only [unnested, open_]
      cases owner : (s.queues queue).ownerUrs with
      | none =>
          rw [owner, Option.none_or] at before
          simp [before]
      | some urs =>
          cases below : s.ownerOf rest with
          | none => simp
          | some urs' => simp

end Service

/-- Along every run of any number of coroutines and queues, with bodies that return or
raise, the table names the innermost owner of every coroutine in every state exactly
when no owned body ends inside another owned body. -/
theorem attributed_iff_unnested (owner : Q → Option Urs)
    {trace : List (Event Q Co Val × Service Q Co Urs × Answer Val × Service Q Co Urs)}
    {s : Service Q Co Urs} (reach : (machine Val owner).record.Reach trace s) :
    (∀ x ∈ trace, x.2.2.2.Attributed) ↔ ∀ x ∈ trace, x.2.1.unnested x.1 = true :=
  (reach.record_iff Service.Attributed (fun _ => rfl) (P := fun _ _ _ s' => s'.Attributed)
    (Q := fun s e _ _ => s.unnested e = true) (fun _ _ _ _ _ _ good => good)
    (fun _ _ _ _ good step => Service.attributed_step good step)).2

/-- A queue without owner inside the queue of account 7, and a body that raises: the
entry stays while the inner body ends. -/
theorem attributed_of_free_inside :
    ∃ trace s, (machine Unit (fun queue : Bool => if queue then some 7 else none) :
        Machine (Service Bool Nat Nat) _ _).record.Reach trace s ∧ trace.length = 4 ∧
      ∀ x ∈ trace, x.2.2.2.Attributed := by
  have reach : (machine Unit (fun queue : Bool => if queue then some 7 else none) :
      Machine (Service Bool Nat Nat) _ _).record.Reach _ _ :=
    .next (.next (.next (.next .init (e := .call 0 true) rfl) (e := .call 0 false) rfl)
      (e := .finish 0 false ()) rfl) (e := .finish 0 true ()) rfl
  refine ⟨_, _, reach, rfl, (attributed_iff_unnested _ reach).mpr ?_⟩
  simp only [List.nil_append, List.cons_append, List.forall_mem_cons]
  exact ⟨rfl, rfl, rfl, rfl, nofun⟩

/-- A coroutine that calls the queue it is in has no entry once the inner call ends. -/
theorem not_attributed_of_reentry :
    ¬ ∀ (owner : Unit → Option Nat) trace s, (machine Unit owner :
        Machine (Service Unit Nat Nat) _ _).record.Reach trace s →
      ∀ x ∈ trace, x.2.2.2.Attributed := by
  intro all
  have reach : (machine Unit (fun _ => some 7) :
      Machine (Service Unit Nat Nat) _ _).record.Reach _ _ :=
    .next (.next (.next .init (e := .call 0 ()) rfl) (e := .call 0 ()) rfl)
      (e := .finish 0 true ()) rfl
  have last := all _ _ _ reach _ (List.mem_append_right _ List.mem_cons_self)
  cases last 0

end Qiuqiu.Queue.Owner
