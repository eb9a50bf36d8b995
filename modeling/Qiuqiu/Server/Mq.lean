import Qiuqiu.Base.Ring

/-!
The message queue of a service (skynet-src/skynet_mq.c): a ring that doubles when it is full,
the flag that says whether the queue is in the global queue or with a worker, and the mark
that its context is gone.
-/
namespace Qiuqiu.Server

structure Mq (M : Type) where
  ring : Ring M
  release : Bool
  inGlobal : Bool
  overload : Nat
  overloadThreshold : Nat

namespace Mq
variable {M : Type}

/-- `skynet_mq_create`. -/
def create [Inhabited M] : Mq M where
  ring := .empty 64
  release := false
  inGlobal := true
  overload := 0
  overloadThreshold := 1024

/-- The loop of `skynet_mq_pop` that doubles the threshold, with the rounds that are left. -/
def raise (length : Nat) : Nat → Mq M → Mq M
  | 0, q => q
  | rounds + 1, q =>
      if length > q.overloadThreshold then
        raise length rounds
          { q with overload := length, overloadThreshold := q.overloadThreshold * 2 }
      else q

/-- `skynet_mq_pop`. As many rounds as there are messages are enough (`raise_done`). -/
def pop (q : Mq M) : Option M × Mq M :=
  match q.ring.pop with
  | some (message, ring) =>
      let q := { q with ring := ring }
      (some message, raise ring.length ring.length q)
  | none => (none, { q with overloadThreshold := 1024, inGlobal := false })

/-- `skynet_mq_push`, and whether it pushes the queue to the global one. -/
def push (q : Mq M) (message : M) : Mq M × Bool :=
  ({ q with ring := q.ring.push (· * 2) message, inGlobal := true }, !q.inGlobal)

/-- `skynet_mq_overload`. -/
def readOverload (q : Mq M) : Nat × Mq M := (q.overload, { q with overload := 0 })

/-- The ring holds the messages, and both numbers are positive that the queue doubles. -/
structure Holds (q : Mq M) (messages : List M) : Prop where
  ring : q.ring.Holds messages
  threshold : 0 < q.overloadThreshold

variable {q q' : Mq M} {messages : List M} {message : M}

theorem raise_spec (length rounds : Nat) (q : Mq M) :
    (raise length rounds q).ring = q.ring ∧ (raise length rounds q).release = q.release ∧
      (raise length rounds q).inGlobal = q.inGlobal ∧
      (0 < q.overloadThreshold → 0 < (raise length rounds q).overloadThreshold) := by
  induction rounds generalizing q with
  | zero => exact ⟨rfl, rfl, rfl, id⟩
  | succ rounds ih =>
      rw [raise]
      split
      · obtain ⟨ring, release, inGlobal, pos⟩ := ih
          { q with overload := length, overloadThreshold := q.overloadThreshold * 2 }
        exact ⟨ring, release, inGlobal, fun h => pos (Nat.mul_pos h (by decide))⟩
      · exact ⟨rfl, rfl, rfl, id⟩

/-- The loop of the source ends within these rounds. -/
theorem raise_done {length rounds : Nat} (pos : 0 < q.overloadThreshold)
    (enough : length ≤ q.overloadThreshold + rounds) :
    length ≤ (raise length rounds q).overloadThreshold := by
  induction rounds generalizing q with
  | zero => exact enough
  | succ rounds ih =>
      rw [raise]
      split
      · apply ih
        · exact Nat.mul_pos pos (by decide)
        · change length ≤ q.overloadThreshold * 2 + rounds
          omega
      · rename_i low
        exact Nat.not_lt.mp low

theorem pop_some (popped : q.pop = (some message, q')) :
    q'.release = q.release ∧ q'.inGlobal = q.inGlobal := by
  rw [pop] at popped
  split at popped
  · rename_i first ring _
    cases popped
    obtain ⟨-, release, inGlobal, -⟩ :=
      raise_spec ring.length ring.length { q with ring := ring }
    exact ⟨release, inGlobal⟩
  · cases popped

theorem pop_none (popped : q.pop = (none, q')) :
    q'.release = q.release ∧ q'.inGlobal = false := by
  rw [pop] at popped
  split at popped
  · cases popped
  · cases popped
    exact ⟨rfl, rfl⟩

namespace Holds

theorem create [Inhabited M] : Holds (Mq.create : Mq M) [] := ⟨.empty (by decide), Nat.succ_pos _⟩

theorem pop_nil (holds : Holds q []) :
    q.pop = (none, { q with overloadThreshold := 1024, inGlobal := false }) := by
  rw [Mq.pop, holds.ring.pop_nil]

theorem pop_cons (holds : Holds q (message :: messages)) :
    ∃ q', q.pop = (some message, q') ∧ Holds q' messages ∧ q'.release = q.release ∧
      q'.inGlobal = q.inGlobal := by
  obtain ⟨ring, popped, rest⟩ := holds.ring.pop_cons
  obtain ⟨same, release, inGlobal, pos⟩ :=
    raise_spec ring.length ring.length { q with ring := ring }
  refine ⟨_, by rw [Mq.pop, popped], ⟨?_, pos holds.threshold⟩, release, inGlobal⟩
  rw [same]
  exact rest

theorem push (holds : Holds q messages) (message : M) :
    Holds (q.push message).1 (messages ++ [message]) := by
  have pos : 0 < q.ring.cap := Nat.zero_lt_of_lt holds.ring.head_lt
  have larger : q.ring.cap < q.ring.cap * 2 := by omega
  exact ⟨holds.ring.push larger message, holds.threshold⟩

end Holds
end Mq
end Qiuqiu.Server
