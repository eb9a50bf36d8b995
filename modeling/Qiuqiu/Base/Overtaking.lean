import Mathlib.Data.List.Basic
import Qiuqiu.Base.Machine

/-!
A queue in which urgent items overtake the others. Items of one key keep their order, as long
as no urgent item is sent behind one of its key that is not urgent and still waits.
-/
namespace Qiuqiu.Overtaking
variable {α K : Type} [DecidableEq K] (key : α → K) (urgent : α → Bool)

/-- Behind an item that is not urgent stands no urgent one of its key. -/
def Calm (l : List α) : Prop := l.Pairwise fun x y => key x = key y → urgent y → urgent x

instance (l : List α) : Decidable (Calm key urgent l) := inferInstanceAs (Decidable (l.Pairwise _))

inductive Event (α : Type) where
  | send (items : List α)
  | take (n : Nat)

/-- The first item may be taken, and an urgent one behind others that are not. -/
def step (queue : List α) : Event α → Option (List α × Option α)
  | .send items =>
      if Calm key urgent (queue ++ items) then some (queue ++ items, none) else none
  | .take n =>
      match queue[n]? with
      | some x =>
          if n = 0 ∨ urgent x ∧ (queue.take n).all fun y => !urgent y then
            some (queue.eraseIdx n, some x)
          else none
      | none => none

def machine : Machine (List α) (Event α) (Option α) where
  init := []
  step := step key urgent

/-- The items sent in a run, in order. -/
def sent (trace : List (Event α × Option α)) : List α :=
  trace.flatMap fun x => match x.1 with
    | .send items => items
    | .take _ => []

/-- The items taken in a run, in order. -/
def taken (trace : List (Event α × Option α)) : List α := trace.filterMap Prod.snd

/-- The items of a key. -/
def ofKey (k : K) (l : List α) : List α := l.filter fun x => key x = k

variable {key urgent} {queue queue' pre post items : List α} {x : α} {k : K}
  {trace : List (Event α × Option α)}

theorem ofKey_append (l l' : List α) : ofKey key k (l ++ l') = ofKey key k l ++ ofKey key k l' :=
  List.filter_append ..

omit [DecidableEq K] in
/-- Items of one priority overtake nothing of each other. -/
theorem calm_of_urgent {b : Bool} (same : ∀ x ∈ items, urgent x = b) : Calm key urgent items := by
  refine List.pairwise_of_forall_mem_list fun x mem y mem' _ first => ?_
  rw [same x mem, ← same y mem']
  exact first

/-- Items are sent when none of their keys waits. -/
theorem step_send (calm : Calm key urgent queue) (calm' : Calm key urgent items)
    (other : ∀ x ∈ queue, ∀ y ∈ items, key x ≠ key y) :
    step key urgent queue (.send items) = some (queue ++ items, none) := by
  have both : Calm key urgent (queue ++ items) :=
    List.pairwise_append.mpr
      ⟨calm, calm', fun x mem y mem' same => absurd same (other x mem y mem')⟩
  rw [step, if_pos both]

/-- Of its key, the item that is taken is the first. -/
theorem ofKey_taken (calm : Calm key urgent (pre ++ x :: post))
    (first : pre = [] ∨ urgent x = true ∧ ∀ y ∈ pre, urgent y = false) (k : K) :
    ofKey key k (pre ++ x :: post) = ofKey key k [x] ++ ofKey key k (pre ++ post) := by
  have before : key x = k → ofKey key k pre = [] := by
    intro own
    cases first with
    | inl empty => rw [empty]; rfl
    | inr overtakes =>
        refine List.filter_eq_nil_iff.mpr fun y mem same => ?_
        have across := (List.pairwise_append.mp calm).2.2 y mem x (List.mem_cons_self ..)
        have also := across ((of_decide_eq_true same).trans own.symm) overtakes.1
        rw [overtakes.2 y mem] at also
        cases also
  rw [List.append_cons, ofKey_append, ofKey_append, ofKey_append]
  by_cases own : key x = k
  · rw [before own]
    rfl
  · have other : ofKey key k [x] = [] := by
      rw [ofKey, List.filter_cons_of_neg (by simpa using own), List.filter_nil]
    rw [other, List.append_nil]
    rfl

theorem step_taken {n : Nat} {o : Option α}
    (took : step key urgent queue (.take n) = some (queue', o)) :
    ∃ pre x post, queue = pre ++ x :: post ∧ queue' = pre ++ post ∧ o = some x ∧
      (pre = [] ∨ urgent x = true ∧ ∀ y ∈ pre, urgent y = false) := by
  rw [step] at took
  cases at_n : queue[n]? with
  | none =>
      rw [at_n] at took
      cases took
  | some x =>
      rw [at_n] at took
      dsimp only at took
      split at took
      · rename_i first
        cases took
        obtain ⟨inside, here⟩ := List.getElem?_eq_some_iff.mp at_n
        refine ⟨queue.take n, x, queue.drop (n + 1), ?_, List.eraseIdx_eq_take_drop_succ .., rfl,
          ?_⟩
        · rw [← here, List.getElem_cons_drop, List.take_append_drop]
        · cases first with
          | inl zero => exact .inl (by rw [zero, List.take_zero])
          | inr overtakes =>
              refine .inr ⟨overtakes.1, fun y mem => ?_⟩
              exact Bool.eq_false_iff.mpr (by simpa using List.all_eq_true.mp overtakes.2 y mem)
      · cases took

/-- Of every key, what was taken and what waits is what was sent, in the same order. -/
theorem taken_in_order (reach : (machine key urgent).Reach trace queue) :
    Calm key urgent queue ∧
      ∀ k, ofKey key k (taken trace) ++ ofKey key k queue = ofKey key k (sent trace) := by
  induction reach with
  | init => exact ⟨.nil, fun _ => rfl⟩
  | @next trace queue e queue' o before took ih =>
      obtain ⟨calm, order⟩ := ih
      have took : step key urgent queue e = some (queue', o) := took
      rw [taken, List.filterMap_append, sent, List.flatMap_append]
      cases e with
      | send items =>
          rw [step] at took
          split at took
          · rename_i calm'
            cases took
            refine ⟨calm', fun k => ?_⟩
            change ofKey key k (taken trace ++ []) ++ ofKey key k (queue ++ items) =
              ofKey key k (sent trace ++ (items ++ []))
            rw [List.append_nil, List.append_nil, ofKey_append, ofKey_append, ← List.append_assoc,
              order]
          · cases took
      | take n =>
          obtain ⟨pre, x, post, whole, rest, out, first⟩ := step_taken took
          subst whole rest out
          refine ⟨calm.sublist ((List.sublist_cons_self x post).append_left pre), fun k => ?_⟩
          change ofKey key k (taken trace ++ [x]) ++ ofKey key k (pre ++ post) =
            ofKey key k (sent trace ++ [])
          rw [List.append_nil, ofKey_append, List.append_assoc, ← ofKey_taken calm first, order]

/-- What was taken of a key is the beginning of what was sent. -/
theorem taken_isPrefix (reach : (machine key urgent).Reach trace queue) (k : K) :
    ofKey key k (taken trace) <+: ofKey key k (sent trace) :=
  ⟨_, (taken_in_order reach).2 k⟩

end Qiuqiu.Overtaking
