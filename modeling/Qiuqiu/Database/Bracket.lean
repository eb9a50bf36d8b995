import Qiuqiu.Base.Machine
import Qiuqiu.Database.Requests

/-!
The requests of service/databasecell in flight around `closedb`. A request in
its bracket may be suspended; `closedb` itself is suspended by its query and,
while requests are in flight, by `skynet.wait`. The `lua` dispatch calls
`CheckEnd` after a handler that returned, the `callout` dispatch of the timers
does not. The bracket is exact in every interleaving; `closedb` is woken as
long as the last request to finish was dispatched by a message and returned.
-/
namespace Qiuqiu.Database
namespace Bracket

/-- The functions with a bracket. -/
inductive Request where
  | listCreatenexist
  | modCreatenexist
  | modSetdataPtrq
  | modGetdata
  | realListSetdataPtrq
  | realRoleSetdataPtrq
  | realModSetdataPtrq
  deriving DecidableEq

/-- Dispatched by a message; the others are called by the timers. -/
def Request.isMessage : Request → Bool
  | .listCreatenexist => true
  | .modCreatenexist => true
  | .modSetdataPtrq => true
  | .modGetdata => true
  | _ => false

/-- A coroutine: of a timer between two saves, or in the body of a request
that entered at `nowIndex`. -/
inductive Proc where
  | idle
  | timer
  | body (r : Request) (nowIndex : Nat)

/-- Where `closedb` stands. -/
inductive Closedb where
  | notCalled
  | querying
  | waiting
  | closing
  | closed
  deriving DecidableEq

structure State where
  req : Requests
  invalid : Bool
  endCo : Bool
  closedb : Closedb
  /-- `skynet.wakeup(EndCo)` was called and `EndCo` not resumed yet. -/
  wakeup : Bool
  procs : Nat → Proc

def init : State where
  req := .init
  invalid := false
  endCo := false
  closedb := .notCalled
  wakeup := false
  procs := fun _ => .idle

inductive Event where
  | message (c : Nat) (r : Request)
  | otherMessage (returns : Bool)
  | timerStart (c : Nat)
  | save (c : Nat) (r : Request)
  | timerEnd (c : Nat)
  | finish (c : Nat) (returns : Bool)
  | closedb
  | queried
  | wake
  | flushed (returns : Bool)

namespace State
variable (s : State)

def setProc (c : Nat) (p : Proc) : State := { s with procs := Function.update s.procs c p }

/-- `skynet.wakeup` puts a sleeping coroutine on the list of those to resume. -/
def checkEnd : State :=
  { s with wakeup :=
      s.wakeup || (s.invalid && s.endCo && s.req.isEmptyReqTbl && s.closedb = .waiting) }

/-- The dispatch of a message calls `CheckEnd` unless the handler raised. -/
def dispatched (returns : Bool) : State := if returns then s.checkEnd else s

/-- The start of a bracket on coroutine `c`. -/
def enter (c : Nat) (r : Request) : State :=
  let entered := s.req.enter
  { s with req := entered.2 }.setProc c (.body r entered.1)

/-- The end of the bracket that entered at `nowIndex`. -/
def leave (c : Nat) (nowIndex : Nat) (p : Proc) : State :=
  { s with req := s.req.leave nowIndex }.setProc c p

def step : Event → Option (State × Unit)
  | .message c r =>
      match s.procs c with
      | .idle =>
          if r.isMessage then
            if s.invalid then some (s.checkEnd, ()) else some (s.enter c r, ())
          else none
      | _ => none
  | .otherMessage returns => some (s.dispatched returns, ())
  | .timerStart c =>
      match s.procs c with
      | .idle => some (s.setProc c .timer, ())
      | _ => none
  | .save c r =>
      match s.procs c with
      | .timer =>
          if r.isMessage then none
          else if s.invalid then some (s, ()) else some (s.enter c r, ())
      | _ => none
  | .timerEnd c =>
      match s.procs c with
      | .timer => some (s.setProc c .idle, ())
      | _ => none
  | .finish c returns =>
      match s.procs c with
      | .body r nowIndex =>
          if r.isMessage then some ((s.leave c nowIndex .idle).dispatched returns, ())
          else some (s.leave c nowIndex .timer, ())
      | _ => none
  | .closedb =>
      if s.invalid then some (s.checkEnd, ())
      else some ({ s with invalid := true, closedb := .querying }, ())
  | .queried =>
      if s.closedb = .querying then
        if s.req.isEmptyReqTbl then some ({ s with closedb := .closing }, ())
        else some ({ s with closedb := .waiting, endCo := true }, ())
      else none
  | .wake =>
      if s.closedb = .waiting ∧ s.wakeup then
        some ({ s with closedb := .closing, endCo := false, wakeup := false }, ())
      else none
  | .flushed returns =>
      if s.closedb = .closing then some (({ s with closedb := .closed }).dispatched returns, ())
      else none

end State

def machine : Machine State Event Unit where
  init := init
  step := State.step

namespace State
variable {s s' : State}

def InFlight (s : State) (c k : Nat) : Prop := ∃ r, s.procs c = .body r k

/-- What a step can do. -/
inductive Moves (s : State) : Event → State → Prop
  | checked (e returns) : Moves s e (s.dispatched returns)
  | moved (e c p) : (∀ k, ¬ s.InFlight c k) → (∀ r k, p ≠ .body r k) →
      Moves s e (s.setProc c p)
  | entered (e c r) : s.invalid = false → (∀ k, ¬ s.InFlight c k) → Moves s e (s.enter c r)
  | finished (c r k p returns) : s.procs c = .body r k → (∀ q j, p ≠ .body q j) →
      Moves s (.finish c returns) ((s.leave c k p).dispatched (r.isMessage && returns))
  | called : s.invalid = false →
      Moves s .closedb { s with invalid := true, closedb := .querying }
  | starts : s.closedb = .querying → s.req.reqTbl = ∅ →
      Moves s .queried { s with closedb := .closing }
  | waits : s.closedb = .querying → s.req.reqTbl ≠ ∅ →
      Moves s .queried { s with closedb := .waiting, endCo := true }
  | wakes : s.closedb = .waiting → s.wakeup = true →
      Moves s .wake { s with closedb := .closing, endCo := false, wakeup := false }
  | flushed (returns) : s.closedb = .closing →
      Moves s (.flushed returns) (({ s with closedb := .closed }).dispatched returns)

theorem not_inFlight_of_free {c : Nat} {p : Proc} (h : s.procs c = p)
    (free : ∀ r k, p ≠ .body r k) (k : Nat) : ¬ s.InFlight c k := by
  intro inFlight
  cases inFlight with
  | intro r body => exact free r k (h.symm.trans body)

theorem step_finish {c : Nat} {returns : Bool} {o : Unit}
    (h : s.step (.finish c returns) = some (s', o)) :
    ∃ r k p, s.procs c = .body r k ∧ (∀ q j, p ≠ .body q j) ∧
      s' = (s.leave c k p).dispatched (r.isMessage && returns) := by
  simp only [step] at h
  split at h
  · rename_i r k body
    split at h
    · rename_i message
      cases h
      exact ⟨r, k, .idle, body, by simp, by simp [message]⟩
    · rename_i message
      cases h
      exact ⟨r, k, .timer, body, by simp, by simp [message, dispatched]⟩
  · cases h

theorem step_moves {e : Event} {o : Unit} (h : s.step e = some (s', o)) : s.Moves e s' := by
  cases e with
  | message c r =>
      simp only [step] at h
      split at h
      · rename_i idle
        split at h
        · split at h
          · cases h
            exact .checked _ true
          · rename_i valid
            cases h
            exact .entered _ c r (by simpa using valid) (not_inFlight_of_free idle (by simp))
        · cases h
      · cases h
  | otherMessage returns =>
      cases h
      exact .checked _ returns
  | timerStart c =>
      simp only [step] at h
      split at h
      · rename_i idle
        cases h
        exact .moved _ c .timer (not_inFlight_of_free idle (by simp)) (by simp)
      · cases h
  | save c r =>
      simp only [step] at h
      split at h
      · rename_i timer
        split at h
        · cases h
        · split at h
          · cases h
            exact .checked _ false
          · rename_i valid
            cases h
            exact .entered _ c r (by simpa using valid) (not_inFlight_of_free timer (by simp))
      · cases h
  | timerEnd c =>
      simp only [step] at h
      split at h
      · rename_i timer
        cases h
        exact .moved _ c .idle (not_inFlight_of_free timer (by simp)) (by simp)
      · cases h
  | finish c returns =>
      obtain ⟨r, k, p, body, free, rfl⟩ := step_finish h
      exact .finished c r k p returns body free
  | closedb =>
      simp only [step] at h
      split at h
      · cases h
        exact .checked _ true
      · rename_i valid
        cases h
        exact .called (by simpa using valid)
  | queried =>
      simp only [step] at h
      split at h
      · rename_i querying
        split at h
        · rename_i empty
          cases h
          exact .starts querying (by simpa [Requests.isEmptyReqTbl] using empty)
        · rename_i empty
          cases h
          exact .waits querying (by simpa [Requests.isEmptyReqTbl] using empty)
      · cases h
  | wake =>
      simp only [step] at h
      split at h
      · rename_i woken
        cases h
        exact .wakes woken.1 woken.2
      · cases h
  | flushed returns =>
      simp only [step] at h
      split at h
      · rename_i closing
        cases h
        exact .flushed returns closing
      · cases h

@[simp]
theorem dispatched_req (returns : Bool) : (s.dispatched returns).req = s.req := by
  cases returns <;> rfl

@[simp]
theorem dispatched_procs (returns : Bool) : (s.dispatched returns).procs = s.procs := by
  cases returns <;> rfl

@[simp]
theorem dispatched_invalid (returns : Bool) : (s.dispatched returns).invalid = s.invalid := by
  cases returns <;> rfl

@[simp]
theorem dispatched_endCo (returns : Bool) : (s.dispatched returns).endCo = s.endCo := by
  cases returns <;> rfl

@[simp]
theorem dispatched_closedb (returns : Bool) : (s.dispatched returns).closedb = s.closedb := by
  cases returns <;> rfl

@[simp]
theorem dispatched_inFlight (returns : Bool) (c k : Nat) :
    (s.dispatched returns).InFlight c k ↔ s.InFlight c k := by
  simp [InFlight]

theorem dispatched_wakeup {returns : Bool} (h : (s.dispatched returns).wakeup = true) :
    s.wakeup = true ∨ (s.invalid = true ∧ s.req.reqTbl = ∅ ∧ s.closedb = .waiting) := by
  cases returns with
  | false => exact .inl h
  | true =>
      simp only [dispatched, if_true, checkEnd, Bool.or_eq_true, Bool.and_eq_true,
        Requests.isEmptyReqTbl, decide_eq_true_eq] at h
      cases h with
      | inl pending => exact .inl pending
      | inr woken => exact .inr ⟨woken.1.1.1, woken.1.2, woken.2⟩

/-- The keys of `ReqTbl` are the slots of the requests in flight, each of one
request; a pending wakeup and the final flush exclude requests in flight. -/
structure Inv (s : State) : Prop where
  range : s.req.InRange
  keys : ∀ k, k ∈ s.req.reqTbl ↔ ∃ c, s.InFlight c k
  own : ∀ c d k, s.InFlight c k → s.InFlight d k → c = d
  called : s.closedb ≠ .notCalled → s.invalid = true
  endCo : s.closedb = .waiting → s.endCo = true
  quiet : s.wakeup = true ∨ s.closedb = .closing ∨ s.closedb = .closed →
    s.invalid = true ∧ s.req.reqTbl = ∅

theorem init_inv : Inv init where
  range := Requests.init_inRange
  keys := by simp [init, Requests.init, InFlight]
  own := by simp [init, InFlight]
  called := by simp [init]
  endCo := by simp [init]
  quiet := by simp [init]

theorem Inv.dispatched (h : s.Inv) (returns : Bool) : (s.dispatched returns).Inv where
  range := by simpa using h.range
  keys := by simpa using h.keys
  own := by simpa using h.own
  called := by simpa using h.called
  endCo := by simpa using h.endCo
  quiet := by
    intro quiet
    simp only [dispatched_closedb, dispatched_invalid, dispatched_req] at quiet ⊢
    cases quiet with
    | inl pending =>
        cases dispatched_wakeup pending with
        | inl old => exact h.quiet (.inl old)
        | inr woken => exact ⟨woken.1, woken.2.1⟩
    | inr closing => exact h.quiet (.inr closing)

theorem setProc_inFlight {c d k : Nat} {p : Proc} (free : ∀ r k, p ≠ .body r k) :
    (s.setProc c p).InFlight d k ↔ d ≠ c ∧ s.InFlight d k := by
  by_cases same : d = c
  · cases same
    simp [InFlight, setProc, free]
  · simp [InFlight, setProc, same]

theorem Inv.setProc (h : s.Inv) {c : Nat} {p : Proc} (idle : ∀ k, ¬ s.InFlight c k)
    (free : ∀ r k, p ≠ .body r k) : (s.setProc c p).Inv := by
  have same : ∀ d k, (s.setProc c p).InFlight d k ↔ s.InFlight d k := by
    intro d k
    rw [setProc_inFlight free]
    refine ⟨fun inFlight => inFlight.2, fun inFlight => ⟨?_, inFlight⟩⟩
    intro eq
    exact idle k (eq ▸ inFlight)
  refine ⟨h.range, ?_, ?_, h.called, h.endCo, h.quiet⟩
  · intro k
    simp only [same]
    exact h.keys k
  · simpa only [same] using h.own

theorem enter_inFlight {c d k : Nat} {r : Request} :
    (s.enter c r).InFlight d k ↔
      (d = c ∧ k = s.req.getReqIndex.1) ∨ (d ≠ c ∧ s.InFlight d k) := by
  by_cases same : d = c
  · cases same
    simp [InFlight, enter, setProc, Requests.enter, eq_comm]
  · simp [InFlight, enter, setProc, same]

theorem Inv.enter (h : s.Inv) {c : Nat} {r : Request} (valid : s.invalid = false)
    (idle : ∀ k, ¬ s.InFlight c k) : (s.enter c r).Inv := by
  have fresh := Requests.getReqIndex_fresh s.req h.range
  have unused : ∀ d, ¬ s.InFlight d s.req.getReqIndex.1 := by
    intro d inFlight
    exact fresh.unused ((h.keys _).mpr ⟨d, inFlight⟩)
  refine ⟨Requests.enter_inRange h.range, ?_, ?_, h.called, h.endCo, ?_⟩
  · intro k
    change k ∈ insert s.req.getReqIndex.1 s.req.getReqIndex.2.reqTbl ↔ _
    rw [Finset.mem_insert, fresh.table, h.keys]
    simp only [enter_inFlight]
    constructor
    · intro taken
      cases taken with
      | inl new => exact ⟨c, .inl ⟨rfl, new⟩⟩
      | inr old =>
          cases old with
          | intro d inFlight =>
              refine ⟨d, .inr ⟨?_, inFlight⟩⟩
              intro eq
              exact idle k (eq ▸ inFlight)
    · intro taken
      cases taken with
      | intro d taken =>
          cases taken with
          | inl new => exact .inl new.2
          | inr old => exact .inr ⟨d, old.2⟩
  · intro d d' k first second
    rw [enter_inFlight] at first second
    cases first with
    | inl new =>
        cases second with
        | inl new' => exact new.1.trans new'.1.symm
        | inr old => exact absurd (new.2 ▸ old.2) (unused d')
    | inr old =>
        cases second with
        | inl new => exact absurd (new.2 ▸ old.2) (unused d)
        | inr old' => exact h.own d d' k old.2 old'.2
  · intro quiet
    have invalid := (h.quiet quiet).1
    rw [valid] at invalid
    cases invalid

theorem leave_inFlight {c d j k : Nat} {p : Proc} (free : ∀ r k, p ≠ .body r k) :
    (s.leave c j p).InFlight d k ↔ d ≠ c ∧ s.InFlight d k :=
  setProc_inFlight free

/-- A completion clears its own slot. -/
theorem Inv.mem_leave_iff (h : s.Inv) {c k : Nat} {p : Proc} (body : s.InFlight c k)
    (free : ∀ r k, p ≠ .body r k) (j : Nat) :
    j ∈ (s.leave c k p).req.reqTbl ↔ ∃ d, (s.leave c k p).InFlight d j := by
  change j ∈ s.req.reqTbl.erase k ↔ _
  rw [Finset.mem_erase, h.keys]
  simp only [leave_inFlight free]
  constructor
  · intro other
    cases other.2 with
    | intro d inFlight =>
        refine ⟨d, ?_, inFlight⟩
        intro eq
        cases eq
        cases inFlight with
        | intro r running =>
            cases body with
            | intro q own =>
                cases running.symm.trans own
                exact other.1 rfl
  · intro other
    cases other with
    | intro d other =>
        refine ⟨?_, d, other.2⟩
        intro eq
        exact other.1 (h.own d c k (eq ▸ other.2) body)

theorem Inv.leave (h : s.Inv) {c k : Nat} {p : Proc} (body : s.InFlight c k)
    (free : ∀ r k, p ≠ .body r k) : (s.leave c k p).Inv := by
  refine ⟨Requests.leave_inRange h.range k, h.mem_leave_iff body free, ?_, h.called, h.endCo, ?_⟩
  · intro d d' j first second
    rw [leave_inFlight free] at first second
    exact h.own d d' j first.2 second.2
  · intro quiet
    have before := h.quiet quiet
    refine ⟨before.1, ?_⟩
    change s.req.reqTbl.erase k = ∅
    rw [before.2]
    rfl

theorem Inv.step {e : Event} (h : s.Inv) (moves : s.Moves e s') : s'.Inv := by
  cases moves with
  | checked e returns => exact h.dispatched returns
  | moved e c p idle free => exact h.setProc idle free
  | entered e c r valid idle => exact h.enter valid idle
  | finished c r k p returns body free => exact (h.leave ⟨r, body⟩ free).dispatched _
  | called valid =>
      refine ⟨h.range, h.keys, h.own, by simp, by simp, ?_⟩
      intro quiet
      simp only [reduceCtorEq, or_false] at quiet
      exact ⟨rfl, (h.quiet (.inl quiet)).2⟩
  | starts querying empty =>
      have invalid := h.called (by rw [querying]; simp)
      exact ⟨h.range, h.keys, h.own, fun _ => invalid, by simp, fun _ => ⟨invalid, empty⟩⟩
  | waits querying taken =>
      have invalid := h.called (by rw [querying]; simp)
      refine ⟨h.range, h.keys, h.own, fun _ => invalid, fun _ => rfl, ?_⟩
      intro quiet
      simp only [reduceCtorEq, or_false] at quiet
      exact h.quiet (.inl quiet)
  | wakes waiting pending =>
      have before := h.quiet (.inl pending)
      exact ⟨h.range, h.keys, h.own, fun _ => before.1, by simp, fun _ => before⟩
  | flushed returns closing =>
      have before := h.quiet (.inr (.inl closing))
      apply Inv.dispatched
      exact ⟨h.range, h.keys, h.own, fun _ => before.1, by simp, fun _ => before⟩

end State

theorem reach_inv {trace : List (Event × Unit)} {s : State} (reach : machine.Reach trace s) :
    s.Inv := by
  apply reach.invariant fun _ s => s.Inv
  · exact State.init_inv
  · intro trace s e s' o h hstep
    exact h.step (State.step_moves hstep)

/-- The bracket around a state: slots and requests in flight correspond, and
the next step keeps every slot that is not its own, starts no request once
`Invalid` is set, and reaches `CloseAllCache` only when no body is running. -/
structure Exact (s : State) : Prop where
  keys : ∀ k, k ∈ s.req.reqTbl ↔ ∃ c, s.InFlight c k
  own : ∀ c d k, s.InFlight c k → s.InFlight d k → c = d
  slot : ∀ c j k, s.InFlight c j → s.InFlight c k → j = k
  completion : ∀ c returns s' o, machine.step s (.finish c returns) = some (s', o) →
    (∀ k, ¬ s'.InFlight c k) ∧
    ∀ d k, d ≠ c → s.InFlight d k → s'.InFlight d k ∧ k ∈ s'.req.reqTbl
  noEntry : ∀ e s' o, machine.step s e = some (s', o) → s.invalid = true →
    s'.invalid = true ∧ s'.req.reqTbl ⊆ s.req.reqTbl ∧
    ∀ c k, s'.InFlight c k → s.InFlight c k
  flush : s.closedb = .closing → s.req.reqTbl = ∅ ∧ ∀ c k, ¬ s.InFlight c k

namespace State
variable {s s' : State}

theorem Inv.completion (h : s.Inv) {c : Nat} {returns : Bool} {o : Unit}
    (hstep : s.step (.finish c returns) = some (s', o)) :
    (∀ k, ¬ s'.InFlight c k) ∧
    ∀ d k, d ≠ c → s.InFlight d k → s'.InFlight d k ∧ k ∈ s'.req.reqTbl := by
  obtain ⟨r, k, p, body, free, rfl⟩ := step_finish hstep
  simp only [dispatched_inFlight, dispatched_req]
  constructor
  · intro j inFlight
    exact ((leave_inFlight free).mp inFlight).1 rfl
  · intro d j other inFlight
    have kept : (s.leave c k p).InFlight d j := (leave_inFlight free).mpr ⟨other, inFlight⟩
    exact ⟨kept, (h.mem_leave_iff ⟨r, body⟩ free j).mpr ⟨d, kept⟩⟩

theorem Moves.inFlight {e : Event} (moves : s.Moves e s') (invalid : s.invalid = true)
    {c k : Nat} (inFlight : s'.InFlight c k) : s.InFlight c k := by
  cases moves with
  | checked e returns => exact (dispatched_inFlight returns c k).mp inFlight
  | moved e d p idle free => exact ((setProc_inFlight free).mp inFlight).2
  | entered e d r valid idle => cases valid.symm.trans invalid
  | finished d r j p returns body free =>
      rw [dispatched_inFlight, leave_inFlight free] at inFlight
      exact inFlight.2
  | called valid => exact inFlight
  | starts querying empty => exact inFlight
  | waits querying taken => exact inFlight
  | wakes waiting pending => exact inFlight
  | flushed returns closing =>
      rw [dispatched_inFlight] at inFlight
      exact inFlight

theorem Moves.invalid {e : Event} (moves : s.Moves e s') (invalid : s.invalid = true) :
    s'.invalid = true := by
  cases moves with
  | checked e returns => simpa using invalid
  | moved e d p idle free => exact invalid
  | entered e d r valid idle => exact invalid
  | finished d r j p returns body free =>
      rw [dispatched_invalid]
      exact invalid
  | called valid => rfl
  | starts querying empty => exact invalid
  | waits querying taken => exact invalid
  | wakes waiting pending => exact invalid
  | flushed returns closing => simpa using invalid

theorem Inv.noEntry (h : s.Inv) {e : Event} (moves : s.Moves e s')
    (invalid : s.invalid = true) : s'.req.reqTbl ⊆ s.req.reqTbl := by
  intro k taken
  cases ((h.step moves).keys k).mp taken with
  | intro c inFlight => exact (h.keys k).mpr ⟨c, moves.inFlight invalid inFlight⟩

theorem Inv.not_inFlight (h : s.Inv) (empty : s.req.reqTbl = ∅) (c k : Nat) :
    ¬ s.InFlight c k := by
  intro inFlight
  have taken := (h.keys k).mpr ⟨c, inFlight⟩
  rw [empty] at taken
  cases taken

end State

theorem inFlight_unique {s : State} {c j k : Nat} (first : s.InFlight c j)
    (second : s.InFlight c k) : j = k := by
  cases first with
  | intro r body =>
      cases second with
      | intro q same =>
          cases body.symm.trans same
          rfl

theorem reach_exact {trace : List (Event × Unit)} {s : State} (reach : machine.Reach trace s) :
    Exact s where
  keys := (reach_inv reach).keys
  own := (reach_inv reach).own
  slot := fun _ _ _ => inFlight_unique
  completion := fun _ _ _ _ hstep => (reach_inv reach).completion hstep
  noEntry := by
    intro e s' o hstep invalid
    have moves := State.step_moves hstep
    refine ⟨moves.invalid invalid, (reach_inv reach).noEntry moves invalid, ?_⟩
    intro c k inFlight
    exact moves.inFlight invalid inFlight
  flush := by
    intro closing
    have quiet := (reach_inv reach).quiet (.inr (.inl closing))
    exact ⟨quiet.2, (reach_inv reach).not_inFlight quiet.2⟩

/-- `mod_getdata` and a save of the timer are in flight when `closedb` is
called; the save finishes first, `mod_getdata` wakes `closedb`. -/
def closedbWoken : List Event :=
  [.message 0 .modGetdata, .timerStart 1, .save 1 .realModSetdataPtrq, .closedb, .queried,
    .finish 1 true, .finish 0 true, .wake]

theorem reach_exact_closedbWoken :
    ∃ s, machine.exec machine.init closedbWoken = some s ∧ s.closedb = .closing ∧ Exact s := by
  have run : ∃ s, machine.exec machine.init closedbWoken = some s ∧ s.closedb = .closing :=
    ⟨_, rfl, rfl⟩
  obtain ⟨s, run, closing⟩ := run
  obtain ⟨trace, reach⟩ := Machine.Reach.init.exec run
  exact ⟨s, run, closing, reach_exact reach⟩

/-- `closedb` waits, no request is in flight and no wakeup is pending. -/
structure Stranded (s : State) : Prop where
  waiting : s.closedb = .waiting
  endCo : s.endCo = true
  empty : s.req.reqTbl = ∅
  wakeup : s.wakeup = false

/-- No coroutine is left that could still wake `closedb`. -/
structure Stuck (s : State) : Prop extends Stranded s where
  idle : ∀ c, s.procs c = .idle

/-- A request that empties `ReqTbl` while `closedb` waits was dispatched by a
message, and its handler returns. -/
def wakes (s : State) : Event → Bool
  | .finish c returns =>
      match s.procs c with
      | .body r nowIndex =>
          if s.closedb = .waiting ∧ s.req.reqTbl.erase nowIndex = ∅ then r.isMessage && returns
          else true
      | _ => true
  | _ => true

namespace State
variable {s s' : State}

/-- While `closedb` waits, a request is in flight or the wakeup is pending. -/
def Awaited (s : State) : Prop :=
  s.closedb = .waiting → s.req.reqTbl ≠ ∅ ∨ s.wakeup = true

theorem Awaited.dispatched (h : s.Awaited) (returns : Bool) : (s.dispatched returns).Awaited := by
  intro waiting
  rw [dispatched_closedb] at waiting
  rw [dispatched_req]
  cases h waiting with
  | inl taken => exact .inl taken
  | inr pending =>
      right
      cases returns with
      | false => exact pending
      | true => simp [State.dispatched, checkEnd, pending]

theorem checkEnd_wakeup (waiting : s.closedb = .waiting) (invalid : s.invalid = true)
    (endCo : s.endCo = true) (empty : s.req.reqTbl = ∅) : s.checkEnd.wakeup = true := by
  simp [checkEnd, waiting, invalid, endCo, Requests.isEmptyReqTbl, empty]

theorem Inv.awaited_finished (inv : s.Inv) {c k : Nat} {r : Request} {p : Proc}
    {returns : Bool} (body : s.procs c = .body r k) (ok : wakes s (.finish c returns) = true) :
    ((s.leave c k p).dispatched (r.isMessage && returns)).Awaited := by
  intro waiting
  rw [dispatched_closedb] at waiting
  rw [dispatched_req]
  by_cases empty : s.req.reqTbl.erase k = ∅
  · right
    have message : (r.isMessage && returns) = true := by
      simp only [wakes, body] at ok
      rw [if_pos ⟨waiting, empty⟩] at ok
      exact ok
    rw [message]
    exact checkEnd_wakeup waiting (inv.called (by rw [show s.closedb = _ from waiting]; simp))
      (inv.endCo waiting) empty
  · exact .inl empty

theorem Awaited.step {e : Event} (inv : s.Inv) (h : s.Awaited) (ok : wakes s e = true)
    (moves : s.Moves e s') : s'.Awaited := by
  cases moves with
  | checked e returns => exact h.dispatched returns
  | moved e c p idle free => exact h
  | entered e c r valid idle => exact fun _ => .inl (Finset.insert_ne_empty _ _)
  | finished c r k p returns body free => exact inv.awaited_finished body ok
  | called valid => exact fun waiting => by cases waiting
  | starts querying empty => exact fun waiting => by cases waiting
  | waits querying taken => exact fun _ => .inl taken
  | wakes waiting pending => exact fun waiting => by cases waiting
  | flushed returns closing =>
      intro waiting
      rw [dispatched_closedb] at waiting
      cases waiting

theorem Inv.strands (inv : s.Inv) {e : Event} {o : Unit} (hstep : s.step e = some (s', o))
    (broken : wakes s e = false) : Stranded s' := by
  cases e with
  | finish c returns =>
      obtain ⟨r, k, p, body, free, rfl⟩ := step_finish hstep
      simp only [wakes, body] at broken
      split at broken
      · rename_i last
        have taken : k ∈ s.req.reqTbl := (inv.keys k).mpr ⟨c, r, body⟩
        rw [broken]
        refine ⟨last.1, inv.endCo last.1, last.2, ?_⟩
        apply Bool.eq_false_of_not_eq_true
        intro pending
        have empty := (inv.quiet (.inl pending)).2
        rw [empty] at taken
        cases taken
      · cases broken
  | _ => cases broken

def IdleFrom (s : State) (n : Nat) : Prop := ∀ c, n ≤ c → s.procs c = .idle

theorem setProc_idleFrom {n : Nat} (h : s.IdleFrom n) (c : Nat) (p : Proc) :
    ∃ n, (s.setProc c p).IdleFrom n := by
  refine ⟨max n (c + 1), ?_⟩
  intro d above
  have other : d ≠ c := by omega
  change Function.update s.procs c p d = .idle
  rw [Function.update_of_ne other]
  exact h d (by omega)

theorem Moves.idleFrom {e : Event} (moves : s.Moves e s') {n : Nat} (h : s.IdleFrom n) :
    ∃ n, s'.IdleFrom n := by
  cases moves with
  | checked e returns => exact ⟨n, by simpa [IdleFrom] using h⟩
  | moved e c p idle free => exact setProc_idleFrom h c p
  | entered e c r valid idle => exact setProc_idleFrom h c _
  | finished c r k p returns body free =>
      cases setProc_idleFrom h c p with
      | intro n after =>
          refine ⟨n, ?_⟩
          intro d above
          rw [dispatched_procs]
          exact after d above
  | called valid => exact ⟨n, h⟩
  | starts querying empty => exact ⟨n, h⟩
  | waits querying taken => exact ⟨n, h⟩
  | wakes waiting pending => exact ⟨n, h⟩
  | flushed returns closing => exact ⟨n, by simpa [IdleFrom] using h⟩

/-- The timers left end one by one; none of them wakes `closedb`. -/
theorem stuck_of_stranded {n : Nat} (h : Stranded s) (bodies : ∀ c k, ¬ s.InFlight c k)
    (above : s.IdleFrom n) : ∃ events t, machine.exec s events = some t ∧ Stuck t := by
  induction n generalizing s with
  | zero => exact ⟨[], s, rfl, h, fun c => above c (Nat.zero_le c)⟩
  | succ n ih =>
      cases proc : s.procs n with
      | idle =>
          apply ih h bodies
          intro c le
          cases Nat.eq_or_lt_of_le le with
          | inl eq => rw [← eq, proc]
          | inr lt => exact above c lt
      | timer =>
          have ended : machine.step s (.timerEnd n) = some (s.setProc n .idle, ()) := by
            simp [machine, step, proc]
          have free : ∀ r k, Proc.idle ≠ .body r k := by simp
          obtain ⟨events, t, run, stuck⟩ := ih (s := s.setProc n .idle)
            ⟨h.waiting, h.endCo, h.empty, h.wakeup⟩
            (fun c k inFlight => bodies c k ((setProc_inFlight free).mp inFlight).2) (by
              intro c le
              change Function.update s.procs n .idle c = .idle
              by_cases eq : c = n
              · rw [eq, Function.update_self]
              · rw [Function.update_of_ne eq]
                exact above c (by omega))
          refine ⟨.timerEnd n :: events, t, ?_, stuck⟩
          rw [Machine.exec, ended]
          exact run
      | body r k => exact absurd ⟨r, proc⟩ (bodies n k)

end State

theorem closedb_not_stuck {trace : List (Event × Unit)} {s : State}
    (reach : (machine.guard wakes).Reach trace s) : ¬ Stuck s := by
  have inv : s.Inv ∧ s.Awaited := by
    apply reach.invariant fun _ s => s.Inv ∧ s.Awaited
    · exact ⟨State.init_inv, fun waiting => by cases waiting⟩
    · intro trace s e s' o h hstep
      have step := Machine.guard_step hstep
      have moves := State.step_moves step.2
      exact ⟨h.1.step moves, h.2.step h.1 step.1 moves⟩
  intro stuck
  cases inv.2 stuck.waiting with
  | inl taken => exact taken stuck.empty
  | inr pending => cases pending.symm.trans stuck.wakeup

theorem closedb_not_stuck_closedbWoken :
    ∃ s, (machine.guard wakes).exec machine.init closedbWoken = some s ∧
      s.closedb = .closing ∧ ¬ Stuck s := by
  have run : ∃ s, (machine.guard wakes).exec machine.init closedbWoken = some s ∧
      s.closedb = .closing := ⟨_, rfl, rfl⟩
  obtain ⟨s, run, closing⟩ := run
  obtain ⟨trace, reach⟩ := Machine.Reach.init.exec run
  exact ⟨s, run, closing, closedb_not_stuck reach⟩

theorem reach_idleFrom {trace : List (Event × Unit)} {s : State}
    (reach : machine.Reach trace s) : ∃ n, s.IdleFrom n := by
  apply reach.invariant fun _ s => ∃ n, s.IdleFrom n
  · exact ⟨0, fun _ _ => rfl⟩
  · intro trace s e s' o h hstep
    cases h with
    | intro n above => exact (State.step_moves hstep).idleFrom above

/-- A step that breaks the condition may end in a stuck `closedb`. -/
theorem stuck_of_not_wakes {trace : List (Event × Unit)} {s s' : State} {e : Event} {o : Unit}
    (reach : machine.Reach trace s) (hstep : machine.step s e = some (s', o))
    (broken : wakes s e = false) : ∃ events t, machine.exec s' events = some t ∧ Stuck t := by
  have inv := reach_inv reach
  have stranded := inv.strands hstep broken
  have after := reach_inv (reach.next hstep)
  cases reach_idleFrom (reach.next hstep) with
  | intro n above =>
      apply State.stuck_of_stranded stranded _ above
      exact after.not_inFlight stranded.empty

/-- A save of the timer is the last request in flight. -/
def closedbStuck : List Event :=
  [.timerStart 0, .save 0 .realModSetdataPtrq, .closedb, .queried, .finish 0 true, .timerEnd 0]

theorem closedb_stuck_timer_last :
    ∃ trace s, machine.Reach trace s ∧ Stuck s := by
  have run : ∃ s, machine.exec machine.init closedbStuck = some s ∧ Stuck s := by
    refine ⟨_, rfl, ⟨rfl, rfl, rfl, rfl⟩, ?_⟩
    intro c
    cases c with
    | zero => rfl
    | succ c => rfl
  obtain ⟨s, run, stuck⟩ := run
  obtain ⟨trace, reach⟩ := Machine.Reach.init.exec run
  exact ⟨trace, s, reach, stuck⟩

end Bracket

end Qiuqiu.Database
