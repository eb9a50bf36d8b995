import Qiuqiu.Logind.Online

/-!
`Accept` of service/logind/masterfunc.lua around `login_handler`. With
multilogin off it locks the account in `acct_login`; the place of the unlock
is a comment. An account is locked out by its first `login_handler`, however
that ends.
-/
namespace Qiuqiu.Logind.Accept
variable {Urs Uid Name : Type} [DecidableEq Urs] [DecidableEq Name]

/-- What the slave answers to `auth`. -/
inductive Auth (Urs Uid : Type) where
  | ok (urs : Urs) (uid : Uid)
  | socketError
  | refused

inductive Coroutine (Urs : Type) where
  | idle
  | auth
  | inside (urs : Urs)

structure System (Urs Uid Name : Type) [DecidableEq Urs] [DecidableEq Name] where
  master : State Urs Uid Name
  accepts : Nat → Coroutine Urs

inductive Event (Urs Uid Name : Type) where
  | accept (c : Nat)
  | authed (c : Nat) (answer : Auth Urs Uid) (order : List Name)
  | authRaises (c : Nat)
  | master (e : Logind.Event Urs Uid Name)

inductive Output (Urs Uid Name : Type) where
  | closes
  | calls
  | refused
  | raises
  | alreadyLogin (urs : Urs)
  | master (o : Logind.Output Urs Uid Name)
  /-- `login_handler` has returned or raised: `Accept` ends. -/
  | ended (urs : Urs) (o : Logind.Output Urs Uid Name)

namespace System
variable (s : System Urs Uid Name)

def setAccept (c : Nat) (co : Coroutine Urs) : System Urs Uid Name :=
  { s with accepts := Function.update s.accepts c co }

def alreadyLogin (urs : Urs) : Bool := (s.master.acctLogin urs).isSome

def lock (urs : Urs) : System Urs Uid Name :=
  { s with master := { s.master with
    acctLogin := Function.update s.master.acctLogin urs (some .locked) } }

/-- `login_handler` runs in the coroutine `c` of an `Accept`; when it is through,
so is `Accept`. -/
def inside (c : Nat) (urs : Urs) (e : Logind.Event Urs Uid Name) :
    Option (System Urs Uid Name × Output Urs Uid Name) :=
  match s.master.step e with
  | some (master, o) =>
      match master.coroutines c with
      | .idle => some ({ s with master := master }.setAccept c .idle, .ended urs o)
      | _ => some ({ s with master := master }.setAccept c (.inside urs), .master o)
  | none => none

/-- A step of the master in the coroutine `c`. -/
def run (c : Nat) (e : Logind.Event Urs Uid Name) :
    Option (System Urs Uid Name × Output Urs Uid Name) :=
  match s.accepts c with
  | .idle => (s.master.step e).map fun answer => ({ s with master := answer.1 }, .master answer.2)
  | .auth => none
  | .inside urs => s.inside c urs e

def authed (multilogin : Bool) (c : Nat) (order : List Name) :
    Auth Urs Uid → Option (System Urs Uid Name × Output Urs Uid Name)
  | .socketError => some (s.setAccept c .idle, .raises)
  | .refused => some (s.setAccept c .idle, .refused)
  | .ok urs uid =>
      if multilogin then s.inside c urs (.loginHandler c urs uid order)
      else if s.alreadyLogin urs then some (s.setAccept c .idle, .alreadyLogin urs)
      else (s.lock urs).inside c urs (.loginHandler c urs uid order)

def step (multilogin : Bool) : Event Urs Uid Name →
    Option (System Urs Uid Name × Output Urs Uid Name)
  | .accept c =>
      match s.accepts c, s.master.coroutines c with
      | .idle, .idle =>
          if s.master.isShuntdown then some (s, .closes)
          else if s.master.serverList.keys = [] then some (s, .closes)
          else some (s.setAccept c .auth, .calls)
      | _, _ => none
  | .authed c answer order =>
      match s.accepts c with
      | .auth => s.authed multilogin c order answer
      | _ => none
  | .authRaises c =>
      match s.accepts c with
      | .auth => some (s.setAccept c .idle, .raises)
      | _ => none
  | .master e =>
      if e.isLogin then none
      else
        match e.coroutine with
        | some c => s.run c e
        | none =>
            (s.master.step e).map fun answer => ({ s with master := answer.1 }, .master answer.2)

end System

def machine (multilogin : Bool) :
    Machine (System Urs Uid Name) (Event Urs Uid Name) (Output Urs Uid Name) where
  init := ⟨Logind.machine.init, fun _ => .idle⟩
  step := fun s e => s.step multilogin e

def Output.leaves (urs : Urs) : Output Urs Uid Name → Bool
  | .ended urs' _ => urs' = urs
  | _ => false

/-- An `Accept` for the account has left `login_handler`. -/
def left (trace : List (Event Urs Uid Name × Output Urs Uid Name)) (urs : Urs) : Bool :=
  trace.any fun x => x.2.leaves urs

omit [DecidableEq Name] in
theorem left_concat (trace : List (Event Urs Uid Name × Output Urs Uid Name))
    (e : Event Urs Uid Name) (o : Output Urs Uid Name) (urs : Urs) :
    left (trace ++ [(e, o)]) urs = (left trace urs || o.leaves urs) := by
  simp [left]

/-- The lock of an account: free, held by the `Accept` inside, or kept by one
that has left. -/
inductive Lock (s : System Urs Uid Name) (urs : Urs) : Bool → Prop
  | free : s.alreadyLogin urs = false → (∀ c, s.accepts c ≠ .inside urs) → Lock s urs false
  | held (c) : s.alreadyLogin urs = true → s.accepts c = .inside urs →
      (∀ c', s.accepts c' = .inside urs → c' = c) → Lock s urs false
  | kept : s.alreadyLogin urs = true → (∀ c, s.accepts c ≠ .inside urs) → Lock s urs true

theorem Lock.of_same {s s' : System Urs Uid Name} {urs : Urs} {left : Bool}
    (lock : Lock s urs left) (locked : s'.alreadyLogin urs = s.alreadyLogin urs)
    (inside : ∀ c, s'.accepts c = .inside urs ↔ s.accepts c = .inside urs) : Lock s' urs left := by
  cases lock with
  | free unlocked nobody =>
      exact .free (by rw [locked, unlocked]) fun c here => nobody c ((inside c).1 here)
  | held c busy here alone =>
      exact .held c (by rw [locked, busy]) ((inside c).2 here)
        fun c' here' => alone c' ((inside c').1 here')
  | kept busy nobody =>
      exact .kept (by rw [locked, busy]) fun c here => nobody c ((inside c).1 here)

theorem Lock.locked {s : System Urs Uid Name} {urs : Urs} {left : Bool} {c : Nat}
    (lock : Lock s urs left) (here : s.accepts c = .inside urs) :
    left = false ∧ s.alreadyLogin urs = true ∧ ∀ c', s.accepts c' = .inside urs → c' = c := by
  cases lock with
  | free _ nobody => exact absurd here (nobody c)
  | held c' busy _ alone =>
      cases alone c here
      exact ⟨rfl, busy, alone⟩
  | kept _ nobody => exact absurd here (nobody c)

structure Sane (s : System Urs Uid Name) (left : Urs → Bool) : Prop where
  nobody : s.master.NobodyOnline
  inside : ∀ c usr, (s.master.coroutines c).login = some usr → s.accepts c = .inside usr
  lock : ∀ urs, Lock s urs (left urs)

namespace System
variable {s s' : System Urs Uid Name}

theorem inside_cases {c : Nat} {urs : Urs} {e : Logind.Event Urs Uid Name}
    {o : Output Urs Uid Name} (step : s.inside c urs e = some (s', o)) :
    ∃ master o', s.master.step e = some (master, o') ∧
      (master.coroutines c = .idle ∧ s' = { s with master := master }.setAccept c .idle ∧
          o = .ended urs o' ∨
        s' = { s with master := master }.setAccept c (.inside urs) ∧ o = .master o') := by
  simp only [inside] at step
  split at step
  · rename_i master o' moved
    split at step
    · rename_i idle
      cases step
      exact ⟨master, o', moved, .inl ⟨idle, rfl, rfl⟩⟩
    · cases step
      exact ⟨master, o', moved, .inr ⟨rfl, rfl⟩⟩
  · cases step

theorem setAccept_self (s : System Urs Uid Name) (c : Nat) (co : Coroutine Urs) :
    (s.setAccept c co).accepts c = co := Function.update_self _ _ _

theorem setAccept_of_ne (s : System Urs Uid Name) {c c' : Nat} (ne : c' ≠ c) (co : Coroutine Urs) :
    (s.setAccept c co).accepts c' = s.accepts c' := Function.update_of_ne ne _ _

/-- Who is inside for another account is inside as before. -/
theorem setAccept_inside {c c' : Nat} {co : Coroutine Urs} {urs : Urs}
    (before : s.accepts c ≠ .inside urs) (after : co ≠ .inside urs) :
    (s.setAccept c co).accepts c' = .inside urs ↔ s.accepts c' = .inside urs := by
  by_cases same : c' = c
  · subst same
    rw [setAccept_self]
    exact ⟨fun here => absurd here after, fun here => absurd here before⟩
  · rw [setAccept_of_ne s same]

theorem eq_or_inside_of_setAccept {c c' : Nat} {co : Coroutine Urs} {urs : Urs}
    (here : (s.setAccept c co).accepts c' = .inside urs) :
    c' = c ∧ co = .inside urs ∨ s.accepts c' = .inside urs := by
  by_cases same : c' = c
  · rw [same, setAccept_self] at here
    exact .inl ⟨same, here⟩
  · rw [setAccept_of_ne s same] at here
    exact .inr here

/-- A step of the master locks no account. -/
theorem alreadyLogin_of_change {master : State Urs Uid Name} {e : Logind.Event Urs Uid Name}
    {o : Logind.Output Urs Uid Name} (change : Change s.master e o master)
    (locked : ∀ c usr, (s.master.coroutines c).login = some usr → s.alreadyLogin usr = true)
    (urs : Urs) : (master.acctLogin urs).isSome = s.alreadyLogin urs := by
  cases change.acctLogin urs with
  | inl same => rw [same]; rfl
  | inr written =>
      obtain ⟨some, c, login⟩ := written
      rw [some, locked c urs login]

/-- A step of `login_handler` for the account `urs` in the coroutine `c`. -/
theorem sane_of_inside {left : Urs → Bool} {c : Nat} {urs : Urs} {e : Logind.Event Urs Uid Name}
    {o : Output Urs Uid Name} (nobody : s.master.NobodyOnline)
    (inside : ∀ c usr, (s.master.coroutines c).login = some usr → s.accepts c = .inside usr)
    (busy : s.alreadyLogin urs = true) (alone : ∀ c', s.accepts c' = .inside urs → c' = c)
    (own : ∀ usr, s.accepts c = .inside usr → usr = urs) (fresh : left urs = false)
    (others : ∀ urs', urs' ≠ urs → Lock s urs' (left urs'))
    (logins : ∀ master o', s.master.step e = some (master, o') → ∀ c' usr',
      (master.coroutines c').login = some usr' →
      c' = c ∧ usr' = urs ∨ (s.master.coroutines c').login = some usr')
    (step : s.inside c urs e = some (s', o)) : Sane s' fun urs => left urs || o.leaves urs := by
  obtain ⟨master, o', moved, after⟩ := inside_cases step
  obtain ⟨change, nobody'⟩ := nobody.step moved
  have locked : ∀ urs', (master.acctLogin urs').isSome = s.alreadyLogin urs' := by
    refine alreadyLogin_of_change change ?_
    intro c' usr login
    have here := inside c' usr login
    by_cases same : usr = urs
    · rw [same, busy]
    · exact ((others usr same).locked here).2.1
  have foreign : ∀ (co : Coroutine Urs), (∀ usr, co = .inside usr → usr = urs) →
      ∀ urs', urs' ≠ urs → ∀ c', ({ s with master := master }.setAccept c co).accepts c' =
        .inside urs' ↔ s.accepts c' = .inside urs' := by
    intro co only urs' ne c'
    apply setAccept_inside
    · exact fun here => ne (own urs' here)
    · exact fun here => ne (only urs' here)
  cases after with
  | inl ended =>
      obtain ⟨idle, rfl, rfl⟩ := ended
      refine ⟨nobody', ?_, ?_⟩
      · intro c' usr' login
        have ne : c' ≠ c := by
          rintro rfl
          change (master.coroutines c').login = some usr' at login
          rw [idle] at login
          cases login
        rw [setAccept_of_ne _ ne]
        exact inside c' usr' ((logins master o' moved c' usr' login).resolve_left fun h => ne h.1)
      · intro urs'
        by_cases same : urs' = urs
        · subst same
          rw [show (Output.ended urs' o' : Output Urs Uid Name).leaves urs' = true by
            simp [Output.leaves], Bool.or_true]
          refine .kept ((locked urs').trans busy) ?_
          intro c' here
          cases eq_or_inside_of_setAccept here with
          | inl ended => cases ended.2
          | inr still =>
              rw [alone c' still, setAccept_self] at here
              cases here
        · rw [show (Output.ended urs o' : Output Urs Uid Name).leaves urs' = false by
            simp [Output.leaves, Ne.symm same], Bool.or_false]
          exact (others urs' same).of_same (locked urs') (foreign .idle (by simp) urs' same)
  | inr still =>
      obtain ⟨rfl, rfl⟩ := still
      refine ⟨nobody', ?_, ?_⟩
      · intro c' usr' login
        by_cases eq : c' = c
        · subst eq
          rw [setAccept_self]
          cases logins master o' moved c' usr' login with
          | inl here => rw [here.2]
          | inr old => rw [own usr' (inside c' usr' old)]
        · rw [setAccept_of_ne _ eq]
          exact inside c' usr' ((logins master o' moved c' usr' login).resolve_left fun h => eq h.1)
      · intro urs'
        change Lock _ urs' (left urs' || false)
        rw [Bool.or_false]
        by_cases same : urs' = urs
        · subst same
          rw [fresh]
          refine .held c ((locked urs').trans busy) (setAccept_self _ _ _) ?_
          intro c' here
          cases eq_or_inside_of_setAccept here with
          | inl entered => exact entered.1
          | inr still => exact alone c' still
        · exact (others urs' same).of_same (locked urs') (foreign _ (by simp) urs' same)

/-- An `Accept` outside of `login_handler` goes on or ends. -/
theorem sane_of_outside {left : Urs → Bool} (sane : Sane s left) {c : Nat} {co : Coroutine Urs}
    (before : ∀ urs, s.accepts c ≠ .inside urs) (after : ∀ urs, co ≠ .inside urs) :
    Sane (s.setAccept c co) left where
  nobody := sane.nobody
  inside := by
    intro c' usr login
    have here := sane.inside c' usr login
    have ne : c' ≠ c := by
      rintro rfl
      exact before usr here
    rw [setAccept_of_ne _ ne, here]
  lock := by
    intro urs
    exact (sane.lock urs).of_same rfl fun c' => setAccept_inside (before urs) (after urs)

/-- A step of the master that is none of `login_handler`. -/
theorem sane_of_master {left : Urs → Bool} (sane : Sane s left) {e : Logind.Event Urs Uid Name}
    {o : Logind.Output Urs Uid Name} {master : State Urs Uid Name} (plain : e.isLogin = false)
    (moved : s.master.step e = some (master, o)) : Sane { s with master := master } left where
  nobody := (sane.nobody.step moved).2
  inside := fun c usr login => sane.inside c usr (sane.nobody.step_login plain moved login)
  lock := by
    intro urs
    refine (sane.lock urs).of_same (alreadyLogin_of_change (sane.nobody.step moved).1 ?_ urs)
      fun _ => Iff.rfl
    intro c usr login
    exact ((sane.lock usr).locked (sane.inside c usr login)).2.1

theorem sane_authed {left : Urs → Bool} (sane : Sane s left) {c : Nat} {answer : Auth Urs Uid}
    {order : List Name} {o : Output Urs Uid Name} (auth : s.accepts c = .auth)
    (step : s.authed false c order answer = some (s', o)) :
    Sane s' fun urs => left urs || o.leaves urs := by
  have before : ∀ urs, s.accepts c ≠ .inside urs := by simp [auth]
  have ends : ∀ out : Output Urs Uid Name, (∀ urs, out.leaves urs = false) →
      some (s.setAccept c .idle, out) = some (s', o) →
      Sane s' fun urs => left urs || o.leaves urs := by
    intro out none result
    cases result
    simp only [none, Bool.or_false]
    exact sane_of_outside sane before (by simp)
  cases answer with
  | socketError => exact ends _ (fun _ => rfl) step
  | refused => exact ends _ (fun _ => rfl) step
  | ok urs uid =>
      simp only [authed, Bool.false_eq_true, if_false] at step
      split at step
      · exact ends _ (fun _ => rfl) step
      · rename_i unlocked
        have free : (∀ c', s.accepts c' ≠ .inside urs) ∧ left urs = false := by
          have lock := sane.lock urs
          generalize left urs = l at lock ⊢
          cases lock with
          | free _ nobody => exact ⟨nobody, rfl⟩
          | held _ busy _ _ => exact absurd busy unlocked
          | kept busy _ => exact absurd busy unlocked
        have nobody : (s.lock urs).master.NobodyOnline := sane.nobody
        have inside : ∀ c usr, ((s.lock urs).master.coroutines c).login = some usr →
            (s.lock urs).accepts c = .inside usr := sane.inside
        refine sane_of_inside nobody inside ?_ (fun c' here => absurd here (free.1 c'))
          (fun usr here => absurd here (before usr)) free.2 ?_ ?_ step
        · simp [lock, alreadyLogin]
        · intro urs' ne
          refine (sane.lock urs').of_same ?_ fun _ => Iff.rfl
          simp only [lock, alreadyLogin, Function.update_of_ne ne]
        · intro master o' moved c' usr' login
          exact nobody.loginHandler_login moved login

theorem sane_run {left : Urs → Bool} (sane : Sane s left) {c : Nat} {e : Logind.Event Urs Uid Name}
    {o : Output Urs Uid Name} (plain : e.isLogin = false) (step : s.run c e = some (s', o)) :
    Sane s' fun urs => left urs || o.leaves urs := by
  simp only [System.run] at step
  split at step
  · obtain ⟨answer, moved, result⟩ := Option.map_eq_some_iff.1 step
    cases result
    simp only [Output.leaves, Bool.or_false]
    exact sane_of_master sane plain moved
  · cases step
  · rename_i urs here
    obtain ⟨fresh, busy, alone⟩ := (sane.lock urs).locked here
    refine sane_of_inside sane.nobody sane.inside busy alone ?_ fresh (fun urs' _ => sane.lock urs')
      ?_ step
    · intro usr same
      cases here.symm.trans same
      rfl
    · intro master o' moved c' usr' login
      exact .inr (sane.nobody.step_login plain moved login)

theorem sane_step {left : Urs → Bool} (sane : Sane s left) {e : Event Urs Uid Name}
    {o : Output Urs Uid Name} (step : s.step false e = some (s', o)) :
    Sane s' fun urs => left urs || o.leaves urs := by
  cases e with
  | accept c =>
      simp only [System.step] at step
      split at step
      · rename_i idle _
        have silent : ∀ co : Coroutine Urs, (∀ urs, co ≠ .inside urs) →
            Sane (s.setAccept c co) left :=
          fun co after => sane_of_outside sane (by simp [idle]) after
        split at step
        · cases step
          simpa only [Output.leaves, Bool.or_false] using sane
        · split at step
          · cases step
            simpa only [Output.leaves, Bool.or_false] using sane
          · cases step
            simpa only [Output.leaves, Bool.or_false] using silent .auth (by simp)
      · cases step
  | authed c answer order =>
      simp only [System.step] at step
      split at step
      · rename_i auth
        exact sane_authed sane auth step
      · cases step
  | authRaises c =>
      simp only [System.step] at step
      split at step
      · rename_i auth
        cases step
        simp only [Output.leaves, Bool.or_false]
        exact sane_of_outside sane (by simp [auth]) (by simp)
      · cases step
  | master e =>
      simp only [System.step] at step
      split at step
      · cases step
      · rename_i plain
        have plain : e.isLogin = false := by simpa using plain
        split at step
        · exact sane_run sane plain step
        · obtain ⟨answer, moved, result⟩ := Option.map_eq_some_iff.1 step
          cases result
          simp only [Output.leaves, Bool.or_false]
          exact sane_of_master sane plain moved

end System

theorem sane_of_reach {trace : List (Event Urs Uid Name × Output Urs Uid Name)}
    {s : System Urs Uid Name} (reach : (machine false).Reach trace s) : Sane s (left trace) := by
  induction reach with
  | init =>
      refine ⟨rfl, ?_, fun urs => .free rfl fun c here => ?_⟩
      · intro c usr login
        cases login
      · cases here
  | next _ step ih =>
      have after := System.sane_step ih step
      rw [show left _ = _ from funext fun urs => left_concat _ _ _ urs]
      exact after

theorem System.rejected_iff {s s' : System Urs Uid Name} {c : Nat} {urs : Urs} {uid : Uid}
    {order : List Name} {o : Output Urs Uid Name}
    (step : s.step false (.authed c (.ok urs uid) order) = some (s', o)) :
    o = .alreadyLogin urs ↔ s.alreadyLogin urs = true := by
  simp only [System.step] at step
  split at step
  · simp only [authed, Bool.false_eq_true, if_false] at step
    split at step
    · rename_i locked
      cases step
      simp [locked]
    · rename_i unlocked
      obtain ⟨master, o', _, ended | still⟩ := inside_cases step
      · simp [ended.2.2, unlocked]
      · simp [still.2, unlocked]
  · cases step

/-- An `Accept` is rejected exactly while one for its account is inside
`login_handler`, as long as none has left it. -/
theorem rejected_iff_inside_iff {trace : List (Event Urs Uid Name × Output Urs Uid Name)}
    {s s' : System Urs Uid Name} {c : Nat} {urs : Urs} {uid : Uid} {order : List Name}
    {o : Output Urs Uid Name} (reach : (machine false).Reach trace s)
    (step : (machine false).step s (.authed c (.ok urs uid) order) = some (s', o)) :
    (o = .alreadyLogin urs ↔ ∃ c', s.accepts c' = .inside urs) ↔ left trace urs = false := by
  rw [System.rejected_iff step]
  have lock := (sane_of_reach reach).lock urs
  generalize left trace urs = l at lock
  cases lock with
  | free unlocked nobody => simp [unlocked, nobody]
  | held c busy here _ =>
      have inside : ∃ c, s.accepts c = .inside urs := ⟨c, here⟩
      simp [busy, inside]
  | kept busy nobody => simp [busy, nobody]

theorem rejected_while_inside :
    ∃ trace s s', (machine false : Machine (System Nat Nat Nat) _ _).Reach trace s ∧
      (machine false).step s (.authed 1 (.ok 7 2) [0]) = some (s', .alreadyLogin 7) ∧
      ∃ c, s.accepts c = .inside 7 := by
  have run : ∃ s s', (machine false : Machine (System Nat Nat Nat) _ _).Reach
      [(.master (.registerGate 0 ⟨1, "game", "ip", 80, 81, none, none, false⟩), .master .returns),
        (.accept 0, .calls), (.accept 1, .calls),
        (.authed 0 (.ok 7 1) [0], .master (.calls 0 .login))] s ∧
      (machine false).step s (.authed 1 (.ok 7 2) [0]) = some (s', .alreadyLogin 7) :=
    ⟨_, _, .next (.next (.next (.next .init rfl) rfl) rfl) rfl, rfl⟩
  obtain ⟨s, s', reach, step⟩ := run
  exact ⟨_, s, s', reach, step, ((rejected_iff_inside_iff reach step).2 rfl).1 rfl⟩

/-- The second login of an account, after the first one is through. -/
theorem second_login_rejected :
    ¬ ∀ trace (s : System Nat Nat Nat) s' c urs uid order,
      (machine false).Reach trace s →
      (machine false).step s (.authed c (.ok urs uid) order) = some (s', .alreadyLogin urs) →
      ∃ c', s.accepts c' = .inside urs := by
  intro all
  have run : ∃ s s', (machine false : Machine (System Nat Nat Nat) _ _).Reach
      [(.master (.registerGate 0 ⟨1, "game", "ip", 80, 81, none, none, false⟩), .master .returns),
        (.accept 0, .calls), (.authed 0 (.ok 7 1) [0], .master (.calls 0 .login)),
        (.master (.replied 0 1 []), .ended 7 (.loggedIn 7 0 1 "ip" 80 81)), (.accept 1, .calls)] s ∧
      (machine false).step s (.authed 1 (.ok 7 2) [0]) = some (s', .alreadyLogin 7) :=
    ⟨_, _, .next (.next (.next (.next (.next .init rfl) rfl) rfl) rfl) rfl, rfl⟩
  obtain ⟨s, s', reach, step⟩ := run
  have lock : Lock s 7 true := (sane_of_reach reach).lock 7
  obtain ⟨c, here⟩ := all _ s s' 1 7 2 [0] reach step
  cases lock with
  | kept _ nobody => exact nobody c here

end Qiuqiu.Logind.Accept
