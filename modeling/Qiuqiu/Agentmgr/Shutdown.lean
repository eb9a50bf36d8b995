import Mathlib.Data.List.Perm.Basic
import Qiuqiu.Agentmgr.Players

/-!
`PROTO_FUN.shutdown` of service/agentmgr/agentmgr.lua beside the requests. With
more than a hundred players it forks some kicks, sleeps and counts; else it
kicks one player after another in a traversal of the table. A kick is refused
for a player in transition, and the traversal does not come back to him.
-/
namespace Qiuqiu.Agentmgr.Shutdown
variable {Pid : Type} [DecidableEq Pid]

/-- Where `shutdown` stands: in a sleep of the first strategy, in the loop of
the second, or in a kick of that loop. A traversal in which a new key was
assigned is disturbed: what `next` does then is undefined. -/
inductive Progress (Pid : Type) where
  | idle
  | sleeping (playerCount : Nat)
  | quitting (remaining : List Pid) (disturbed : Bool)
  | kicking (c : Nat) (remaining : List Pid) (disturbed : Bool)
  | ended

structure System (Pid : Type) [DecidableEq Pid] where
  mgr : State Pid
  shutdown : Progress Pid
  /-- The players of the forked kicks that have not run. -/
  forked : List Pid

inductive Event (Pid : Type) where
  | mgr (e : Agentmgr.Event Pid)
  | shutdown (order : List Pid)
  | forkRuns (c : Nat)
  | wake (order : List Pid)
  | visit (c : Nat) (playerid : Pid)
  | loopEnd
  | loopRaises

inductive Output (Pid : Type) where
  | mgr (o : Agentmgr.Output Pid)
  | goesOn
  | returnsTrue
  | raises

def quitPlayerCount : Nat := 10

/-- The loop of `shutdown_quit_player_1`, from the count `n` on. -/
def forkLoop : Nat → List Pid → List Pid
  | _, [] => []
  | n, playerid :: rest =>
      playerid :: if n + 1 > quitPlayerCount then [] else forkLoop (n + 1) rest

/-- The step assigned a new key. -/
def grows (s s' : State Pid) : Bool :=
  s'.players.keys.any fun playerid => playerid ∉ s.players.keys

namespace System
variable (s : System Pid)

def getPlayerOnlineCount : Nat := s.mgr.players.keys.length

/-- `shutdown_quit_player_1` up to its sleep; `order` is the order of `pairs`. -/
def shutdownQuitPlayer1 (order : List Pid) : Option (System Pid × Output Pid) :=
  if order.Perm s.mgr.players.keys then
    some ({ s with
      forked := s.forked ++ forkLoop 0 order
      shutdown := .sleeping s.getPlayerOnlineCount }, .goesOn)
  else none

/-- A request runs to its next call. The loop of the second strategy waits only
in its kicks. -/
def runs (e : Agentmgr.Event Pid) : Option (System Pid × Output Pid) :=
  match s.shutdown, s.mgr.step e with
  | .quitting _ _, _ => none
  | _, none => none
  | .kicking c remaining disturbed, some (mgr, o) =>
      let disturbed := disturbed || grows s.mgr mgr
      match mgr.coroutines c with
      | .idle => some ({ s with mgr := mgr, shutdown := .quitting remaining disturbed }, .mgr o)
      | _ => some ({ s with mgr := mgr, shutdown := .kicking c remaining disturbed }, .mgr o)
  | _, some (mgr, o) => some ({ s with mgr := mgr }, .mgr o)

def visit (c : Nat) (playerid : Pid) (remaining : List Pid) (disturbed : Bool) :
    Option (System Pid × Output Pid) :=
  if (s.mgr.players.lookup playerid).isSome ∧ (playerid ∈ remaining ∨ disturbed) then
    match s.mgr.step (.reqkick c playerid) with
    | some (mgr, .calls) =>
        some ({ s with
          mgr := mgr
          shutdown := .kicking c (remaining.filter (· ≠ playerid)) disturbed }, .goesOn)
    | some (mgr, _) =>
        some ({ s with
          mgr := mgr
          shutdown := .quitting (remaining.filter (· ≠ playerid)) disturbed }, .goesOn)
    | none => none
  else none

def step : Event Pid → Option (System Pid × Output Pid)
  | .mgr (.raised _) => none
  | .mgr e => s.runs e
  | .forkRuns c =>
      match s.forked with
      | playerid :: rest => { s with forked := rest }.runs (.reqkick c playerid)
      | [] => none
  | .shutdown order =>
      match s.shutdown with
      | .idle =>
          if s.getPlayerOnlineCount > 100 then s.shutdownQuitPlayer1 order
          else some ({ s with shutdown := .quitting s.mgr.players.keys false }, .goesOn)
      | _ => none
  | .wake order =>
      match s.shutdown with
      | .sleeping playerCount =>
          if s.getPlayerOnlineCount ≤ 0 ∨
              s.getPlayerOnlineCount + quitPlayerCount ≤ playerCount then
            if s.getPlayerOnlineCount > 0 then s.shutdownQuitPlayer1 order
            else some ({ s with shutdown := .ended }, .returnsTrue)
          else some (s, .goesOn)
      | _ => none
  | .visit c playerid =>
      match s.shutdown with
      | .quitting remaining disturbed => s.visit c playerid remaining disturbed
      | _ => none
  | .loopEnd =>
      match s.shutdown with
      | .quitting remaining disturbed =>
          if disturbed ∨ ∀ playerid ∈ remaining, s.mgr.players.lookup playerid = none then
            some ({ s with shutdown := .ended }, .returnsTrue)
          else none
      | _ => none
  | .loopRaises =>
      match s.shutdown with
      | .quitting _ true => some ({ s with shutdown := .ended }, .raises)
      | _ => none

end System

def machine (table : Table Pid) : Machine (System Pid) (Event Pid) (Output Pid) where
  init := ⟨table.state, .idle, []⟩
  step := System.step

/-- The second strategy visits only players in the game, and no player without
a record is let in beside it. -/
def System.settled (s : System Pid) : Event Pid → Bool
  | .visit _ playerid =>
      (s.mgr.players.lookup playerid).all fun ref => (s.mgr.heap ref).status = .game
  | .mgr (.reqlogin _ playerid _ _) =>
      match s.shutdown with
      | .kicking _ _ _ => (s.mgr.players.lookup playerid).isSome
      | _ => true
  | _ => true

theorem reqlogin_mem {s s' : State Pid} {c node gate : Nat} {playerid p : Pid}
    {o : Agentmgr.Output Pid} (answer : (s', o) = s.reqlogin c playerid node gate)
    (mem : p ∈ s'.players) : p ∈ s.players ∨ p = playerid ∧ playerid ∉ s.players := by
  simp only [State.reqlogin] at answer
  split at answer
  · split at answer
    all_goals
      cases answer
      exact .inl mem
  · rename_i none
    cases answer
    have absent : playerid ∉ s.players := AList.lookup_eq_none.1 none
    cases AList.mem_insert (s := s.players) |>.1 mem with
    | inl same => exact .inr ⟨same, absent⟩
    | inr old => exact .inl old

theorem reqkick_mem {s s' : State Pid} {c : Nat} {playerid p : Pid} {o : Agentmgr.Output Pid}
    (answer : (s', o) = s.reqkick c playerid) (mem : p ∈ s'.players) : p ∈ s.players := by
  simp only [State.reqkick] at answer
  split at answer
  · split at answer
    all_goals
      cases answer
      exact mem
  · cases answer
    exact mem

/-- Only `reqlogin` adds a player. -/
theorem step_mem {s s' : State Pid} {raised : Pid → Bool} {e : Agentmgr.Event Pid}
    {o : Agentmgr.Output Pid} {p : Pid} (sound : s.Sound raised)
    (step : s.step e = some (s', o)) (mem : p ∈ s'.players) :
    p ∈ s.players ∨ ∃ c node gate, e = .reqlogin c p node gate ∧ p ∉ s.players := by
  cases e with
  | reqlogin c playerid node gate =>
      cases reqlogin_mem (State.step_reqlogin step).2 mem with
      | inl old => exact .inl old
      | inr new =>
          obtain ⟨rfl, absent⟩ := new
          exact .inr ⟨c, node, gate, rfl, absent⟩
  | reqkick c playerid => exact .inl (reqkick_mem (State.step_reqkick step).2 mem)
  | replied c agent =>
      left
      simp only [State.step] at step
      split at step
      · cases step
        exact mem
      · -- the record of the replaced player is still there
        rename_i playerid node gate mplayer co
        cases step
        obtain ⟨_, _, ref, found, _⟩ := (sound.phase playerid).of_busy (c := c) (by rw [co]; rfl)
        cases AList.mem_insert (s := s.players) |>.1 mem with
        | inl same =>
            rw [same, ← AList.lookup_isSome, found]
            rfl
        | inr old => exact old
      · cases step
        exact mem
      · cases step
        exact (AList.mem_erase.1 mem).2
      · cases step
  | raised c =>
      obtain ⟨_, _, _, rfl⟩ := State.step_raised step
      exact .inl mem

/-- What the step of a request does to `shutdown`. -/
theorem System.runs_cases {s s' : System Pid} {e : Agentmgr.Event Pid} {o : Output Pid}
    (step : s.runs e = some (s', o)) :
    ∃ o', s.mgr.step e = some (s'.mgr, o') ∧ o = .mgr o' ∧
      (s'.shutdown = s.shutdown ∧ (∀ remaining disturbed,
          s.shutdown ≠ .quitting remaining disturbed) ∧
        (∀ c remaining disturbed, s.shutdown ≠ .kicking c remaining disturbed) ∨
      ∃ c remaining disturbed, s.shutdown = .kicking c remaining disturbed ∧
        (s'.mgr.coroutines c = .idle ∧
            s'.shutdown = .quitting remaining (disturbed || grows s.mgr s'.mgr) ∨
          s'.mgr.coroutines c ≠ .idle ∧
            s'.shutdown = .kicking c remaining (disturbed || grows s.mgr s'.mgr))) := by
  simp only [runs] at step
  split at step
  · cases step
  · cases step
  · rename_i c remaining disturbed mgr o' phase moved
    split at step
    · rename_i idle
      cases step
      exact ⟨o', moved, rfl, .inr ⟨c, remaining, disturbed, phase, .inl ⟨idle, rfl⟩⟩⟩
    · rename_i busy
      cases step
      exact ⟨o', moved, rfl, .inr ⟨c, remaining, disturbed, phase, .inr ⟨busy, rfl⟩⟩⟩
  · rename_i phase mgr o' moved notQuitting notKicking
    cases step
    exact ⟨o', moved, rfl, .inl ⟨rfl, fun r d => notQuitting r d, fun c r d => notKicking c r d⟩⟩

/-- Every record is still to be visited, or it is the one being kicked. -/
inductive Covered (mgr : State Pid) : Progress Pid → Prop
  | idle : Covered mgr .idle
  | sleeping (playerCount) : Covered mgr (.sleeping playerCount)
  | quitting (remaining) : (∀ p ∈ mgr.players, p ∈ remaining) →
      Covered mgr (.quitting remaining false)
  | kicking (c remaining playerid mplayer pagent) :
      mgr.coroutines c = .kicking playerid mplayer pagent →
      (∀ p ∈ mgr.players, p ∈ remaining ∨ p = playerid) →
      Covered mgr (.kicking c remaining false)
  | ended : Covered mgr .ended

theorem grows_eq_false {s s' : State Pid} (same : ∀ p ∈ s'.players, p ∈ s.players) :
    grows s s' = false := by
  simp only [grows, List.any_eq_false, decide_eq_true_eq, not_not]
  exact fun p mem => AList.mem_keys.1 (same p (AList.mem_keys.2 mem))

/-- A request beside a kick of the loop: the kick goes on, or it has ended and
the record is gone. -/
theorem kicking_step {s s' : State Pid} {c : Nat} {playerid : Pid} {mplayer : Nat}
    {pagent : Option Nat} {e : Agentmgr.Event Pid} {o : Agentmgr.Output Pid}
    (co : s.coroutines c = .kicking playerid mplayer pagent) (fine : e ≠ .raised c)
    (step : s.step e = some (s', o)) :
    s'.coroutines c = .kicking playerid mplayer pagent ∨
      s'.coroutines c = .idle ∧ playerid ∉ s'.players := by
  by_cases own : e.coroutine = c
  · right
    subst own
    cases e with
    | reqlogin c' _ _ _ =>
        cases co.symm.trans (State.step_reqlogin step).1
    | reqkick c' _ =>
        cases co.symm.trans (State.step_reqkick step).1
    | replied c' agent =>
        change s.coroutines c' = _ at co
        rw [State.step, co] at step
        cases step
        refine ⟨Function.update_self _ _ _, ?_⟩
        exact fun mem => (AList.mem_erase.1 mem).1 rfl
    | raised c' => exact absurd rfl fine
  · left
    rw [State.step_coroutines_of_ne step own, co]

namespace System
variable {s s' : System Pid}

/-- The manager is sound and the loop reaches every record. -/
def Good (s : System Pid) : Prop :=
  (∃ raised, s.mgr.Sound raised) ∧ Covered s.mgr s.shutdown

theorem Good.runs {e : Agentmgr.Event Pid} {o : Output Pid} (good : s.Good)
    (fine : ∀ c, e ≠ .raised c)
    (old : ∀ c remaining disturbed, s.shutdown = .kicking c remaining disturbed →
      ∀ c' p node gate, e = .reqlogin c' p node gate → p ∈ s.mgr.players)
    (step : s.runs e = some (s', o)) : s'.Good := by
  obtain ⟨⟨raised, sound⟩, covered⟩ := good
  obtain ⟨o', moved, _, phase⟩ := runs_cases step
  refine ⟨⟨_, sound.step moved⟩, ?_⟩
  cases phase with
  | inl away =>
      obtain ⟨same, notQuitting, notKicking⟩ := away
      rw [same]
      cases h : s.shutdown with
      | idle => exact .idle
      | sleeping playerCount => exact .sleeping playerCount
      | quitting remaining disturbed => exact absurd h (notQuitting remaining disturbed)
      | kicking c remaining disturbed => exact absurd h (notKicking c remaining disturbed)
      | ended => exact .ended
  | inr here =>
      obtain ⟨c, remaining, disturbed, h, after⟩ := here
      rw [h] at covered
      cases covered with
      | kicking _ _ playerid mplayer pagent co all =>
          have mem : ∀ p ∈ s'.mgr.players, p ∈ s.mgr.players := by
            intro p now
            cases step_mem sound moved now with
            | inl before => exact before
            | inr new =>
                obtain ⟨c', node, gate, login, _⟩ := new
                exact old c remaining false h c' p node gate login
          rw [grows_eq_false mem] at after
          cases after with
          | inl ended =>
              rw [ended.2]
              refine .quitting remaining ?_
              intro p now
              cases kicking_step co (fine c) moved with
              | inl still => simp [ended.1] at still
              | inr gone =>
                  refine (all p (mem p now)).resolve_right ?_
                  rintro rfl
                  exact gone.2 now
          | inr still =>
              rw [still.2]
              have co' := (kicking_step co (fine c) moved).resolve_right fun gone =>
                still.1 gone.1
              exact .kicking c remaining playerid mplayer pagent co' fun p now => all p (mem p now)

theorem Good.visit {c : Nat} {playerid : Pid} {remaining : List Pid} {disturbed : Bool}
    {o : Output Pid} (good : s.Good) (phase : s.shutdown = .quitting remaining disturbed)
    (game : ∀ ref, s.mgr.players.lookup playerid = some ref → (s.mgr.heap ref).status = .game)
    (step : s.visit c playerid remaining disturbed = some (s', o)) : s'.Good := by
  obtain ⟨⟨raised, sound⟩, covered⟩ := good
  rw [phase] at covered
  cases covered with
  | quitting _ all =>
      simp only [System.visit] at step
      split at step
      · rename_i present
        obtain ⟨ref, found⟩ := Option.isSome_iff_exists.1 present.1
        have others : ∀ p ∈ s.mgr.players,
            p ∈ remaining.filter (· ≠ playerid) ∨ p = playerid := by
          intro p mem
          by_cases same : p = playerid
          · exact .inr same
          · exact .inl (by simp [same, all p mem])
        split at step
        · rename_i mgr kick
          cases step
          refine ⟨⟨_, sound.step kick⟩, ?_⟩
          obtain ⟨_, answer⟩ := State.step_reqkick kick
          simp only [State.reqkick, found, game ref found, if_true] at answer
          cases answer
          exact .kicking c _ playerid ref _ (Function.update_self _ _ _) others
        · rename_i mgr o' notCalls kick
          obtain ⟨_, answer⟩ := State.step_reqkick kick
          simp only [State.reqkick, found, game ref found, if_true] at answer
          cases answer
          exact absurd rfl notCalls
        · cases step
      · cases step

theorem shutdownQuitPlayer1_eq {order : List Pid} {o : Output Pid}
    (step : s.shutdownQuitPlayer1 order = some (s', o)) :
    s'.mgr = s.mgr ∧ s'.shutdown = .sleeping s.getPlayerOnlineCount ∧ o = .goesOn := by
  simp only [shutdownQuitPlayer1] at step
  split at step
  · cases step
    exact ⟨rfl, rfl, rfl⟩
  · cases step

theorem Good.quitPlayer1 {order : List Pid} {o : Output Pid} (good : s.Good)
    (step : s.shutdownQuitPlayer1 order = some (s', o)) : s'.Good := by
  obtain ⟨mgr, phase, _⟩ := shutdownQuitPlayer1_eq step
  rw [Good, mgr, phase]
  exact ⟨good.1, .sleeping _⟩

/-- What a step can do. -/
inductive Moves (s : System Pid) : Event Pid → System Pid → Output Pid → Prop
  | mgr {e s' o} : (∀ c, e ≠ .raised c) → s.runs e = some (s', o) → Moves s (.mgr e) s' o
  | forkRuns {c playerid rest s' o} : s.forked = playerid :: rest →
      { s with forked := rest }.runs (.reqkick c playerid) = some (s', o) →
      Moves s (.forkRuns c) s' o
  | quitPlayer1 {e order s' o} : s.shutdownQuitPlayer1 order = some (s', o) → Moves s e s' o
  | quitPlayer2 {order} : s.shutdown = .idle →
      Moves s (.shutdown order) { s with shutdown := .quitting s.mgr.players.keys false } .goesOn
  | sleeps {order} : Moves s (.wake order) s .goesOn
  | counted {order} : s.getPlayerOnlineCount = 0 →
      Moves s (.wake order) { s with shutdown := .ended } .returnsTrue
  | visit {c playerid remaining disturbed s' o} : s.shutdown = .quitting remaining disturbed →
      s.visit c playerid remaining disturbed = some (s', o) → Moves s (.visit c playerid) s' o
  | loopEnd {remaining disturbed} : s.shutdown = .quitting remaining disturbed →
      (disturbed = true ∨ ∀ playerid ∈ remaining, s.mgr.players.lookup playerid = none) →
      Moves s .loopEnd { s with shutdown := .ended } .returnsTrue
  | loopRaises {remaining} : s.shutdown = .quitting remaining true →
      Moves s .loopRaises { s with shutdown := .ended } .raises

theorem step_moves {e : Event Pid} {o : Output Pid} (step : s.step e = some (s', o)) :
    Moves s e s' o := by
  cases e with
  | mgr e =>
      cases e with
      | reqlogin c playerid node gate => exact .mgr (by simp) step
      | reqkick c playerid => exact .mgr (by simp) step
      | replied c agent => exact .mgr (by simp) step
      | raised c => cases step
  | shutdown order =>
      simp only [System.step] at step
      split at step
      · rename_i idle
        split at step
        · exact .quitPlayer1 step
        · cases step
          exact .quitPlayer2 idle
      · cases step
  | forkRuns c =>
      simp only [System.step] at step
      split at step
      · rename_i forked
        exact .forkRuns forked step
      · cases step
  | wake order =>
      simp only [System.step] at step
      split at step
      · split at step
        · split at step
          · exact .quitPlayer1 step
          · rename_i notPos
            cases step
            exact .counted (Nat.eq_zero_of_not_pos notPos)
        · cases step
          exact .sleeps
      · cases step
  | visit c playerid =>
      simp only [System.step] at step
      split at step
      · rename_i phase
        exact .visit phase step
      · cases step
  | loopEnd =>
      simp only [System.step] at step
      split at step
      · rename_i phase
        split at step
        · rename_i ended
          cases step
          exact .loopEnd phase ended
        · cases step
      · cases step
  | loopRaises =>
      simp only [System.step] at step
      split at step
      · rename_i phase
        cases step
        exact .loopRaises phase
      · cases step

theorem Good.step {e : Event Pid} {o : Output Pid} (good : s.Good) (settled : s.settled e = true)
    (step : s.step e = some (s', o)) : s'.Good := by
  cases step_moves step with
  | mgr fine runs =>
      refine good.runs fine ?_ runs
      rintro c remaining disturbed phase c' p node gate rfl
      simp only [System.settled, phase] at settled
      exact AList.lookup_isSome.1 settled
  | forkRuns _ runs =>
      rename_i rest _
      have forked : System.Good { s with forked := rest } := good
      exact forked.runs (by simp) (by simp) runs
  | quitPlayer1 quits => exact good.quitPlayer1 quits
  | quitPlayer2 _ => exact ⟨good.1, .quitting _ fun p mem => AList.mem_keys.1 mem⟩
  | sleeps => exact good
  | counted _ => exact ⟨good.1, .ended⟩
  | visit phase visits =>
      refine good.visit phase ?_ visits
      intro ref found
      simpa [System.settled, found] using settled
  | loopEnd _ _ => exact ⟨good.1, .ended⟩
  | loopRaises _ => exact ⟨good.1, .ended⟩

theorem visit_goesOn {c : Nat} {playerid : Pid} {remaining : List Pid} {disturbed : Bool}
    {o : Output Pid} (step : s.visit c playerid remaining disturbed = some (s', o)) :
    o = .goesOn := by
  simp only [System.visit] at step
  split at step
  · split at step
    all_goals cases step
    all_goals rfl
  · cases step

/-- `shutdown` returns from a count of zero or from the end of the loop. -/
theorem Good.empty {e : Event Pid} (good : s.Good)
    (step : s.step e = some (s', .returnsTrue)) : s'.mgr.players.keys = [] := by
  cases step_moves step with
  | mgr _ runs =>
      obtain ⟨_, _, out, _⟩ := runs_cases runs
      cases out
  | forkRuns _ runs =>
      obtain ⟨_, _, out, _⟩ := runs_cases runs
      cases out
  | quitPlayer1 quits => cases (shutdownQuitPlayer1_eq quits).2.2
  | visit _ visits => cases visit_goesOn visits
  | counted zero => exact List.eq_nil_of_length_eq_zero zero
  | loopEnd phase ended =>
      have covered := good.2
      rw [phase] at covered
      cases covered with
      | quitting _ all =>
          have absent := ended.resolve_left Bool.false_ne_true
          refine List.eq_nil_iff_forall_not_mem.2 fun p mem => ?_
          have present := AList.mem_keys.2 mem
          exact AList.lookup_eq_none.1 (absent p (all p present)) present

end System

theorem good_of_reach {table : Table Pid} {trace : List (Event Pid × Output Pid)} {s : System Pid}
    (reach : ((machine table).guard System.settled).Reach trace s) : s.Good := by
  refine reach.invariant (fun _ s => s.Good) ⟨⟨_, State.sound_init table⟩, .idle⟩ ?_
  intro trace s e s' o good step
  obtain ⟨settled, step⟩ := Machine.guard_step step
  exact good.step settled step

/-- When `shutdown` returns true, no record remains. -/
theorem players_empty_of_settled {table : Table Pid} {trace : List (Event Pid × Output Pid)}
    {s s' : System Pid} {e : Event Pid}
    (reach : ((machine table).guard System.settled).Reach trace s)
    (step : ((machine table).guard System.settled).step s e = some (s', .returnsTrue)) :
    s'.mgr.players.keys = [] :=
  (good_of_reach reach).empty (Machine.guard_step step).2

/-- The loop has passed a record by, or it no longer knows what it reaches. -/
def System.Escapes (s : System Pid) : Prop :=
  (∃ p ∈ s.mgr.players, ∃ remaining disturbed,
    s.shutdown = .quitting remaining disturbed ∧ p ∉ remaining) ∨
  ∃ remaining, s.shutdown = .quitting remaining true ∨ ∃ c, s.shutdown = .kicking c remaining true

/-- What the condition excludes lets a record escape. -/
theorem System.escapes_of_not_settled {s s' : System Pid} {e : Event Pid} {o : Output Pid}
    (settled : s.settled e = false) (step : s.step e = some (s', o)) : s'.Escapes := by
  cases e with
  | visit c playerid =>
      simp only [System.settled, Option.all_eq_false, decide_eq_false_iff_not] at settled
      obtain ⟨ref, found, status⟩ := settled
      simp only [System.step] at step
      split at step
      · rename_i remaining disturbed _
        simp only [System.visit] at step
        split at step
        · split at step
          · rename_i kick
            have answer := (State.step_reqkick kick).2
            simp only [State.reqkick, found, status, if_false] at answer
            cases answer
          · rename_i kick
            have answer := (State.step_reqkick kick).2
            simp only [State.reqkick, found, status, if_false] at answer
            cases answer
            cases step
            refine .inl ⟨playerid, ?_, _, _, rfl, by simp⟩
            rw [← AList.lookup_isSome, found]
            rfl
          · cases step
        · cases step
      · cases step
  | mgr e =>
      cases e with
      | reqlogin c playerid node gate =>
          simp only [System.settled] at settled
          split at settled
          · rename_i c' remaining disturbed phase
            obtain ⟨o', moved, _, after⟩ := runs_cases step
            have absent : s.mgr.players.lookup playerid = none := by
              simpa using settled
            have answer := (State.step_reqlogin moved).2
            simp only [State.reqlogin, absent] at answer
            have mem : playerid ∈ s'.mgr.players := by
              rw [(Prod.mk.inj answer).1]
              exact (AList.mem_insert _).2 (.inl rfl)
            have new : grows s.mgr s'.mgr = true := by
              refine List.any_eq_true.2 ⟨playerid, AList.mem_keys.1 mem, ?_⟩
              simpa using fun old => AList.lookup_eq_none.1 absent (AList.mem_keys.2 old)
            cases after with
            | inl away => exact absurd phase (away.2.2 c' remaining disturbed)
            | inr here =>
                obtain ⟨c'', remaining', disturbed', _, after⟩ := here
                rw [new, Bool.or_true] at after
                cases after with
                | inl ended => exact .inr ⟨remaining', .inl ended.2⟩
                | inr still => exact .inr ⟨remaining', .inr ⟨c'', still.2⟩⟩
          · cases settled
      | reqkick c playerid => cases settled
      | replied c agent => cases settled
      | raised c => cases settled
  | shutdown order => cases settled
  | forkRuns c => cases settled
  | wake order => cases settled
  | loopEnd => cases settled
  | loopRaises => cases settled

theorem players_empty_after_kick :
    ∃ trace s s', ((machine (Table.empty : Table Nat)).guard System.settled).Reach trace s ∧
      ((machine Table.empty).guard System.settled).step s .loopEnd = some (s', .returnsTrue) ∧
      s'.mgr.players.keys = [] := by
  have run : ∃ s s', ((machine (Table.empty : Table Nat)).guard System.settled).exec
      (machine Table.empty).init
      [.mgr (.reqlogin 0 7 1 1), .mgr (.replied 0 (some 100)), .shutdown [], .visit 1 7,
        .mgr (.reqlogin 2 7 1 1), .mgr (.replied 1 none)] = some s ∧
      ((machine Table.empty).guard System.settled).step s .loopEnd = some (s', .returnsTrue) :=
    ⟨_, _, rfl, rfl⟩
  obtain ⟨s, s', run, step⟩ := run
  obtain ⟨trace, reach⟩ := Machine.Reach.exec .init run
  exact ⟨trace, s, s', reach, step, players_empty_of_settled reach step⟩

/-- A player in LOGIN is passed by. -/
theorem login_survives_shutdown :
    ¬ ∀ (table : Table Nat) trace s s' e, (machine table).Reach trace s →
      (machine table).step s e = some (s', .returnsTrue) → s'.mgr.players.keys = [] := by
  intro all
  have run : ∃ s s', (machine (Table.empty : Table Nat)).exec (machine Table.empty).init
      [.mgr (.reqlogin 0 7 1 1), .shutdown [], .visit 1 7] = some s ∧
      (machine (Table.empty : Table Nat)).step s .loopEnd = some (s', .returnsTrue) ∧
      s'.mgr.players.keys = [7] := ⟨_, _, rfl, rfl, rfl⟩
  obtain ⟨s, s', run, step, left⟩ := run
  obtain ⟨trace, reach⟩ := Machine.Reach.exec .init run
  have empty := all Table.empty trace s s' .loopEnd reach step
  rw [left] at empty
  cases empty

end Qiuqiu.Agentmgr.Shutdown
