import Qiuqiu.Base.Assoc
import Qiuqiu.Base.Machine

/-!
The event listeners of an object (lualib/base/exclass.lua). `_AddEventListener`
tests the type of a comparison where the type of the function is meant, and no
type is false: it always returns before it notes the listener. The table of the
listeners never comes into being, every dispatch finds nothing to call, and
every deletion raises on the missing table.
-/
namespace Qiuqiu.Exclass.Events

/-- The arguments of a call, nil among them. -/
abbrev Args (V : Type) := List (Option V)

/-- A call on the object. The environment of the caller is missing when its function
uses no global name. -/
inductive Op (V Env : Type) where
  | addListener (env : Option Env) (eId : V) (funcName : String) (args : Args V)
  | addObjListener (eId : V) (funcName : String) (args : Args V)
  | addMajorListener (env : Option Env) (eId : V) (mKey : Option V) (funcName : String)
      (args : Args V)
  | delListener (env : Option Env) (eId : V) (funcName : String)
  | delObjListener (eId : V) (funcName : String)
  | delMajorListener (env : Option Env) (eId : V) (mKey : Option V) (funcName : String)
  | dispatchEvent (eId : V) (args : Args V)

inductive Result where
  | nil
  | true
  | raised
  deriving DecidableEq

/-- What happens to the object, with a number for every call on it. -/
inductive Action (V Env : Type) where
  | start (id : Nat) (op : Op V Env)
  | call (id : Nat) (env : Env) (funcName : String) (args : Args V)
  | finish (id : Nat) (op : Op V Env) (result : Result)

/-- What a listener does next. -/
inductive Act (V Env : Type) where
  | op (op : Op V Env)
  | returns
  | raises

/-- The table of a registration: its pack of arguments has `n` of them, and cells beyond
that are left from earlier dispatches. -/
structure Entry (V Env : Type) where
  env : Env
  funcName : String
  n : Nat
  cells : Args V

/-- The registrations of an event by reference. -/
structure Lists (V : Type) where
  normal : List Nat
  major : List (V × List Nat)

structure World (V Env : Type) where
  eventData : Option (List (V × Lists V))
  entries : List (Entry V Env)
  log : List (Action V Env)
  nextId : Nat

/-- The object and what surrounds it. A listener decides on what has happened so far. -/
structure Host (V Env : Type) where
  self : V
  selfEnv : Env
  isFunction : Env → String → Bool
  listener : Env → String → Args V → List (Action V Env) → Act V Env
  truthy : V → Bool
  isTestserver : Bool
  isObj : V → Bool
  order : Assoc.PairsOrder Nat

section Code
variable {V Env : Type} [DecidableEq V] [DecidableEq Env] (host : Host V Env)

/-- The `type` of a boolean. -/
def typeOfBoolean (_ : Bool) : String := "boolean"

/-- Every string counts as true. -/
def stringTruth (_ : String) : Bool := true

/-- `_obj_check` goes through. -/
def objCheck (args : Args V) : Bool :=
  !(host.isTestserver && args.any fun value => value.any host.isObj)

/-- The place of the registration in a list, or a new place at its end. -/
def place (w : World V Env) (refs : List Nat) (env : Env) (funcName : String) (ref : Nat) :
    List Nat :=
  match refs.findIdx? fun ref => (w.entries[ref]?).any fun data =>
      data.env = env ∧ data.funcName = funcName with
  | some nidx => refs.set nidx ref
  | none => refs ++ [ref]

/-- A listener is major when it has a key. -/
def addEventListener (w : World V Env) (mKey : Option V) (eId : V) (env : Env)
    (funcName : String) (args : Args V) : World V Env × Result :=
  if stringTruth (typeOfBoolean (!host.isFunction env funcName)) then
    (w, .nil)
  else if !objCheck host args then
    (w, .raised)
  else
    let eData := w.eventData.getD []
    let ed := (eData.lookup eId).getD ⟨[], []⟩
    let ref := w.entries.length
    let ed := match mKey with
      | some mKey =>
          let refs := place w ((ed.major.lookup mKey).getD []) env funcName ref
          { ed with major := Assoc.put ed.major mKey refs }
      | none => { ed with normal := place w ed.normal env funcName ref }
    ({ w with
        eventData := some (Assoc.put eData eId ed)
        entries := w.entries ++ [⟨env, funcName, args.length, args⟩] }, .true)

/-- The first test is the wrong way round: whatever `eData[eId]` is, the function returns
before it looks for the listener. -/
def delEventListener (w : World V Env) (eId : V) : Result :=
  match w.eventData with
  -- `eData[eId]` is read of nil.
  | none => .raised
  | some eData =>
      match eData.lookup eId with
      | some _ => .nil
      | none => .nil

/-- `_CallFunc` on a copy of a list; `listen` runs a listener to its end. -/
def callFunc (listen : World V Env → Env → String → Args V → Option (World V Env)) (id : Nat)
    (args : Args V) (w : World V Env) (eventData : List Nat) : Option (World V Env) :=
  (host.order.visit eventData).foldlM (fun w ref =>
    match w.entries[ref]? with
    | none => some w
    | some data =>
        -- The pack is extended in place, from its own end on.
        let eargs := data.cells.take data.n ++ args ++ data.cells.drop (data.n + args.length)
        let w := { w with entries := w.entries.set ref { data with cells := eargs } }
        let passed := some host.self :: eargs.take (data.n + args.length)
        if host.isFunction data.env data.funcName then
          listen { w with log := w.log ++ [.call id data.env data.funcName passed] }
            data.env data.funcName passed
        else
          some w) w

/-- The first of the dispatched arguments. -/
def majorKey (args : Args V) : Option V := args.head?.join

def dispatchEvent (listen : World V Env → Env → String → Args V → Option (World V Env)) (id : Nat)
    (w : World V Env) (eId : V) (args : Args V) : Option (World V Env × Result) :=
  match w.eventData.bind fun eData => eData.lookup eId with
  | none => some (w, .nil)
  | some ed =>
      if !objCheck host args then
        some (w, .raised)
      else do
        let w ← match (majorKey args).bind fun key => ed.major.lookup key with
          | some (ref :: refs) => callFunc host listen id args w (ref :: refs)
          | _ => some w
        match w.eventData.bind fun eData => eData.lookup eId with
        | some ⟨ref :: refs, _⟩ =>
            let w ← callFunc host listen id args w (ref :: refs)
            return (w, .nil)
        | _ => return (w, .nil)

/-- The body of a call. -/
def body (listen : World V Env → Env → String → Args V → Option (World V Env)) (id : Nat)
    (w : World V Env) : Op V Env → Option (World V Env × Result)
  | .addListener none _ _ _ => some (w, .raised)
  | .addListener (some env) eId funcName args =>
      some (addEventListener host w none eId env funcName args)
  | .addObjListener eId funcName args =>
      some (addEventListener host w none eId host.selfEnv funcName args)
  | .addMajorListener none _ _ _ _ => some (w, .raised)
  | .addMajorListener (some env) eId mKey funcName args =>
      match mKey.filter host.truthy with
      | none => some (w, .raised)
      | some mKey =>
          if !host.isFunction env funcName then some (w, .nil)
          else some (addEventListener host w (some mKey) eId env funcName args)
  | .delListener none _ _ => some (w, .raised)
  | .delListener (some _) eId _ => some (w, delEventListener w eId)
  | .delObjListener eId _ => some (w, delEventListener w eId)
  | .delMajorListener none _ _ _ => some (w, .raised)
  | .delMajorListener (some _) eId mKey _ =>
      match mKey.filter host.truthy with
      | none => some (w, .raised)
      | some _ => some (w, delEventListener w eId)
  | .dispatchEvent eId args => dispatchEvent host listen id w eId args

/-- A listener runs until it returns or raises, which `xpcall` catches. -/
def listen (perform : World V Env → Op V Env → Option (World V Env × Result)) :
    Nat → World V Env → Env → String → Args V → Option (World V Env)
  | 0, _, _, _, _ => none
  | steps + 1, w, env, funcName, args =>
      match host.listener env funcName args w.log with
      | .op op => do
          let (w, _) ← perform w op
          listen perform steps w env funcName args
      | .returns => some w
      | .raises => some w

/-- A call on the object, with a bound on the calls that listeners make in turn. -/
def perform : Nat → World V Env → Op V Env → Option (World V Env × Result)
  | 0, _, _ => none
  | depth + 1, w, op =>
      let started := { w with nextId := w.nextId + 1, log := w.log ++ [.start w.nextId op] }
      (body host (listen host (perform depth) depth) w.nextId started op).map fun (after, result) =>
        ({ after with log := after.log ++ [.finish w.nextId op result] }, result)

/-- The calls on a new object. -/
def machine (depth : Nat) : Machine (World V Env) (Op V Env) Result where
  init := ⟨none, [], [], 0⟩
  step := perform host depth

end Code

section Contract
variable {V Env : Type} [DecidableEq V] [DecidableEq Env] (host : Host V Env)

/-- What a listener is registered under; a major one has a second key. -/
structure Key (V Env : Type) where
  eId : V
  mKey : Option V
  env : Env
  funcName : String
  deriving DecidableEq

/-- A registration goes through when the function exists and no argument is an object. -/
def accepts (key : Key V Env) (args : Args V) : Option (Key V Env × Args V) :=
  if host.isFunction key.env key.funcName && objCheck host args then some (key, args) else none

/-- The registration that a call asks for. -/
def adds : Op V Env → Option (Key V Env × Args V)
  | .addListener env eId funcName args =>
      env.bind fun env => accepts host ⟨eId, none, env, funcName⟩ args
  | .addObjListener eId funcName args => accepts host ⟨eId, none, host.selfEnv, funcName⟩ args
  | .addMajorListener env eId mKey funcName args =>
      env.bind fun env => (mKey.filter host.truthy).bind fun mKey =>
        accepts host ⟨eId, some mKey, env, funcName⟩ args
  | _ => none

/-- The registration that a call takes away. -/
def dels : Op V Env → Option (Key V Env)
  | .delListener env eId funcName => env.map fun env => ⟨eId, none, env, funcName⟩
  | .delObjListener eId funcName => some ⟨eId, none, host.selfEnv, funcName⟩
  | .delMajorListener env eId mKey funcName =>
      env.bind fun env => mKey.map fun mKey => ⟨eId, some mKey, env, funcName⟩
  | _ => none

/-- The registrations after one more action: the last one of a key counts, until a
deletion returns true. -/
def note (table : List (Key V Env × Args V)) : Action V Env → List (Key V Env × Args V)
  | .start _ op =>
      match adds host op with
      | some (key, args) => Assoc.put table key args
      | none => table
  | .finish _ op .true =>
      match dels host op with
      | some key => Assoc.remove table key
      | none => table
  | _ => table

def registered (log : List (Action V Env)) : List (Key V Env × Args V) :=
  log.foldl (note host) []

/-- The listener hears a dispatch of its event, and of its second key if it has one. -/
def Hears (key : Key V Env) (eId : V) (args : Args V) : Prop :=
  key.eId = eId ∧ (key.mKey = none ∨ key.mKey = majorKey args)

instance (key : Key V Env) (eId : V) (args : Args V) : Decidable (Hears key eId args) :=
  inferInstanceAs (Decidable (_ ∧ _))

/-- The calls that a dispatch has to make. -/
def expected (log : List (Action V Env)) (eId : V) (args : Args V) :
    List (Env × String × Args V) :=
  ((registered host log).filter fun x => Hears x.1 eId args).map fun x =>
    (x.1.env, x.1.funcName, some host.self :: x.2 ++ args)

/-- The calls that a dispatch has made. -/
def callsOf (id : Nat) (log : List (Action V Env)) : List (Env × String × Args V) :=
  log.filterMap fun
    | .call id' env funcName args => if id' = id then some (env, funcName, args) else none
    | _ => none

/-- Every dispatch ends, and calls every listener that is registered and hears it once,
with the arguments of its registration and of the dispatch. -/
def Meets (log : List (Action V Env)) : Prop :=
  ∀ pre id eId args post, log = pre ++ .start id (.dispatchEvent eId args) :: post →
    (∃ result, .finish id (.dispatchEvent eId args) result ∈ post) ∧
      (callsOf id post).Perm (expected host pre eId args)

/-- No dispatch comes after a call that asks for a listener that hears it. -/
def Unheard (log : List (Action V Env)) : Prop :=
  ∀ pre id eId args post, log = pre ++ .start id (.dispatchEvent eId args) :: post →
    ∀ id' op key stored, .start id' op ∈ pre → adds host op = some (key, stored) →
      ¬ Hears key eId args

end Contract

section Runs
variable {V Env : Type} [DecidableEq V] [DecidableEq Env] {host : Host V Env}
  {w w' : World V Env} {op : Op V Env} {result : Result}

/-- The test of the function is always taken for a missing one. -/
theorem addEventListener_eq (mKey : Option V) (eId : V) (env : Env) (funcName : String)
    (args : Args V) : addEventListener host w mKey eId env funcName args = (w, .nil) := rfl

omit [DecidableEq Env] in
theorem delEventListener_eq (none : w.eventData = none) (eId : V) :
    delEventListener w eId = .raised := by
  rw [delEventListener, none]

/-- Without a table no call does anything or returns true. -/
theorem body_eq {listen : World V Env → Env → String → Args V → Option (World V Env)} {id : Nat}
    (none : w.eventData = none) (op : Op V Env) :
    ∃ result, body host listen id w op = some (w, result) ∧ result ≠ .true := by
  cases op with
  | addListener env eId funcName args =>
      cases env with
      | none => exact ⟨.raised, rfl, nofun⟩
      | some env => exact ⟨.nil, by rw [body, addEventListener_eq], nofun⟩
  | addObjListener eId funcName args => exact ⟨.nil, by rw [body, addEventListener_eq], nofun⟩
  | addMajorListener env eId mKey funcName args =>
      cases env with
      | none => exact ⟨.raised, rfl, nofun⟩
      | some env =>
          simp only [body]
          split
          · exact ⟨.raised, rfl, nofun⟩
          · split
            · exact ⟨.nil, rfl, nofun⟩
            · exact ⟨.nil, by rw [addEventListener_eq], nofun⟩
  | delListener env eId funcName =>
      cases env with
      | none => exact ⟨.raised, rfl, nofun⟩
      | some env =>
          refine ⟨.raised, ?_, nofun⟩
          rw [body, delEventListener_eq none]
  | delObjListener eId funcName =>
      refine ⟨.raised, ?_, nofun⟩
      rw [body, delEventListener_eq none]
  | delMajorListener env eId mKey funcName =>
      cases env with
      | none => exact ⟨.raised, rfl, nofun⟩
      | some env =>
          refine ⟨.raised, ?_, nofun⟩
          simp only [body, delEventListener_eq none]
          split <;> rfl
  | dispatchEvent eId args =>
      refine ⟨.nil, ?_, nofun⟩
      simp only [body, dispatchEvent, none, Option.bind_none]

theorem perform_silent {depth : Nat} (none : w.eventData = none)
    (moved : perform host depth w op = some (w', result)) :
    w'.eventData = Option.none ∧ result ≠ .true ∧
      w'.log = w.log ++ [.start w.nextId op] ++ [.finish w.nextId op result] := by
  cases depth with
  | zero => cases moved
  | succ depth =>
      obtain ⟨r, done, other⟩ := @body_eq V Env _ _ host
        { w with nextId := w.nextId + 1, log := w.log ++ [.start w.nextId op] }
        (listen host (perform host depth) depth) w.nextId none op
      rw [perform, done] at moved
      cases moved
      exact ⟨none, other, rfl⟩

/-- There is no table, no listener has been called, no call has returned true, and every
call has ended. -/
structure Silent (w : World V Env) : Prop where
  eventData : w.eventData = none
  calls : ∀ id env funcName args, .call id env funcName args ∉ w.log
  results : ∀ id op, .finish id op .true ∉ w.log
  ended : ∀ pre id op post, w.log = pre ++ .start id op :: post →
    ∃ result, .finish id op result ∈ post

theorem Silent.step {depth : Nat} (silent : Silent w)
    (moved : perform host depth w op = some (w', result)) : Silent w' := by
  obtain ⟨none, other, log⟩ := perform_silent silent.eventData moved
  refine ⟨none, ?_, ?_, ?_⟩
  · intro id env funcName args mem
    rw [log] at mem
    simp only [List.mem_append, List.mem_singleton, reduceCtorEq, or_false] at mem
    exact silent.calls id env funcName args mem
  · intro id op' mem
    rw [log] at mem
    simp only [List.mem_append, List.mem_singleton, reduceCtorEq, or_false] at mem
    cases mem with
    | inl before => exact silent.results id op' before
    | inr last =>
        cases last
        exact other rfl
  · intro pre id op' post split
    rw [log] at split
    cases Machine.split_concat split with
    | inl before =>
        obtain ⟨post₁, rfl, before⟩ := before
        cases Machine.split_concat before with
        | inl earlier =>
            obtain ⟨post₂, rfl, earlier⟩ := earlier
            obtain ⟨result, mem⟩ := silent.ended pre id op' post₂ earlier
            exact ⟨result, by simp [mem]⟩
        | inr now =>
            obtain ⟨rfl, -, same⟩ := now
            cases same
            exact ⟨result, by simp⟩
    | inr last => cases last.2.2

theorem silent_init {depth : Nat} : Silent (machine host depth).init := by
  refine ⟨rfl, fun _ _ _ _ => List.not_mem_nil, fun _ _ => List.not_mem_nil, ?_⟩
  intro pre id op post split
  simp [machine] at split

theorem silent_of_reach {depth : Nat} {trace : List (Op V Env × Result)}
    (reach : (machine host depth).Reach trace w) : Silent w := by
  refine reach.invariant (fun _ w => Silent w) silent_init ?_
  intro trace w op w' result silent moved
  exact silent.step moved

theorem mem_note {table : List (Key V Env × Args V)} {x : Action V Env} (key : Key V Env)
    (result : ∀ id op, x ≠ .finish id op .true) :
    key ∈ (note host table x).map Prod.fst ↔ key ∈ table.map Prod.fst ∨
      ∃ id op stored, x = .start id op ∧ adds host op = some (key, stored) := by
  cases x with
  | start id op =>
      rw [note]
      cases asked : adds host op with
      | none => simp [asked]
      | some asks =>
          rw [Assoc.mem_keys_put]
          constructor
          · rintro (rfl | before)
            · exact .inr ⟨id, op, asks.2, rfl, asked⟩
            · exact .inl before
          · rintro (before | ⟨id', op', stored, same, asked'⟩)
            · exact .inr before
            · cases same
              cases asked.symm.trans asked'
              exact .inl rfl
  | call id env funcName args => simp [note]
  | finish id op result' =>
      cases result' with
      | nil => simp [note]
      | true => exact absurd rfl (result id op)
      | raised => simp [note]

/-- Where no deletion returns true, the registered listeners are those asked for. -/
theorem mem_registered {log : List (Action V Env)} (results : ∀ id op, .finish id op .true ∉ log)
    (key : Key V Env) :
    key ∈ (registered host log).map Prod.fst ↔
      ∃ id op stored, .start id op ∈ log ∧ adds host op = some (key, stored) := by
  have general : ∀ table : List (Key V Env × Args V),
      key ∈ (log.foldl (note host) table).map Prod.fst ↔ key ∈ table.map Prod.fst ∨
        ∃ id op stored, .start id op ∈ log ∧ adds host op = some (key, stored) := by
    induction log with
    | nil => simp
    | cons x log ih =>
        intro table
        have later : ∀ id op, .finish id op .true ∉ log := fun id op mem =>
          results id op (List.mem_cons_of_mem x mem)
        have first : ∀ id op, x ≠ .finish id op .true := by
          rintro id op rfl
          exact results id op List.mem_cons_self
        rw [List.foldl_cons, ih later, mem_note key first, or_assoc]
        refine or_congr_right ?_
        constructor
        · rintro (⟨id, op, stored, rfl, asked⟩ | ⟨id, op, stored, mem, asked⟩)
          · exact ⟨id, op, stored, List.mem_cons_self, asked⟩
          · exact ⟨id, op, stored, List.mem_cons_of_mem x mem, asked⟩
        · rintro ⟨id, op, stored, mem, asked⟩
          cases List.mem_cons.mp mem with
          | inl here => exact .inl ⟨id, op, stored, here.symm, asked⟩
          | inr after => exact .inr ⟨id, op, stored, after, asked⟩
  rw [registered, general]
  simp

theorem expected_eq_nil {log : List (Action V Env)} (results : ∀ id op, .finish id op .true ∉ log)
    (eId : V) (args : Args V) :
    expected host log eId args = [] ↔
      ∀ id op key stored, .start id op ∈ log → adds host op = some (key, stored) →
        ¬ Hears key eId args := by
  rw [expected, List.map_eq_nil_iff, List.filter_eq_nil_iff]
  constructor
  · intro none id op key stored mem asked hears
    obtain ⟨x, inside, rfl⟩ :=
      List.mem_map.mp ((mem_registered results key).mpr ⟨id, op, stored, mem, asked⟩)
    exact none x inside (decide_eq_true hears)
  · intro unheard x inside hears
    obtain ⟨id, op, stored, mem, asked⟩ :=
      (mem_registered results x.1).mp (List.mem_map_of_mem inside)
    exact unheard id op x.1 stored mem asked (of_decide_eq_true hears)

omit [DecidableEq V] [DecidableEq Env] in
theorem callsOf_eq_nil {log : List (Action V Env)}
    (calls : ∀ id env funcName args, .call id env funcName args ∉ log) (id : Nat) :
    callsOf id log = [] := by
  rw [callsOf, List.filterMap_eq_nil_iff]
  intro x mem
  cases x with
  | call id' env funcName args => exact absurd mem (calls id' env funcName args)
  | start | finish => rfl

/-- In every run the dispatches call the listeners they have to exactly when none of them
comes after a call that asks for a listener that hears it. -/
theorem meets_iff_unheard {depth : Nat} {trace : List (Op V Env × Result)}
    (reach : (machine host depth).Reach trace w) : Meets host w.log ↔ Unheard host w.log := by
  have silent := silent_of_reach reach
  have before : ∀ pre x post, w.log = pre ++ x :: post →
      ∀ id op, .finish id op .true ∉ pre := by
    intro pre x post split id op mem
    exact silent.results id op (split ▸ List.mem_append_left _ mem)
  have nothing : ∀ pre x post, w.log = pre ++ x :: post → ∀ id, callsOf id post = [] := by
    intro pre x post split id
    refine callsOf_eq_nil (fun id env funcName args mem => ?_) id
    refine silent.calls id env funcName args ?_
    rw [split]
    exact List.mem_append_right _ (List.mem_cons_of_mem x mem)
  constructor
  · intro meets pre id eId args post split
    obtain ⟨-, calls⟩ := meets pre id eId args post split
    rw [nothing pre _ post split id] at calls
    exact (expected_eq_nil (before pre _ post split) eId args).mp calls.nil_eq.symm
  · intro unheard pre id eId args post split
    refine ⟨silent.ended pre id _ post split, ?_⟩
    rw [nothing pre _ post split id, (expected_eq_nil (before pre _ post split) eId args).mpr
      (unheard pre id eId args post split)]

/-- An object whose listeners return at once. -/
def plainHost : Host Nat Unit where
  self := 0
  selfEnv := ()
  isFunction _ _ := true
  listener _ _ _ _ := .returns
  truthy _ := true
  isTestserver := false
  isObj _ := false
  order := .asStored

theorem meets_of_other_event :
    ∃ trace w, (machine plainHost 1).Reach trace w ∧ trace.length = 2 ∧ Meets plainHost w.log := by
  have reach : (machine plainHost 1).Reach _ _ :=
    .next (.next .init (e := .addListener (some ()) 1 "OnEvent" [some 7]) rfl)
      (e := .dispatchEvent 2 [some 9]) rfl
  refine ⟨_, _, reach, rfl, (meets_iff_unheard reach).mpr ?_⟩
  intro pre id eId args post split id' op key stored mem asked hears
  have dispatched : Action.start id (.dispatchEvent eId args) ∈ pre ++ _ :: post :=
    List.mem_append_right pre List.mem_cons_self
  have added := List.mem_append_left (.start id (.dispatchEvent eId args) :: post) mem
  rw [← split] at dispatched added
  have two : eId = 2 := by
    simp [machine] at dispatched
    exact dispatched.2.1
  have one : key.eId = 1 := by
    simp [machine] at added
    obtain ⟨-, rfl⟩ | ⟨-, rfl⟩ := added
    · cases asked
      rfl
    · cases asked
  have same := hears.1
  omega

/-- The listener is not called, with the arguments 7 and 9 or at all. -/
theorem not_meets_one_listener :
    ∃ trace w, (machine plainHost 1).Reach trace w ∧
      trace = [(.addListener (some ()) 1 "OnEvent" [some 7], .nil),
        (.dispatchEvent 1 [some 9], .nil)] ∧
      callsOf 1 w.log = [] ∧ ¬ Meets plainHost w.log := by
  have reach : (machine plainHost 1).Reach _ _ :=
    .next (.next .init (e := .addListener (some ()) 1 "OnEvent" [some 7]) rfl)
      (e := .dispatchEvent 1 [some 9]) rfl
  refine ⟨_, _, reach, rfl, rfl, fun meets => ?_⟩
  obtain ⟨-, calls⟩ := meets
    [.start 0 (.addListener (some ()) 1 "OnEvent" [some 7]),
      .finish 0 (.addListener (some ()) 1 "OnEvent" [some 7]) .nil] 1 1 [some 9]
    [.finish 1 (.dispatchEvent 1 [some 9]) .nil] rfl
  exact absurd calls.length_eq (by decide)

end Runs

end Qiuqiu.Exclass.Events
