import Mathlib.Data.List.Basic
import Mathlib.Logic.Relation
import Mathlib.Order.WellFounded

/-!
`Import` of lualib/extend/import.lua. A file gets a new table as its environment; its body
runs under `pcall`, then its `__init__`, and only then the file is noted in `LoadModule`. A
file that is imported while its own import goes on is started again, so a cycle of imports
goes down to the end of the stack; and so does a file behind too many others. At the end of
the stack a load and the call of an `__init__` raise; the call of a body returns false, as it
stands under `pcall`.
-/
namespace Qiuqiu.Extend.Import
variable {P : Type}

/-- The `__init__` that a body leaves in its environment. -/
inductive Init (P : Type) where
  | absent
  /-- A value that is not a function. -/
  | other
  /-- A function, with the files that it imports in the order of the calls. -/
  | function (calls : List P)

def Init.calls : Init P → List P
  | absent | other => []
  | function calls => calls

/-- What a file imports: its body in the order of the calls, and its `__init__`. -/
structure File (P : Type) where
  body : List P
  init : Init P

inductive Event (P : Type) where
  | body (path : P)
  | init (path : P)
  /-- An import has returned a table, or nil. -/
  | returned (path : P) (env : Option Nat)
  deriving DecidableEq

/-- `LoadModule`, the next table, and what has happened. -/
structure World (P : Type) where
  loadModule : P → Option Nat
  next : Nat
  log : List (Event P)

namespace World

def start : World P := ⟨fun _ => none, 0, []⟩

def note (w : World P) (e : Event P) : World P := { w with log := w.log ++ [e] }

/-- A file begins, with a table of its own. -/
def enter (w : World P) (path : P) : World P :=
  { w with next := w.next + 1 }.note (.body path)

/-- `LoadModule[filepath] = _fileG`, and the table is returned. -/
def finish [DecidableEq P] (w : World P) (path : P) (env : Nat) : World P :=
  { w with loadModule := Function.update w.loadModule path (some env) }.note
    (.returned path (some env))

end World

/-- How a call ends: it returns, or raises. -/
abbrev Ending (P α : Type) := Except Unit α × World P

/-- A file on the stack: its body runs, or its `__init__`. -/
inductive Frame (P : Type) where
  | body (path : P)
  | init (path : P)

/-- What a stack has room for: `loadfile` of a file inside these frames, the inmost one first,
and the call of the inmost of these frames inside the others. Lua bounds it by
`LUAI_MAXCCALLS` calls from C, of which each body takes one under its `pcall` and the parser
some as it reads a file, and by the slots of its stack. -/
structure Stack (P : Type) where
  loadfile : List (Frame P) → P → Bool
  call : List (Frame P) → Bool
  limit : Nat
  bounded : ∀ frames, call frames = true → frames.length ≤ limit

section Code
variable (importer : P → World P → Ending P (Option Nat))

/-- Imports one after another. -/
def imports : List P → World P → Ending P Unit
  | [], w => (.ok (), w)
  | path :: paths, w =>
      match importer path w with
      | (.ok _, w) => imports paths w
      | (.error e, w) => (.error e, w)

/-- The call of a body, where there is room for it. -/
def callBody (room : Bool) (path : P) (body : List P) (w : World P) : Ending P Unit :=
  if room then imports importer body (w.enter path) else (.error (), w)

/-- The call of `__init__`, where there is room for it. -/
def initialise (room : Bool) (path : P) : Init P → World P → Ending P Unit
  | .absent, w => (.ok (), w)
  | .other, w => (.error (), w)
  | .function calls, w =>
      if room then imports importer calls (w.note (.init path)) else (.error (), w)

variable [DecidableEq P] (files : P → Option (File P)) (stack : Stack P)

/-- `Import(path)` inside these frames, with a bound on what can still come inside. A path that
`loadfile` cannot load has no file. The body is protected by `pcall`, `__init__` is not. -/
def importFile : Nat → List (Frame P) → P → World P → Ending P (Option Nat)
  | 0, _, _, w => (.error (), w)
  | depth + 1, frames, path, w =>
      match w.loadModule path with
      | some env => (.ok (some env), w.note (.returned path (some env)))
      | none =>
          if stack.loadfile frames path then
            match files path with
            | none => (.error (), w)
            | some file =>
                match callBody (importFile depth (.body path :: frames))
                    (stack.call (.body path :: frames)) path file.body w with
                | (.error _, w₁) => (.ok none, w₁.note (.returned path none))
                | (.ok _, w₁) =>
                    match initialise (importFile depth (.init path :: frames))
                        (stack.call (.init path :: frames)) path file.init w₁ with
                    | (.error e, w₂) => (.error e, w₂)
                    | (.ok _, w₂) => (.ok (some w.next), w₂.finish path w.next)
          else (.error (), w)

/-- A service that imports these files. -/
def service (paths : List P) : Ending P Unit :=
  imports (importFile files stack (stack.limit + 1) []) paths World.start

end Code

section Spec
variable (files : P → Option (File P)) (paths : List P)

/-- The body of the file, or its `__init__`, imports the other. -/
def Edge (path path' : P) : Prop :=
  ∃ file, files path = some file ∧ (path' ∈ file.body ∨ path' ∈ file.init.calls)

def Reachable (path : P) : Prop :=
  ∃ root ∈ paths, Relation.ReflTransGen (Edge files) root path

/-- The file exists and nothing in it raises, its imports aside. -/
def Loads (path : P) : Prop :=
  ∃ file, files path = some file ∧ file.init ≠ .other

def HasInit (path : P) : Prop :=
  ∃ file calls, files path = some file ∧ file.init = .function calls

/-- Everything has returned, each file has run once, and a path has one table. -/
structure Proper [DecidableEq P] (ending : Ending P Unit) : Prop where
  returns : ending.1 = .ok ()
  body : ∀ path, Reachable files paths path → ending.2.log.count (.body path) = 1
  init : ∀ path, Reachable files paths path → HasInit files path →
    ending.2.log.count (.init path) = 1
  table : ∀ path, ∃ env, ∀ env', .returned path env' ∈ ending.2.log → env' = some env

/-- No file that is reached imports itself, directly or through others. -/
def Acyclic : Prop :=
  ∀ path, Reachable files paths path → ¬ Relation.TransGen (Edge files) path path

/-- No import of these has brought the file in. -/
def New (earlier : List P) (path : P) : Prop :=
  ∀ root ∈ earlier, ¬ Relation.ReflTransGen (Edge files) root path

/-- Inside these frames and after the earlier imports, the calls bring in a file that is new
then, and the last argument is that file with the frames around it. -/
inductive Brings : List (Frame P) → List P → List P → List (Frame P) → P → Prop
  | load {frames earlier pre path post} : New files (earlier ++ pre) path →
      Brings frames earlier (pre ++ path :: post) frames path
  | body {frames earlier pre path post file frames' path'} : New files (earlier ++ pre) path →
      files path = some file →
      Brings (.body path :: frames) (earlier ++ pre) file.body frames' path' →
      Brings frames earlier (pre ++ path :: post) frames' path'
  | init {frames earlier pre path post file frames' path'} : New files (earlier ++ pre) path →
      files path = some file →
      Brings (.init path :: frames) (earlier ++ pre ++ file.body) file.init.calls frames' path' →
      Brings frames earlier (pre ++ path :: post) frames' path'

/-- The stack has room inside these frames to load the file and to call what it has. -/
structure Stack.Room (stack : Stack P) (frames : List (Frame P)) (path : P) : Prop where
  load : stack.loadfile frames path = true
  body : stack.call (.body path :: frames) = true
  init : HasInit files path → stack.call (.init path :: frames) = true

/-- The stack has room wherever a file is brought in. -/
def HasRoom (stack : Stack P) : Prop :=
  ∀ frames path, Brings files [] [] paths frames path → stack.Room files frames path

end Spec

section Log
variable {importer : P → World P → Ending P (Option Nat)}

theorem World.log_note (w : World P) (e : Event P) : w.log <+: (w.note e).log :=
  List.prefix_append _ _

theorem imports_log (grows : ∀ path w, w.log <+: (importer path w).2.log) (paths : List P)
    (w : World P) : w.log <+: (imports importer paths w).2.log := by
  induction paths generalizing w with
  | nil => exact List.prefix_rfl
  | cons path paths ih =>
      have first := grows path w
      rw [imports]
      cases done : importer path w with
      | mk result w₁ =>
          rw [done] at first
          cases result with
          | ok _ => exact first.trans (ih w₁)
          | error _ => exact first

theorem callBody_log (grows : ∀ path w, w.log <+: (importer path w).2.log) (room : Bool)
    (path : P) (body : List P) (w : World P) :
    w.log <+: (callBody importer room path body w).2.log := by
  rw [callBody]
  split
  · have opened : w.log <+: (w.enter path).log := World.log_note _ _
    exact opened.trans (imports_log grows body _)
  · exact List.prefix_rfl

theorem initialise_log (grows : ∀ path w, w.log <+: (importer path w).2.log) (room : Bool)
    (path : P) (init : Init P) (w : World P) :
    w.log <+: (initialise importer room path init w).2.log := by
  cases init with
  | absent | other => exact List.prefix_rfl
  | function calls =>
      rw [initialise]
      split
      · exact (w.log_note _).trans (imports_log grows calls _)
      · exact List.prefix_rfl

theorem callBody_ok {room : Bool} {path : P} {body : List P} {w w' : World P}
    (run : callBody importer room path body w = (.ok (), w')) :
    room = true ∧ imports importer body (w.enter path) = (.ok (), w') := by
  rw [callBody] at run
  split at run
  · rename_i room
    exact ⟨room, run⟩
  · cases run

theorem initialise_ok {room : Bool} {path : P} {calls : List P} {w w' : World P}
    (run : initialise importer room path (.function calls) w = (.ok (), w')) :
    room = true ∧ imports importer calls (w.note (.init path)) = (.ok (), w') := by
  rw [initialise] at run
  split at run
  · rename_i room
    exact ⟨room, run⟩
  · cases run

variable [DecidableEq P] (files : P → Option (File P)) (stack : Stack P)

/-- What has happened stays in the log. -/
theorem importFile_log (depth : Nat) (frames : List (Frame P)) (path : P) (w : World P) :
    w.log <+: (importFile files stack depth frames path w).2.log := by
  induction depth generalizing frames path w with
  | zero => exact List.prefix_rfl
  | succ depth ih =>
      rw [importFile]
      cases w.loadModule path with
      | some env => exact w.log_note _
      | none =>
          dsimp only
          split
          · cases files path with
            | none => exact List.prefix_rfl
            | some file =>
                have first := callBody_log (ih (.body path :: frames))
                  (stack.call (.body path :: frames)) path file.body w
                dsimp only
                cases body : callBody (importFile files stack depth (.body path :: frames))
                    (stack.call (.body path :: frames)) path file.body w with
                | mk result w₁ =>
                    rw [body] at first
                    cases result with
                    | error _ => exact first.trans (w₁.log_note _)
                    | ok _ =>
                        have second := first.trans (initialise_log (ih (.init path :: frames))
                          (stack.call (.init path :: frames)) path file.init w₁)
                        dsimp only
                        cases init : initialise
                            (importFile files stack depth (.init path :: frames))
                            (stack.call (.init path :: frames)) path file.init w₁ with
                        | mk result w₂ =>
                            rw [init] at second
                            cases result with
                            | error _ => exact second
                            | ok _ => exact second.trans (World.log_note _ _)
          · exact List.prefix_rfl

end Log

section Settled
variable (files : P → Option (File P))

/-- No import has returned nil. -/
def Clean (w : World P) : Prop := ∀ path, .returned path none ∉ w.log

/-- What is loaded rests on files that are loaded, and on no cycle. -/
def Settled (w : World P) : Prop :=
  ∀ path, (w.loadModule path).isSome →
    Acc (fun path' path => Edge files path path') path ∧
      ∀ path', Edge files path path' → (w.loadModule path').isSome

/-- The later world is settled, has these files loaded and has lost none. -/
structure Settles (paths : List P) (w w' : World P) : Prop where
  settled : Settled files w'
  loaded : ∀ path ∈ paths, (w'.loadModule path).isSome
  kept : ∀ path, (w.loadModule path).isSome → (w'.loadModule path).isSome

variable {files} {importer : P → World P → Ending P (Option Nat)}

theorem Edge.calls {path path' : P} {file : File P} (edge : Edge files path path')
    (found : files path = some file) : path' ∈ file.body ∨ path' ∈ file.init.calls := by
  obtain ⟨file', found', mem⟩ := edge
  rw [found, Option.some.injEq] at found'
  exact found' ▸ mem

theorem Clean.of_prefix {w w' : World P} (clean : Clean w') (grows : w.log <+: w'.log) :
    Clean w :=
  fun path mem => clean path (grows.subset mem)

theorem imports_settles (grows : ∀ path w, w.log <+: (importer path w).2.log)
    (one : ∀ path w env w', importer path w = (.ok env, w') → Clean w' → Settled files w →
      Settles files [path] w w')
    {paths : List P} {w w' : World P} (run : imports importer paths w = (.ok (), w'))
    (clean : Clean w') (settled : Settled files w) : Settles files paths w w' := by
  induction paths generalizing w with
  | nil =>
      cases run
      exact ⟨settled, by simp, fun _ h => h⟩
  | cons path paths ih =>
      rw [imports] at run
      cases first : importer path w with
      | mk result w₁ =>
          rw [first] at run
          cases result with
          | error _ => cases run
          | ok env =>
              have later : w₁.log <+: w'.log := by
                have := imports_log grows paths w₁
                rwa [show imports importer paths w₁ = (.ok (), w') from run] at this
              have head := one path w env w₁ first (clean.of_prefix later) settled
              have rest := ih run head.settled
              refine ⟨rest.settled, ?_, fun r h => rest.kept r (head.kept r h)⟩
              intro r mem
              cases List.mem_cons.mp mem with
              | inl same =>
                  subst same
                  exact rest.kept r (head.loaded r (List.mem_singleton_self r))
              | inr mem => exact rest.loaded r mem

theorem initialise_settles (grows : ∀ path w, w.log <+: (importer path w).2.log)
    (one : ∀ path w env w', importer path w = (.ok env, w') → Clean w' → Settled files w →
      Settles files [path] w w')
    {room : Bool} {path : P} {init : Init P} {w w' : World P}
    (run : initialise importer room path init w = (.ok (), w')) (clean : Clean w')
    (settled : Settled files w) : Settles files init.calls w w' := by
  cases init with
  | absent =>
      cases run
      exact ⟨settled, by simp [Init.calls], fun _ h => h⟩
  | other => cases run
  | function calls =>
      have rest := imports_settles grows one (initialise_ok run).2 clean settled
      exact ⟨rest.settled, rest.loaded, rest.kept⟩

variable [DecidableEq P]

theorem World.isSome_finish {w : World P} {path r : P} {env : Nat} :
    ((w.finish path env).loadModule r).isSome ↔ r = path ∨ (w.loadModule r).isSome := by
  by_cases same : r = path
  · subst same
    simp [World.finish, World.note]
  · simp [World.finish, World.note, same]

/-- The file is noted when everything that it imports is. -/
theorem finish_settles {w₁ w₂ : World P} {path : P} {file : File P} {env : Nat} {w : World P}
    (found : files path = some file) (body : Settles files file.body w w₁)
    (init : Settles files file.init.calls w₁ w₂) :
    Settles files [path] w (w₂.finish path env) := by
  have below : ∀ r, Edge files path r → (w₂.loadModule r).isSome := by
    intro r edge
    cases edge.calls found with
    | inl mem => exact init.kept r (body.loaded r mem)
    | inr mem => exact init.loaded r mem
  refine ⟨?_, ?_, ?_⟩
  · intro r loaded
    cases World.isSome_finish.mp loaded with
    | inl same =>
        subst same
        refine ⟨Acc.intro _ fun r' edge => (init.settled r' (below r' edge)).1, ?_⟩
        intro r' edge
        exact World.isSome_finish.mpr (.inr (below r' edge))
    | inr loaded =>
        refine ⟨(init.settled r loaded).1, fun r' edge => ?_⟩
        exact World.isSome_finish.mpr (.inr ((init.settled r loaded).2 r' edge))
  · intro r mem
    exact World.isSome_finish.mpr (.inl (List.mem_singleton.mp mem))
  · intro r loaded
    exact World.isSome_finish.mpr (.inr (init.kept r (body.kept r loaded)))

variable {stack : Stack P} {frames : List (Frame P)}

/-- An import that returns has found the file, or has run it to its end. -/
theorem importFile_returns {depth : Nat} {path : P} {w w' : World P} {env : Option Nat}
    (run : importFile files stack (depth + 1) frames path w = (.ok env, w')) (clean : Clean w') :
    (∃ env', w.loadModule path = some env' ∧ w' = w.note (.returned path (some env'))) ∨
    ∃ file w₁ w₂, files path = some file ∧ stack.Room files frames path ∧
      imports (importFile files stack depth (.body path :: frames)) file.body (w.enter path) =
        (.ok (), w₁) ∧
      initialise (importFile files stack depth (.init path :: frames))
        (stack.call (.init path :: frames)) path file.init w₁ = (.ok (), w₂) ∧
      w' = w₂.finish path w.next := by
  rw [importFile] at run
  cases known : w.loadModule path with
  | some env' =>
      simp only [known, Prod.mk.injEq] at run
      exact .inl ⟨env', rfl, run.2.symm⟩
  | none =>
      simp only [known] at run
      split at run
      · rename_i load
        cases found : files path with
        | none => simp [found] at run
        | some file =>
            simp only [found] at run
            cases body : callBody (importFile files stack depth (.body path :: frames))
                (stack.call (.body path :: frames)) path file.body w with
            | mk result w₁ =>
                simp only [body] at run
                cases result with
                | error _ =>
                    -- The body raised under `pcall`: this import has returned nil.
                    simp only [Prod.mk.injEq] at run
                    rw [← run.2] at clean
                    exact absurd (by simp [World.note]) (clean path)
                | ok _ =>
                    cases init : initialise (importFile files stack depth (.init path :: frames))
                        (stack.call (.init path :: frames)) path file.init w₁ with
                    | mk result w₂ =>
                        simp only [init] at run
                        cases result with
                        | error _ => cases run
                        | ok _ =>
                            simp only [Prod.mk.injEq] at run
                            obtain ⟨called, ran⟩ := callBody_ok body
                            refine .inr ⟨file, w₁, w₂, rfl, ⟨load, called, ?_⟩, ran, init,
                              run.2.symm⟩
                            rintro ⟨file', calls, found', function⟩
                            rw [found, Option.some.injEq] at found'
                            rw [found', function] at init
                            exact (initialise_ok init).1
      · cases run

/-- An import that returns, with no import inside it that returned nil, has loaded the file
and everything below it. -/
theorem importFile_settles (depth : Nat) :
    ∀ frames path w env w', importFile files stack depth frames path w = (.ok env, w') →
      Clean w' → Settled files w → Settles files [path] w w' := by
  induction depth with
  | zero =>
      intro frames path w env w' run
      cases run
  | succ depth ih =>
      intro frames path w env w' run clean settled
      cases importFile_returns run clean with
      | inl found =>
          obtain ⟨env', known, same⟩ := found
          rw [same]
          refine ⟨settled, ?_, fun _ h => h⟩
          intro r mem
          rw [List.mem_singleton.mp mem]
          exact Option.isSome_of_eq_some known
      | inr ran =>
          obtain ⟨file, w₁, w₂, found, _, body, init, same⟩ := ran
          rw [same] at clean ⊢
          have clean₂ : Clean w₂ := clean.of_prefix (World.log_note _ _)
          have grows := initialise_log (importFile_log files stack depth (.init path :: frames))
            (stack.call (.init path :: frames)) path file.init w₁
          rw [init] at grows
          have first : Settles files file.body (w.enter path) w₁ :=
            imports_settles (importFile_log files stack depth _) (ih _) body
              (clean₂.of_prefix grows) settled
          have second := initialise_settles (importFile_log files stack depth _) (ih _) init clean₂
            first.settled
          exact finish_settles found ⟨first.settled, first.loaded, first.kept⟩ second

omit [DecidableEq P] in
theorem Settled.of_reaches {w : World P} {path path' : P} (settled : Settled files w)
    (reaches : Relation.ReflTransGen (Edge files) path path')
    (loaded : (w.loadModule path).isSome) : (w.loadModule path').isSome := by
  induction reaches with
  | refl => exact loaded
  | tail _ edge ih => exact (settled _ ih).2 _ edge

/-- What a run of the service has loaded when no import returned nil. -/
theorem service_loaded {paths : List P} {w : World P}
    (run : service files stack paths = (.ok (), w)) (clean : Clean w) {path : P}
    (reachable : Reachable files paths path) :
    Settled files w ∧ (w.loadModule path).isSome := by
  have settles := imports_settles (importFile_log files stack _ _) (importFile_settles _ _) run
    clean (fun _ loaded => by cases loaded)
  obtain ⟨root, mem, reaches⟩ := reachable
  exact ⟨settles.settled, settles.settled.of_reaches reaches (settles.loaded root mem)⟩

omit [DecidableEq P] in
theorem not_transGen_of_acc {path : P}
    (acc : Acc (fun path' path => Edge files path path') path) :
    ¬ Relation.TransGen (Edge files) path path := by
  intro cycle
  have back : Relation.TransGen (fun path' path => Edge files path path') path path :=
    Relation.transGen_swap.mpr cycle
  induction acc.transGen with
  | intro path _ ih => exact ih path back (acc.inv_of_transGen back) cycle back

end Settled

end Qiuqiu.Extend.Import
