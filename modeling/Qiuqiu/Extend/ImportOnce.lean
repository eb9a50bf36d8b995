import Mathlib.Data.Set.Basic
import Qiuqiu.Extend.Import

/-!
Each file runs once: without a cycle, and with room on the stack, an import runs the bodies
and the `__init__`s of what it reaches once each and gives each path one table; with a cycle,
or without the room, an import returns nil or raises.
-/
namespace Qiuqiu.Extend.Import
variable {P : Type}

section Views
variable [DecidableEq P]

/-- What the log and `LoadModule` say about one path. -/
structure View where
  bodies : Nat
  inits : Nat
  table : Option Nat
  returned : List (Option Nat)

def Event.answer (path : P) : Event P → Option (Option Nat)
  | body _ | init _ => none
  | returned path' env => if path' = path then some env else none

namespace World

def view (w : World P) (path : P) : View where
  bodies := w.log.count (.body path)
  inits := w.log.count (.init path)
  table := w.loadModule path
  returned := w.log.filterMap (Event.answer path)

/-- The world in which `__init__` is called. -/
def begins (w : World P) (path : P) : Init P → World P
  | .absent | .other => w
  | .function _ => w.note (.init path)

variable {w : World P} {path path' : P} {env : Nat}

theorem view_enter :
    (w.enter path).view path = { w.view path with bodies := (w.view path).bodies + 1 } := by
  simp [view, enter, note, Event.answer]

theorem view_enter_of_ne (ne : path' ≠ path) : (w.enter path).view path' = w.view path' := by
  simp [view, enter, note, Event.answer, ne.symm]

theorem view_begins (w : World P) (path : P) (init : Init P) :
    ∃ count, (w.begins path init).view path =
        { w.view path with inits := (w.view path).inits + count } ∧
      ∀ calls, init = .function calls → count = 1 := by
  cases init with
  | absent | other => exact ⟨0, rfl, fun _ h => by cases h⟩
  | function calls =>
      refine ⟨1, ?_, fun _ _ => rfl⟩
      simp [view, begins, note, Event.answer]

theorem view_begins_of_ne (ne : path' ≠ path) (init : Init P) :
    (w.begins path init).view path' = w.view path' := by
  cases init with
  | absent | other => rfl
  | function calls => simp [view, begins, note, Event.answer, ne.symm]

theorem view_returned :
    (w.note (.returned path (some env))).view path =
      { w.view path with returned := (w.view path).returned ++ [some env] } := by
  simp [view, note, Event.answer]

theorem view_returned_of_ne (ne : path' ≠ path) :
    (w.note (.returned path (some env))).view path' = w.view path' := by
  simp [view, note, Event.answer, ne.symm]

theorem view_finish :
    (w.finish path env).view path =
      { w.view path with
        table := some env
        returned := (w.view path).returned ++ [some env] } := by
  simp [view, finish, note, Event.answer]

theorem view_finish_of_ne (ne : path' ≠ path) :
    (w.finish path env).view path' = w.view path' := by
  simp [view, finish, note, Event.answer, ne, ne.symm]

end World

/-- The path has been run once if it is loaded and has not been run else, and every import of
it has returned the table that is loaded. -/
structure View.Once (hasInit : Prop) (v : View) : Prop where
  fresh : v.table = none → v.bodies = 0 ∧ v.inits = 0
  ran : v.table.isSome → v.bodies = 1 ∧ (hasInit → v.inits = 1)
  answers : ∀ env ∈ v.returned, env.isSome ∧ env = v.table

variable (files : P → Option (File P))

/-- What happens between two worlds is about these paths, and they stay in order. -/
structure Within (scope : Set P) (w w' : World P) : Prop where
  same : ∀ path, path ∉ scope → w'.view path = w.view path
  once : (∀ path ∈ scope, (w.view path).Once (HasInit files path)) →
    ∀ path ∈ scope, (w'.view path).Once (HasInit files path)

variable {files}

theorem Within.refl (scope : Set P) (w : World P) : Within files scope w w :=
  ⟨fun _ _ => rfl, fun once => once⟩

theorem Within.trans {scope : Set P} {w w₁ w₂ : World P} (first : Within files scope w w₁)
    (second : Within files scope w₁ w₂) : Within files scope w w₂ where
  same path out := (second.same path out).trans (first.same path out)
  once once := second.once (first.once once)

theorem Within.mono {scope scope' : Set P} {w w' : World P} (within : Within files scope w w')
    (sub : scope ⊆ scope') : Within files scope' w w' where
  same path out := within.same path fun mem => out (sub mem)
  once once path mem := by
    by_cases inside : path ∈ scope
    · exact within.once (fun r mem => once r (sub mem)) path inside
    · rw [within.same path inside]
      exact once path mem

end Views

section Once
variable [DecidableEq P] {files : P → Option (File P)}

/-- After the earlier imports, the importer returns a table and stays within the scope. -/
def Serves (files : P → Option (File P)) (importer : P → World P → Ending P (Option Nat))
    (scope : Set P) (earlier : List P) (path : P) : Prop :=
  ∀ w, Settled files w → (∀ r ∈ earlier, (w.loadModule r).isSome) →
    ∃ env w', importer path w = (.ok (some env), w') ∧ Within files scope w w' ∧
      Settles files [path] w w'

theorem imports_within {importer : P → World P → Ending P (Option Nat)} {scope : Set P}
    {earlier paths : List P}
    (serves : ∀ pre path post, paths = pre ++ path :: post →
      Serves files importer scope (earlier ++ pre) path)
    {w : World P} (settled : Settled files w) (loaded : ∀ r ∈ earlier, (w.loadModule r).isSome) :
    ∃ w', imports importer paths w = (.ok (), w') ∧ Within files scope w w' ∧
      Settles files paths w w' := by
  induction paths generalizing earlier w with
  | nil => exact ⟨w, rfl, Within.refl scope w, settled, by simp, fun _ h => h⟩
  | cons path paths ih =>
      obtain ⟨env, w₁, first, within, settles⟩ :=
        serves [] path paths rfl w settled (by simpa using loaded)
      have later : ∀ pre r post, paths = pre ++ r :: post →
          Serves files importer scope ((earlier ++ [path]) ++ pre) r := by
        intro pre r post split
        have := serves (path :: pre) r post (by rw [split]; rfl)
        rwa [List.append_assoc]
      have known : ∀ r ∈ earlier ++ [path], (w₁.loadModule r).isSome := by
        intro r mem
        cases List.mem_append.mp mem with
        | inl mem => exact settles.kept r (loaded r mem)
        | inr mem => exact settles.loaded r mem
      obtain ⟨w', rest, within', settles'⟩ := ih later settles.settled known
      refine ⟨w', ?_, within.trans within', settles'.settled, ?_,
        fun r h => settles'.kept r (settles.kept r h)⟩
      · rw [imports, first]
        exact rest
      · intro r mem
        cases List.mem_cons.mp mem with
        | inl same =>
            subst same
            exact settles'.kept r (settles.loaded r (List.mem_singleton_self r))
        | inr mem => exact settles'.loaded r mem

theorem initialise_within {importer : P → World P → Ending P (Option Nat)} {scope : Set P}
    {init : Init P} {earlier : List P} {room : Bool}
    (serves : ∀ pre path post, init.calls = pre ++ path :: post →
      Serves files importer scope (earlier ++ pre) path)
    (callable : init ≠ .other) (roomy : ∀ calls, init = .function calls → room = true) (path : P)
    {w : World P} (settled : Settled files w)
    (loaded : ∀ r ∈ earlier, (w.loadModule r).isSome) :
    ∃ w', initialise importer room path init w = (.ok (), w') ∧
      Within files scope (w.begins path init) w' ∧ Settles files init.calls w w' := by
  cases init with
  | absent => exact ⟨w, rfl, Within.refl scope w, settled, by simp [Init.calls], fun _ h => h⟩
  | other => exact absurd rfl callable
  | function calls =>
      obtain ⟨w', run, within, settles⟩ :=
        imports_within serves (w := w.note (.init path)) settled loaded
      refine ⟨w', ?_, within, settles.settled, settles.loaded, settles.kept⟩
      rw [initialise, if_pos (roomy calls rfl)]
      exact run

/-- A loaded path is answered from `LoadModule`. -/
theorem within_returned {path : P} {w : World P} {env : Nat}
    (known : w.loadModule path = some env) :
    Within files {path} w (w.note (.returned path (some env))) where
  same r out := World.view_returned_of_ne out
  once once r mem := by
    rw [Set.mem_singleton_iff] at mem
    subst mem
    have before := once r rfl
    rw [World.view_returned]
    refine ⟨before.fresh, before.ran, ?_⟩
    intro env' mem
    cases List.mem_append.mp mem with
    | inl mem => exact before.answers env' mem
    | inr mem =>
        rw [List.mem_singleton.mp mem]
        exact ⟨rfl, known.symm⟩

/-- The view of a file that was not loaded, from its start to its end, when nothing between
is about the file itself. -/
theorem view_ran {path : P} {file : File P} {scope : Set P} {w w₁ w₂ : World P}
    (found : files path = some file) (out : path ∉ scope) (known : w.loadModule path = none)
    (body : Within files scope (w.enter path) w₁)
    (init : Within files scope (w₁.begins path file.init) w₂) (env : Nat)
    (before : (w.view path).Once (HasInit files path)) :
    ((w₂.finish path env).view path).Once (HasInit files path) := by
  obtain ⟨count, begun, counted⟩ := World.view_begins w₁ path file.init
  have view : (w₂.finish path env).view path =
      { bodies := (w.view path).bodies + 1
        inits := (w.view path).inits + count
        table := some env
        returned := (w.view path).returned ++ [some env] } := by
    rw [World.view_finish, init.same path out, begun, body.same path out, World.view_enter]
  obtain ⟨noBody, noInit⟩ := before.fresh known
  rw [view]
  refine ⟨fun missing => (by cases missing), fun _ => ⟨by simp [noBody], ?_⟩, ?_⟩
  · intro hasInit
    obtain ⟨file', calls, found', function⟩ := hasInit
    rw [found, Option.some.injEq] at found'
    subst found'
    simp [noInit, counted calls function]
  · intro env' mem
    cases List.mem_append.mp mem with
    | inl mem =>
        -- A table that was returned before would be in `LoadModule`.
        have answer := before.answers env' mem
        rw [answer.2, show (w.view path).table = none from known] at answer
        cases answer.1
    | inr mem =>
        rw [List.mem_singleton.mp mem]
        exact ⟨rfl, rfl⟩

theorem within_ran {path : P} {file : File P} {scope : Set P} {w w₁ w₂ : World P}
    (found : files path = some file) (out : path ∉ scope) (known : w.loadModule path = none)
    (body : Within files scope (w.enter path) w₁)
    (init : Within files scope (w₁.begins path file.init) w₂) (env : Nat) :
    Within files (insert path scope) w (w₂.finish path env) where
  same r outside := by
    rw [Set.mem_insert_iff, not_or] at outside
    rw [World.view_finish_of_ne outside.1, init.same r outside.2,
      World.view_begins_of_ne outside.1, body.same r outside.2,
      World.view_enter_of_ne outside.1]
  once once := by
    have ne : ∀ r ∈ scope, r ≠ path := fun r mem same => out (same ▸ mem)
    have first : ∀ r ∈ scope, (w₁.view r).Once (HasInit files r) := by
      apply body.once
      intro r mem
      rw [World.view_enter_of_ne (ne r mem)]
      exact once r (Set.mem_insert_of_mem path mem)
    have second : ∀ r ∈ scope, (w₂.view r).Once (HasInit files r) := by
      apply init.once
      intro r mem
      rw [World.view_begins_of_ne (ne r mem)]
      exact first r mem
    intro r mem
    cases Set.mem_insert_iff.mp mem with
    | inl same =>
        subst same
        exact view_ran found out known body init env (once r (Set.mem_insert r scope))
    | inr mem =>
        rw [World.view_finish_of_ne (ne r mem)]
        exact second r mem

/-- The files that the import of a path is about. -/
def scopeOf (files : P → Option (File P)) (path : P) : Set P :=
  { r | Relation.ReflTransGen (Edge files) path r }

/-- A file that does not import itself is served when everything it imports is. -/
theorem serves_succ {stack : Stack P} {depth : Nat} {frames : List (Frame P)} {path : P}
    {earlier : List P} (loads : Loads files path)
    (acyclic : ¬ Relation.TransGen (Edge files) path path)
    (room : New files earlier path → stack.Room files frames path)
    (body : New files earlier path → ∀ file, files path = some file →
      ∀ pre r post, file.body = pre ++ r :: post →
        Serves files (importFile files stack depth (.body path :: frames)) (scopeOf files r)
          (earlier ++ pre) r)
    (init : New files earlier path → ∀ file, files path = some file →
      ∀ pre r post, file.init.calls = pre ++ r :: post →
        Serves files (importFile files stack depth (.init path :: frames)) (scopeOf files r)
          (earlier ++ file.body ++ pre) r) :
    Serves files (importFile files stack (depth + 1) frames) (scopeOf files path) earlier path := by
  intro w settled loaded
  cases known : w.loadModule path with
  | some env =>
      refine ⟨env, w.note (.returned path (some env)), by simp [importFile, known], ?_,
        settled, ?_, fun _ h => h⟩
      · apply (within_returned known).mono
        intro r mem
        rw [Set.mem_singleton_iff.mp mem]
        exact Relation.ReflTransGen.refl
      · intro r mem
        rw [List.mem_singleton.mp mem]
        exact Option.isSome_of_eq_some known
  | none =>
      have new : New files earlier path := by
        intro root mem reaches
        have := settled.of_reaches reaches (loaded root mem)
        rw [known] at this
        cases this
      obtain ⟨file, found, callable⟩ := loads
      have below : ∀ {importer r earlier}, Edge files path r →
          Serves files importer (scopeOf files r) earlier r →
          Serves files importer { r | Relation.TransGen (Edge files) path r } earlier r := by
        intro importer r earlier edge serves w settled loaded
        obtain ⟨env, w', run, within, settles⟩ := serves w settled loaded
        exact ⟨env, w', run, within.mono fun r' reaches => .head' edge reaches, settles⟩
      obtain ⟨w₁, first, within₁, settles₁⟩ := imports_within
        (fun pre r post split => below ⟨file, found, .inl (by simp [split])⟩
          (body new file found pre r post split))
        (w := w.enter path) settled loaded
      have known₁ : ∀ r ∈ earlier ++ file.body, (w₁.loadModule r).isSome := by
        intro r mem
        cases List.mem_append.mp mem with
        | inl mem => exact settles₁.kept r (loaded r mem)
        | inr mem => exact settles₁.loaded r mem
      obtain ⟨w₂, second, within₂, settles₂⟩ := initialise_within
        (fun pre r post split => below ⟨file, found, .inr (by simp [split])⟩
          (init new file found pre r post split))
        callable (fun calls function => (room new).init ⟨file, calls, found, function⟩) path
        settles₁.settled known₁
      have called : callBody (importFile files stack depth (.body path :: frames))
          (stack.call (.body path :: frames)) path file.body w = (.ok (), w₁) := by
        rw [callBody, if_pos (room new).body]
        exact first
      refine ⟨w.next, w₂.finish path w.next,
        by simp [importFile, known, (room new).load, found, called, second], ?_,
        finish_settles found ⟨settles₁.settled, settles₁.loaded, settles₁.kept⟩ settles₂⟩
      apply (within_ran found acyclic known within₁ within₂ w.next).mono
      intro r mem
      cases Set.mem_insert_iff.mp mem with
      | inl same =>
          subst same
          exact Relation.ReflTransGen.refl
      | inr reaches => exact Relation.TransGen.to_reflTransGen reaches

end Once

section Main
variable [DecidableEq P] {files : P → Option (File P)} {paths : List P}

omit [DecidableEq P] in
theorem Reachable.edge {path path' : P} (reachable : Reachable files paths path)
    (edge : Edge files path path') : Reachable files paths path' := by
  obtain ⟨root, mem, reaches⟩ := reachable
  exact ⟨root, mem, reaches.tail edge⟩

omit [DecidableEq P] in
theorem Reachable.transGen {path path' : P} (reachable : Reachable files paths path)
    (reaches : Relation.TransGen (Edge files) path path') : Reachable files paths path' := by
  obtain ⟨root, mem, reaches'⟩ := reachable
  exact ⟨root, mem, reaches'.trans reaches.to_reflTransGen⟩

/-- Where the stack has room for what is brought in, every call is served. -/
theorem HasRoom.serves {stack : Stack P} (acyclic : Acyclic files paths)
    (loads : ∀ path, Reachable files paths path → Loads files path) :
    ∀ depth frames earlier calls, depth + frames.length = stack.limit →
      (∀ path ∈ calls, Reachable files paths path) →
      (∀ frames' path, Brings files frames earlier calls frames' path →
        stack.Room files frames' path) →
      ∀ pre path post, calls = pre ++ path :: post →
        Serves files (importFile files stack (depth + 1) frames) (scopeOf files path)
          (earlier ++ pre) path := by
  intro depth
  induction depth with
  | zero =>
      intro frames earlier calls limit reachable room pre path post split
      subst split
      have reached := reachable path (by simp)
      have full : New files (earlier ++ pre) path → stack.Room files frames path :=
        fun new => room frames path (.load new)
      have none : ¬ New files (earlier ++ pre) path := by
        intro new
        have := stack.bounded _ (full new).body
        rw [List.length_cons] at this
        omega
      exact serves_succ (loads path reached) (acyclic path reached) full
        (fun new => absurd new none) (fun new => absurd new none)
  | succ depth ih =>
      intro frames earlier calls limit reachable room pre path post split
      subst split
      have reached := reachable path (by simp)
      apply serves_succ (loads path reached) (acyclic path reached)
        fun new => room frames path (.load new)
      · intro new file found
        apply ih (.body path :: frames) (earlier ++ pre) file.body
        · rw [List.length_cons]
          omega
        · exact fun r mem => reached.edge ⟨file, found, .inl mem⟩
        · exact fun frames' r brings => room frames' r (.body new found brings)
      · intro new file found
        apply ih (.init path :: frames) (earlier ++ pre ++ file.body) file.init.calls
        · rw [List.length_cons]
          omega
        · exact fun r mem => reached.edge ⟨file, found, .inr mem⟩
        · exact fun frames' r brings => room frames' r (.init new found brings)

theorem mem_returned {w : World P} {path : P} {env : Option Nat}
    (mem : .returned path env ∈ w.log) : env ∈ (w.view path).returned :=
  List.mem_filterMap.mpr ⟨_, mem, by simp [Event.answer]⟩

/-- A run of the service that stays in order is proper. -/
theorem proper_of_within {stack : Stack P} {w : World P}
    (run : service files stack paths = (.ok (), w))
    (within : Within files { path | Reachable files paths path } World.start w) :
    Proper files paths (service files stack paths) := by
  have once : ∀ path, Reachable files paths path →
      (w.view path).Once (HasInit files path) := by
    apply within.once
    intro path _
    exact ⟨fun _ => ⟨rfl, rfl⟩, fun loaded => (by cases loaded), fun _ mem => (by cases mem)⟩
  have answers : ∀ path env, .returned path env ∈ w.log →
      env.isSome ∧ env = w.loadModule path := by
    intro path env mem
    have mem := mem_returned mem
    by_cases reachable : Reachable files paths path
    · exact (once path reachable).answers env mem
    · rw [within.same path reachable] at mem
      cases mem
  have clean : Clean w := fun path mem => by cases (answers path none mem).1
  have loaded : ∀ path, Reachable files paths path → (w.loadModule path).isSome :=
    fun path reachable => (service_loaded run clean reachable).2
  rw [run]
  refine ⟨rfl, ?_, ?_, ?_⟩
  · intro path reachable
    exact ((once path reachable).ran (loaded path reachable)).1
  · intro path reachable hasInit
    exact ((once path reachable).ran (loaded path reachable)).2 hasInit
  · intro path
    cases table : w.loadModule path with
    | none =>
        refine ⟨0, fun env mem => ?_⟩
        obtain ⟨answered, same⟩ := answers path env mem
        rw [same, table] at answered
        cases answered
    | some env => exact ⟨env, fun env' mem => (answers path env' mem).2.trans table⟩

theorem Acyclic.proper {stack : Stack P} (acyclic : Acyclic files paths)
    (room : HasRoom files paths stack)
    (loads : ∀ path, Reachable files paths path → Loads files path) :
    Proper files paths (service files stack paths) := by
  have root : ∀ path ∈ paths, Reachable files paths path := fun path mem => ⟨path, mem, .refl⟩
  have all : ∀ pre path post, paths = pre ++ path :: post →
      Serves files (importFile files stack (stack.limit + 1) [])
        { path | Reachable files paths path } ([] ++ pre) path := by
    intro pre path post split w settled loaded
    have serves := HasRoom.serves acyclic loads stack.limit [] [] paths rfl root room
      pre path post split
    obtain ⟨env, w', run, within, settles⟩ := serves w settled loaded
    have mem : path ∈ paths := by simp [split]
    exact ⟨env, w', run, within.mono fun r reaches => ⟨path, mem, reaches⟩, settles⟩
  obtain ⟨w, run, within, _⟩ :=
    imports_within all (w := World.start) (fun _ loaded => by cases loaded) (by simp)
  exact proper_of_within run within

/-- What a run loads is imported, directly or through others. -/
def Only (files : P → Option (File P)) (paths : List P) (w w' : World P) : Prop :=
  ∀ r, (w'.loadModule r).isSome → (w.loadModule r).isSome ∨ Reachable files paths r

omit [DecidableEq P] in
theorem imports_only {importer : P → World P → Ending P (Option Nat)}
    (one : ∀ path w, Only files [path] w (importer path w).2) (calls : List P) (w : World P) :
    Only files calls w (imports importer calls w).2 := by
  induction calls generalizing w with
  | nil => exact fun _ loaded => .inl loaded
  | cons path calls ih =>
      have first := one path w
      have inside : ∀ r, Reachable files [path] r → Reachable files (path :: calls) r := by
        rintro r ⟨root, mem, reaches⟩
        exact ⟨root, List.mem_cons.mpr (.inl (List.mem_singleton.mp mem)), reaches⟩
      rw [imports]
      cases done : importer path w with
      | mk result w₁ =>
          rw [done] at first
          cases result with
          | error _ => exact fun r loaded => (first r loaded).imp id (inside r)
          | ok _ =>
              intro r loaded
              cases ih w₁ r loaded with
              | inl before => exact (first r before).imp id (inside r)
              | inr later =>
                  obtain ⟨root, mem, reaches⟩ := later
                  exact .inr ⟨root, List.mem_cons_of_mem path mem, reaches⟩

omit [DecidableEq P] in
theorem callBody_only {importer : P → World P → Ending P (Option Nat)}
    (one : ∀ path w, Only files [path] w (importer path w).2) (room : Bool) (path : P)
    (body : List P) (w : World P) : Only files body w (callBody importer room path body w).2 := by
  rw [callBody]
  split
  · exact imports_only one body (w.enter path)
  · exact fun _ loaded => .inl loaded

omit [DecidableEq P] in
theorem initialise_only {importer : P → World P → Ending P (Option Nat)}
    (one : ∀ path w, Only files [path] w (importer path w).2) (room : Bool) (path : P)
    (init : Init P) (w : World P) :
    Only files init.calls w (initialise importer room path init w).2 := by
  cases init with
  | absent | other => exact fun _ loaded => .inl loaded
  | function calls =>
      rw [initialise]
      split
      · exact imports_only one calls _
      · exact fun _ loaded => .inl loaded

variable (files) in
theorem importFile_only (stack : Stack P) (depth : Nat) (frames : List (Frame P)) (path : P)
    (w : World P) : Only files [path] w (importFile files stack depth frames path w).2 := by
  induction depth generalizing frames path w with
  | zero => exact fun _ loaded => .inl loaded
  | succ depth ih =>
      rw [importFile]
      cases w.loadModule path with
      | some env => exact fun _ loaded => .inl loaded
      | none =>
          dsimp only
          split
          · cases found : files path with
            | none => exact fun _ loaded => .inl loaded
            | some file =>
                have up : ∀ calls, (∀ r ∈ calls, Edge files path r) →
                    ∀ r, Reachable files calls r → Reachable files [path] r := by
                  rintro calls edges r ⟨root, mem, reaches⟩
                  exact ⟨path, List.mem_singleton_self path, .head (edges root mem) reaches⟩
                have first := callBody_only (ih (.body path :: frames))
                  (stack.call (.body path :: frames)) path file.body w
                have inBody := up file.body fun r mem => ⟨file, found, .inl mem⟩
                have inInit := up file.init.calls fun r mem => ⟨file, found, .inr mem⟩
                dsimp only
                cases body : callBody (importFile files stack depth (.body path :: frames))
                    (stack.call (.body path :: frames)) path file.body w with
                | mk result w₁ =>
                    rw [body] at first
                    cases result with
                    | error _ => exact fun r loaded => (first r loaded).imp id (inBody r)
                    | ok _ =>
                        have second := initialise_only (ih (.init path :: frames))
                          (stack.call (.init path :: frames)) path file.init w₁
                        have both : ∀ r, ((initialise (importFile files stack depth
                            (.init path :: frames)) (stack.call (.init path :: frames)) path
                            file.init w₁).2.loadModule r).isSome →
                            (w.loadModule r).isSome ∨ Reachable files [path] r := by
                          intro r loaded
                          cases second r loaded with
                          | inl before => exact (first r before).imp id (inBody r)
                          | inr later => exact .inr (inInit r later)
                        dsimp only
                        cases init : initialise
                            (importFile files stack depth (.init path :: frames))
                            (stack.call (.init path :: frames)) path file.init w₁ with
                        | mk result w₂ =>
                            rw [init] at both
                            cases result with
                            | error _ => exact both
                            | ok _ =>
                                intro r loaded
                                cases World.isSome_finish.mp loaded with
                                | inl same =>
                                    subst same
                                    exact .inr ⟨r, List.mem_singleton_self r, .refl⟩
                                | inr loaded => exact both r loaded
          · exact fun _ loaded => .inl loaded

omit [DecidableEq P] in
/-- Imports that return have made each of their calls. -/
theorem imports_split {importer : P → World P → Ending P (Option Nat)} {pre post : List P}
    {path : P} {w w' : World P}
    (run : imports importer (pre ++ path :: post) w = (.ok (), w')) :
    ∃ w₁ env w₂, imports importer pre w = (.ok (), w₁) ∧ importer path w₁ = (.ok env, w₂) ∧
      imports importer post w₂ = (.ok (), w') := by
  induction pre generalizing w with
  | nil =>
      rw [List.nil_append, imports] at run
      cases first : importer path w with
      | mk result w₂ =>
          rw [first] at run
          cases result with
          | error _ => cases run
          | ok env => exact ⟨w, env, w₂, rfl, first, run⟩
  | cons r pre ih =>
      rw [List.cons_append, imports] at run
      cases first : importer r w with
      | mk result w₀ =>
          rw [first] at run
          cases result with
          | error _ => cases run
          | ok env₀ =>
              obtain ⟨w₁, env, w₂, before, here, after⟩ := ih run
              refine ⟨w₁, env, w₂, ?_, here, after⟩
              rw [imports, first]
              exact before

/-- Imports that return have run a file that was new to them. -/
theorem imports_ran {stack : Stack P} {depth : Nat} {frames : List (Frame P)}
    {earlier pre post : List P} {path : P} {w w' : World P}
    (run : imports (importFile files stack depth frames) (pre ++ path :: post) w = (.ok (), w'))
    (clean : Clean w') (known : ∀ r, (w.loadModule r).isSome → Reachable files earlier r)
    (new : New files (earlier ++ pre) path) :
    ∃ (depth' : Nat) (file : File P) (w₁ w₂ w₃ : World P), files path = some file ∧
      stack.Room files frames path ∧
      (∀ r, (w₁.loadModule r).isSome → Reachable files (earlier ++ pre) r) ∧
      imports (importFile files stack depth' (.body path :: frames)) file.body (w₁.enter path) =
        (.ok (), w₂) ∧
      initialise (importFile files stack depth' (.init path :: frames))
        (stack.call (.init path :: frames)) path file.init w₂ = (.ok (), w₃) ∧ Clean w₃ := by
  obtain ⟨w₁, env, w₂, before, here, after⟩ := imports_split run
  have only := imports_only (importFile_only files stack depth frames) pre w
  rw [before] at only
  have known₁ : ∀ r, (w₁.loadModule r).isSome → Reachable files (earlier ++ pre) r := by
    intro r loaded
    cases only r loaded with
    | inl old =>
        obtain ⟨root, mem, reaches⟩ := known r old
        exact ⟨root, List.mem_append_left pre mem, reaches⟩
    | inr made =>
        obtain ⟨root, mem, reaches⟩ := made
        exact ⟨root, List.mem_append_right earlier mem, reaches⟩
  have grows := imports_log (importFile_log files stack depth frames) post w₂
  rw [after] at grows
  have clean₂ : Clean w₂ := clean.of_prefix grows
  cases depth with
  | zero => cases here
  | succ depth =>
      cases importFile_returns here clean₂ with
      | inl found =>
          obtain ⟨env', loaded, -⟩ := found
          obtain ⟨root, mem, reaches⟩ := known₁ path (Option.isSome_of_eq_some loaded)
          exact absurd reaches (new root mem)
      | inr ran =>
          obtain ⟨file, v₁, v₂, found, room, body, init, same⟩ := ran
          rw [same] at clean₂
          exact ⟨depth, file, w₁, v₁, v₂, found, room, known₁, body, init,
            clean₂.of_prefix (World.log_note _ _)⟩

omit [DecidableEq P] in
theorem Brings.reachable {roots : List P} {frames frames' : List (Frame P)}
    {earlier calls : List P} {path : P} (brings : Brings files frames earlier calls frames' path)
    (reached : ∀ r ∈ calls, Reachable files roots r) : Reachable files roots path := by
  induction brings with
  | load _ => exact reached _ (by simp)
  | body _ found _ ih =>
      exact ih fun r mem => (reached _ (by simp)).edge ⟨_, found, .inl mem⟩
  | init _ found _ ih =>
      exact ih fun r mem => (reached _ (by simp)).edge ⟨_, found, .inr mem⟩

omit [DecidableEq P] in
theorem not_brings_nil {frames frames' : List (Frame P)} {path : P} (earlier : List P) :
    ¬ Brings files frames earlier [] frames' path := by
  generalize empty : ([] : List P) = calls
  intro brings
  cases brings with
  | load _ => simp at empty
  | body _ _ _ => simp at empty
  | init _ _ _ => simp at empty

/-- Where imports return, the stack had room for every file they brought in. -/
theorem Brings.room {stack : Stack P} {frames frames' : List (Frame P)} {earlier calls : List P}
    {path : P} (brings : Brings files frames earlier calls frames' path) :
    ∀ depth w w', imports (importFile files stack depth frames) calls w = (.ok (), w') →
      Clean w' → (∀ r, (w.loadModule r).isSome → Reachable files earlier r) →
      stack.Room files frames' path := by
  induction brings with
  | load new =>
      intro depth w w' run clean known
      obtain ⟨_, _, _, _, _, _, room, _⟩ := imports_ran run clean known new
      exact room
  | @body frames earlier pre path post file frames' path' new found brings ih =>
      intro depth w w' run clean known
      obtain ⟨depth', file', w₁, w₂, w₃, found', _, known₁, body, init, clean₃⟩ :=
        imports_ran run clean known new
      rw [found, Option.some.injEq] at found'
      subst found'
      have grows := initialise_log (importFile_log files stack depth' (.init path :: frames))
        (stack.call (.init path :: frames)) path file.init w₂
      rw [init] at grows
      exact ih depth' (w₁.enter path) w₂ body (clean₃.of_prefix grows) known₁
  | @init frames earlier pre path post file frames' path' new found brings ih =>
      intro depth w w' run clean known
      obtain ⟨depth', file', w₁, w₂, w₃, found', _, known₁, body, init, clean₃⟩ :=
        imports_ran run clean known new
      rw [found, Option.some.injEq] at found'
      subst found'
      have only := imports_only (importFile_only files stack depth' (.body path :: frames))
        file.body (w₁.enter path)
      rw [body] at only
      have known₂ : ∀ r, (w₂.loadModule r).isSome →
          Reachable files (earlier ++ pre ++ file.body) r := by
        intro r loaded
        cases only r loaded with
        | inl old =>
            obtain ⟨root, mem, reaches⟩ := known₁ r old
            exact ⟨root, List.mem_append_left _ mem, reaches⟩
        | inr made =>
            obtain ⟨root, mem, reaches⟩ := made
            exact ⟨root, List.mem_append_right _ mem, reaches⟩
      cases kind : file.init with
      | absent | other =>
          rw [kind] at brings
          exact absurd brings (not_brings_nil _)
      | function calls =>
          rw [kind] at ih init
          exact ih depth' (w₂.note (.init path)) w₃ (initialise_ok init).2 clean₃ known₂

theorem Proper.clean {ending : Ending P Unit} (proper : Proper files paths ending) :
    Clean ending.2 := by
  intro r mem
  obtain ⟨env, same⟩ := proper.table r
  cases same none mem

theorem Proper.acyclic {stack : Stack P}
    (proper : Proper files paths (service files stack paths)) : Acyclic files paths := by
  intro path reachable
  have run : service files stack paths = (.ok (), (service files stack paths).2) :=
    Prod.ext proper.returns rfl
  obtain ⟨settled, loaded⟩ := service_loaded run proper.clean reachable
  exact not_transGen_of_acc (settled path loaded).1

theorem Proper.hasRoom {stack : Stack P}
    (proper : Proper files paths (service files stack paths)) : HasRoom files paths stack := by
  intro frames path brings
  have run : service files stack paths = (.ok (), (service files stack paths).2) :=
    Prod.ext proper.returns rfl
  exact brings.room (stack.limit + 1) World.start _ run proper.clean
    fun r loaded => by cases loaded

/-- Imports of files that do not raise return, run each file once and give each path one table
exactly when no file that is reached imports itself, directly or through others, and the stack
has room for each file where it is brought in. -/
theorem service_proper_iff (files : P → Option (File P)) (stack : Stack P) (paths : List P)
    (loads : ∀ path, Reachable files paths path → Loads files path) :
    Proper files paths (service files stack paths) ↔
      Acyclic files paths ∧ HasRoom files paths stack :=
  ⟨fun proper => ⟨proper.acyclic, proper.hasRoom⟩,
    fun ⟨acyclic, room⟩ => acyclic.proper room loads⟩

def Frame.isBody : Frame P → Bool
  | .body _ => true
  | .init _ => false

/-- A stack for so many bodies inside each other and so many frames in all, on which a file
can be loaded where its body can be called. -/
def Stack.ofBodies (bodies limit : Nat) : Stack P where
  loadfile frames _ :=
    decide ((frames.filter Frame.isBody).length < bodies ∧ frames.length < limit)
  call frames := decide ((frames.filter Frame.isBody).length ≤ bodies ∧ frames.length ≤ limit)
  limit := limit
  bounded := by
    intro frames room
    exact (of_decide_eq_true room).2

/-- Files that import only later ones. -/
def Ascending (files : Nat → Option (File Nat)) : Prop := ∀ m n, Edge files m n → m < n

theorem Ascending.acyclic {files : Nat → Option (File Nat)} (ascending : Ascending files)
    (paths : List Nat) : Acyclic files paths := by
  have less : ∀ m n, Relation.TransGen (Edge files) m n → m < n := by
    intro m n reaches
    induction reaches with
    | single edge => exact ascending _ _ edge
    | tail _ edge ih => exact Nat.lt_trans ih (ascending _ _ edge)
  intro path _ cycle
  exact Nat.lt_irrefl path (less path path cycle)

/-- Around a file stand no more than the files before it. -/
theorem Ascending.frames_le {files : Nat → Option (File Nat)} (ascending : Ascending files)
    {frames frames' : List (Frame Nat)} {earlier calls : List Nat} {path : Nat}
    (brings : Brings files frames earlier calls frames' path)
    (later : ∀ r ∈ calls, frames.length ≤ r) : frames'.length ≤ path := by
  induction brings with
  | load _ => exact later _ (by simp)
  | @body frames earlier pre path post file frames' path' _ found _ ih =>
      apply ih
      intro r mem
      have outer := later path (by simp)
      have := ascending path r ⟨file, found, .inl mem⟩
      rw [List.length_cons]
      omega
  | @init frames earlier pre path post file frames' path' _ found _ ih =>
      apply ih
      intro r mem
      have outer := later path (by simp)
      have := ascending path r ⟨file, found, .inr mem⟩
      rw [List.length_cons]
      omega

/-- Four files, of which two are imported more than once. -/
def treeFiles : Nat → Option (File Nat)
  | 0 => some ⟨[1, 2], .absent⟩
  | 1 => some ⟨[2], .function [3]⟩
  | 2 => some ⟨[3], .absent⟩
  | 3 => some ⟨[], .function []⟩
  | _ => none

theorem edge_treeFiles {m n : Nat} (edge : Edge treeFiles m n) : m < n ∧ n < 4 := by
  obtain ⟨file, found, mem⟩ := edge
  match m with
  | 0 | 1 | 2 =>
      cases found
      simp only [Init.calls, List.mem_cons, List.not_mem_nil, or_false] at mem
      omega
  | 3 =>
      cases found
      simp [Init.calls] at mem
  | m + 4 => cases found

/-- The file that all of them lead to is brought in behind three others. -/
theorem service_proper_tree :
    Proper treeFiles [0] (service treeFiles (.ofBodies 197 10000) [0]) := by
  have ascending : Ascending treeFiles := fun m n edge => (edge_treeFiles edge).1
  have small : ∀ path, Reachable treeFiles [0] path → path < 4 := by
    rintro path ⟨root, mem, reaches⟩
    induction reaches with
    | refl =>
        rw [List.mem_singleton.mp mem]
        exact Nat.zero_lt_succ 3
    | tail _ edge _ => exact (edge_treeFiles edge).2
  have loads : ∀ path, Reachable treeFiles [0] path → Loads treeFiles path := by
    intro path reachable
    have := small path reachable
    match path with
    | 0 | 1 | 2 | 3 => exact ⟨_, rfl, nofun⟩
  refine (service_proper_iff treeFiles (.ofBodies 197 10000) [0] loads).mpr
    ⟨ascending.acyclic [0], ?_⟩
  intro frames path brings
  have le := ascending.frames_le brings (by simp)
  have := small path (brings.reachable fun r mem => ⟨r, mem, .refl⟩)
  have bodies := List.length_filter_le Frame.isBody frames
  refine ⟨?_, ?_, fun _ => ?_⟩
  · simp only [Stack.ofBodies, decide_eq_true_eq]
    omega
  · simp only [Stack.ofBodies, List.filter_cons, Frame.isBody, if_true, List.length_cons,
      decide_eq_true_eq]
    omega
  · simp only [Stack.ofBodies, List.filter_cons, Frame.isBody, Bool.false_eq_true, if_false,
      List.length_cons, decide_eq_true_eq]
    omega

/-- A file whose body imports the file itself. -/
def cyclicFiles (_ : Unit) : Option (File Unit) := some ⟨[()], .absent⟩

/-- The body runs as often as the stack allows. -/
theorem service_cyclic_improper :
    (∀ path, Loads cyclicFiles path) ∧
      ∀ stack, ¬ Proper cyclicFiles [()] (service cyclicFiles stack [()]) := by
  refine ⟨fun _ => ⟨⟨[()], .absent⟩, rfl, by simp⟩, fun stack proper => ?_⟩
  have edge : Edge cyclicFiles () () := ⟨⟨[()], .absent⟩, rfl, .inl List.mem_cons_self⟩
  exact proper.acyclic () ⟨(), List.mem_cons_self, .refl⟩ (.single edge)

example : (service cyclicFiles (.ofBodies 4 9) [()]).2.log.count (.body ()) = 4 := by decide

end Main

end Qiuqiu.Extend.Import
