import Mathlib.Data.List.DropRight
import Mathlib.Data.List.Infix
import Qiuqiu.Base.Bytes

/-!
File systems behind their calls. A program sees the state only in what `stat`
returns; what the calls have to do with each other are laws of the system.
-/
namespace Qiuqiu.Filesystem
variable {σ : Type}

def slash : UInt8 := 47

def notSlash (c : UInt8) : Bool := c ≠ slash

def directory : Bytes := ascii "directory"

/-- What `stat` returns, as far as it is read. -/
structure Stat where
  type : Bytes
  mode : Option Bytes
  deriving DecidableEq

/-- The calls. A `chmod` that fails leaves the state as it is; for `mkdir` there is none then. -/
structure Calls (σ : Type) where
  stat : σ → Bytes → Option Stat
  chmod : σ → Bytes → Bytes → σ
  mkdir : σ → Bytes → Option σ

/-- The path begins with this one, which ends in a slash. -/
def SlashPrefix (dir path : Bytes) : Prop := dir <+: path ∧ dir.getLast? = some slash

/-- The directory that has this one, whose path ends in a slash. -/
def parent (dir : Bytes) : Bytes :=
  let up := dir.dropLast.rdropWhile notSlash
  if up ≠ [] then up
  else if dir.head? = some slash then [slash]
  else ascii "./"

variable {fs : Calls σ} {s : σ} {dir d path : Bytes}

def IsDir (fs : Calls σ) (s : σ) (dir : Bytes) : Prop :=
  ∃ stat, fs.stat s dir = some stat ∧ stat.type = directory

/-- A directory that is not there can be made when its parent is. -/
def Creatable (fs : Calls σ) (s : σ) (dir : Bytes) : Prop :=
  IsDir fs s (parent dir) → fs.stat s dir = none → (fs.mkdir s dir).isSome

/-- What is relied on, where `mode` is one that gives its owner all rights, and everyone the right
to search. Only the owner and the superuser can change the mode. -/
structure Calls.Lawful (fs : Calls σ) (mode : Bytes) : Prop where
  stat_slash : ∀ {s dir stat}, dir.getLast? = some slash → fs.stat s dir = some stat →
    stat.type = directory
  mkdir_new : ∀ {s dir}, (fs.mkdir s dir).isSome → fs.stat s dir = none
  chmod_stat : ∀ {s dir} (path), (fs.stat s dir).isSome →
    (fs.stat (fs.chmod s path mode) dir).isSome
  chmod_mkdir : ∀ {s dir} (path), (fs.mkdir s dir).isSome →
    (fs.mkdir (fs.chmod s path mode) dir).isSome

theorem getLast?_rdropWhile {x : Bytes} (nonempty : x.rdropWhile notSlash ≠ []) :
    (x.rdropWhile notSlash).getLast? = some slash := by
  have stop := List.rdropWhile_last_not notSlash x nonempty
  rw [List.getLast?_eq_some_getLast nonempty, Option.some.injEq]
  exact not_not.mp fun other => stop (decide_eq_true other)

namespace SlashPrefix

theorem self (here : SlashPrefix dir path) : SlashPrefix dir dir := ⟨List.prefix_rfl, here.2⟩

theorem trans (first : SlashPrefix d dir) (second : SlashPrefix dir path) : SlashPrefix d path :=
  ⟨first.1.trans second.1, first.2⟩

theorem of_le (first : SlashPrefix d path) (second : SlashPrefix dir path)
    (le : d.length ≤ dir.length) : SlashPrefix d dir :=
  ⟨List.prefix_of_prefix_length_le first.1 second.1 le, first.2⟩

theorem eq_of_length (first : SlashPrefix d path) (second : SlashPrefix dir path)
    (same : d.length = dir.length) : d = dir :=
  (first.of_le second same.le).1.eq_of_length same

/-- The prefix of a given length. -/
theorem take_iff {e : Nat} (pos : 0 < e) (le : e ≤ path.length) :
    SlashPrefix (path.take e) path ↔ path[e - 1]? = some slash := by
  have last : (path.take e).getLast? = path[e - 1]? := by
    rw [List.getLast?_take, if_neg (by omega), List.getElem?_eq_getElem (by omega), Option.some_or]
  rw [SlashPrefix, last]
  exact and_iff_right (List.take_prefix e path)

theorem getElem? (here : SlashPrefix dir path) :
    0 < dir.length ∧ path[dir.length - 1]? = some slash := by
  have pos : 0 < dir.length := by
    apply List.length_pos_of_ne_nil
    intro empty
    rw [empty] at here
    cases here.2
  refine ⟨pos, (take_iff pos here.1.length_le).mp ?_⟩
  rw [← List.prefix_iff_eq_take.mp here.1]
  exact here

/-- Behind another directory of the path, the parent is one. -/
theorem parent_lt (here : SlashPrefix d dir) (lt : d.length < dir.length) :
    SlashPrefix (parent dir) dir ∧ (parent dir).length < dir.length := by
  have inside : d <+: dir.dropLast := by
    apply List.prefix_of_prefix_length_le here.1 (List.dropLast_prefix dir)
    rw [List.length_dropLast]
    omega
  have nonempty : dir.dropLast.rdropWhile notSlash ≠ [] := by
    intro none
    have other := List.rdropWhile_eq_nil_iff.mp none slash
      (inside.subset (List.mem_of_getLast? here.2))
    exact of_decide_eq_true other rfl
  have up : parent dir = dir.dropLast.rdropWhile notSlash := if_pos nonempty
  have left := List.rdropWhile_prefix notSlash (l := dir.dropLast)
  rw [up]
  refine ⟨⟨left.trans (List.dropLast_prefix dir), getLast?_rdropWhile nonempty⟩, ?_⟩
  have short := left.length_le
  rw [List.length_dropLast] at short
  omega

end SlashPrefix

theorem Calls.Lawful.isDir_iff {mode : Bytes} (lawful : fs.Lawful mode)
    (last : dir.getLast? = some slash) : IsDir fs s dir ↔ (fs.stat s dir).isSome := by
  constructor
  · rintro ⟨stat, there, -⟩
    exact Option.isSome_iff_exists.mpr ⟨stat, there⟩
  · intro there
    obtain ⟨stat, is⟩ := Option.isSome_iff_exists.mp there
    exact ⟨stat, is, lawful.stat_slash last is⟩

section Trees

/-- The names on a path without `..`. -/
def names (path : Bytes) : List Bytes :=
  (path.splitOn slash).filter fun name => name ≠ [] ∧ name ≠ ascii "."

/-- A tree of directories, each with its mode and inside another one. -/
structure Tree where
  mode : List Bytes → Option Bytes
  root : (mode []).isSome
  inside : ∀ {dir}, (mode dir).isSome → (mode dir.dropLast).isSome

namespace Tree

/-- The tree with nothing but its root. -/
def empty : Tree where
  mode dir := if dir = [] then some (ascii "rwxr-xr-x") else none
  root := rfl
  inside {dir} there := by
    by_cases top : dir = []
    · rw [top]
      rfl
    · rw [if_neg top] at there
      cases there

def stat (t : Tree) (path : Bytes) : Option Stat :=
  (t.mode (names path)).map fun mode => ⟨directory, some mode⟩

theorem isSome_chmod {old : Option Bytes} {here : Prop} [Decidable here] {mode : Bytes} :
    (if here then old.map fun _ => mode else old).isSome = old.isSome := by
  split
  · exact Option.isSome_map
  · rfl

def chmod (t : Tree) (path mode : Bytes) : Tree where
  mode dir := if dir = names path then (t.mode dir).map fun _ => mode else t.mode dir
  root := isSome_chmod.trans t.root
  inside there := isSome_chmod.trans (t.inside (isSome_chmod.symm.trans there))

def mkdir (t : Tree) (path : Bytes) : Option Tree :=
  if above : t.mode (names path) = none ∧ (t.mode (names path).dropLast).isSome then
    some {
      mode := fun dir => if dir = names path then some (ascii "rwxr-xr-x") else t.mode dir
      root := by
        split
        · rfl
        · exact t.root
      inside := by
        intro dir there
        split
        · rfl
        · split at there
          case isTrue here =>
              rw [here]
              exact above.2
          case isFalse => exact t.inside there }
  else none

/-- The calls of the superuser, who works in the root. -/
def calls : Calls Tree := ⟨stat, chmod, mkdir⟩

variable {t : Tree} {path mode : Bytes}

theorem stat_isSome : (t.stat path).isSome = (t.mode (names path)).isSome := Option.isSome_map

theorem mkdir_isSome : (t.mkdir path).isSome ↔
    t.mode (names path) = none ∧ (t.mode (names path).dropLast).isSome := by
  rw [mkdir]
  split
  case isTrue above => exact iff_of_true rfl above
  case isFalse above => exact iff_of_false (by simp) above

theorem chmod_mode {dir : List Bytes} :
    ((t.chmod path mode).mode dir).isSome = (t.mode dir).isSome := isSome_chmod

theorem lawful : calls.Lawful mode where
  stat_slash _ there := by
    obtain ⟨_, -, rfl⟩ := Option.map_eq_some_iff.mp there
    rfl
  mkdir_new made := Option.map_eq_none_iff.mpr (mkdir_isSome.mp made).1
  chmod_stat path there := stat_isSome.trans (chmod_mode.trans (stat_isSome.symm.trans there))
  chmod_mkdir path made := by
    obtain ⟨new, above⟩ := mkdir_isSome.mp made
    refine mkdir_isSome.mpr ⟨?_, chmod_mode.trans above⟩
    apply Option.not_isSome_iff_eq_none.mp
    intro there
    have there := chmod_mode.symm.trans there
    rw [new] at there
    cases there

end Tree

variable {a b : Bytes}

theorem names_append : names (a ++ slash :: b) = names a ++ names b := by
  have cut : (a ++ slash :: b).splitOn slash = a.splitOn slash ++ b.splitOn slash :=
    List.splitOnP_append_cons a b (beq_self_eq_true slash)
  rw [names, cut, List.filter_append]
  rfl

theorem names_slash : names (a ++ [slash]) = names a := by
  have nothing : names [] = [] := rfl
  rw [names_append, nothing, List.append_nil]

theorem names_single (free : slash ∉ a) : names a = [] ∨ names a = [a] := by
  have whole : a.splitOn slash = [a] := by
    apply List.splitOnP_eq_singleton
    intro c mem
    apply beq_false_of_ne
    rintro rfl
    exact free mem
  rw [names, whole, List.filter_singleton]
  cases decide (a ≠ [] ∧ a ≠ ascii ".") with
  | true => exact .inr rfl
  | false => exact .inl rfl

/-- A path is the path of its parent, with a name behind it or nothing. -/
theorem names_parent (last : dir.getLast? = some slash) :
    names dir = names (parent dir) ∨ ∃ name, names dir = names (parent dir) ++ [name] := by
  obtain ⟨x, rfl⟩ := List.getLast?_eq_some_iff.mp last
  have parts : x = x.rdropWhile notSlash ++ x.rtakeWhile notSlash :=
    List.rdropWhile_append_rtakeWhile.symm
  generalize behind : x.rtakeWhile notSlash = name at parts
  have single : names name = [] ∨ names name = [name] := by
    apply names_single
    intro mem
    rw [← behind] at mem
    have other := List.mem_rtakeWhile_imp mem
    exact of_decide_eq_true other rfl
  have joined : names (x ++ [slash]) = names (parent (x ++ [slash])) ++ names name := by
    rw [names_slash, parent, List.dropLast_concat]
    split
    case isTrue some =>
        obtain ⟨up, split⟩ := List.getLast?_eq_some_iff.mp (getLast?_rdropWhile some)
        rw [split] at parts ⊢
        rw [parts, List.append_assoc, List.singleton_append, names_append, names_slash]
    case isFalse none =>
        rw [not_not.mp none, List.nil_append] at parts
        rw [parts]
        split
        · rfl
        · rfl
  rw [joined]
  cases single with
  | inl nothing =>
      rw [nothing, List.append_nil]
      exact .inl rfl
  | inr one =>
      rw [one]
      exact .inr ⟨name, rfl⟩

/-- In a tree, every directory can be made. -/
theorem Tree.creatable {t : Tree} (last : dir.getLast? = some slash) :
    Creatable Tree.calls t dir := by
  intro above new
  have there : (t.mode (names (parent dir))).isSome := by
    obtain ⟨stat, is, -⟩ := above
    rw [← Tree.stat_isSome]
    exact Option.isSome_iff_exists.mpr ⟨stat, is⟩
  have absent : t.mode (names dir) = none := Option.map_eq_none_iff.mp new
  cases names_parent last with
  | inl same =>
      rw [same] at absent
      rw [absent] at there
      cases there
  | inr behind =>
      obtain ⟨name, split⟩ := behind
      refine Tree.mkdir_isSome.mpr ⟨absent, ?_⟩
      rw [split, List.dropLast_concat]
      exact there

end Trees

end Qiuqiu.Filesystem
