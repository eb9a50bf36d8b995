import Qiuqiu.Base.Filesystem
import Qiuqiu.Base.Pattern

/-!
`posix.stat_x` and `posix.mkdir_p` of lualib/base/posix.lua. `mkdir_p` goes through the
prefixes of a path that end in a slash, and calls itself with the ones that are missing.
Nothing in it makes a directory, so that the call finds the same prefix missing: it returns
when there is nothing to make, and goes down to the end of the stack otherwise.
-/
namespace Qiuqiu.Extend.Posix
open Filesystem Pattern
variable {σ : Type}

/-- The mode that `stat_x` sets. -/
def searchable : Bytes := ascii "rwxrwxr-x"

section Code
variable (posix : Calls σ)

/-- `posix.stat_x`: where the owner cannot search, the mode is changed first. -/
def statX (path : Bytes) (s : σ) : Option Stat × σ :=
  match posix.stat s path with
  | some stat =>
      match stat.mode with
      | some mode =>
          if mode[2]? ≠ some 120 then
            let s := posix.chmod s path searchable
            (posix.stat s path, s)
          else (some stat, s)
      | none => (some stat, s)
  | none => (none, s)

/-- The loop of `posix.mkdir_p` from `start` on, where `mkdirP` is the call of itself. -/
def mkdirLoop (mkdirP : Bytes → σ → Option σ) (path : Bytes) (start : Nat) (s : σ) : Option σ :=
  match _found : strFind [.single (.char slash)] path start with
  | some (_, tmpEnd) =>
      let tpath := path.take tmpEnd
      match statX posix tpath s with
      | (some _, s) => mkdirLoop mkdirP path (tmpEnd + 1) s
      | (none, s) =>
          match mkdirP tpath s with
          | some s => mkdirLoop mkdirP path (tmpEnd + 1) (statX posix tpath s).2
          | none => none
  | none => some s
termination_by path.length + 1 - start
decreasing_by
  all_goals
    obtain ⟨from_, pos, is, -⟩ := strFind_char_some _found
    obtain ⟨inside, -⟩ := List.getElem?_eq_some_iff.mp is
    omega

/-- `posix.mkdir_p`, with room for so many calls on the stack; without it Lua raises. -/
def mkdirP : Nat → Bytes → σ → Option σ
  | 0, _, _ => none
  | depth + 1, path, s => mkdirLoop posix (mkdirP depth) path 1 s

end Code

variable {posix : Calls σ} {s : σ} {path dir q : Bytes} {call : Bytes → σ → Option σ} {start : Nat}

section StatX

/-- What is found at the path is what is there at last, and at most its mode has changed. -/
theorem statX_cases : (statX posix path s = (posix.stat s path, s)) ∨
    statX posix path s = (posix.stat (posix.chmod s path searchable) path,
      posix.chmod s path searchable) := by
  rw [statX]
  split
  case h_1 stat there =>
      rw [there]
      split
      case h_1 mode _ =>
          split
          · exact .inr rfl
          · exact .inl rfl
      case h_2 => exact .inl rfl
  case h_2 missing =>
      rw [missing]
      exact .inl rfl

theorem statX_missing (missing : posix.stat s path = none) : statX posix path s = (none, s) := by
  rw [statX, missing]

/-- `chmod` is the only call that changes the state. -/
theorem statX_invariant {I : σ → Prop} (kept : ∀ s path, I s → I (posix.chmod s path searchable))
    (holds : I s) : I (statX posix path s).2 := by
  cases statX_cases with
  | inl same =>
      rw [same]
      exact holds
  | inr changed =>
      rw [changed]
      exact kept s path holds

theorem stat_statX (lawful : posix.Lawful searchable) (there : (posix.stat s dir).isSome) :
    (posix.stat (statX posix path s).2 dir).isSome :=
  statX_invariant (I := fun u => (posix.stat u dir).isSome) (fun _ => lawful.chmod_stat) there

theorem mkdir_statX (lawful : posix.Lawful searchable) (made : (posix.mkdir s dir).isSome) :
    (posix.mkdir (statX posix path s).2 dir).isSome :=
  statX_invariant (I := fun u => (posix.mkdir u dir).isSome) (fun _ => lawful.chmod_mkdir) made

theorem statX_there (lawful : posix.Lawful searchable) (there : (posix.stat s path).isSome) :
    (statX posix path s).1.isSome := by
  cases statX_cases with
  | inl same =>
      rw [same]
      exact there
  | inr changed =>
      rw [changed]
      exact lawful.chmod_stat path there

end StatX

section Found
variable {b e : Nat}

/-- The loop stops at the prefixes that end in a slash. -/
theorem slashPrefix_of_find (found : strFind [.single (.char slash)] path start = some (b, e)) :
    SlashPrefix (path.take e) path ∧ (path.take e).length = e ∧ start ≤ e := by
  obtain ⟨from_, pos, is, -⟩ := strFind_char_some found
  obtain ⟨inside, -⟩ := List.getElem?_eq_some_iff.mp is
  have le : e ≤ path.length := by omega
  exact ⟨(SlashPrefix.take_iff pos le).mpr is, List.length_take_of_le le, from_⟩

/-- It leaves none of them out. -/
theorem le_of_find (found : strFind [.single (.char slash)] path start = some (b, e))
    (here : SlashPrefix q path) (from_ : start ≤ q.length) : e ≤ q.length := by
  obtain ⟨pos, is⟩ := here.getElem?
  by_contra lt
  exact (strFind_char_some found).2.2.2 q.length from_ (by omega) pos is

theorem not_find (here : SlashPrefix q path) (from_ : start ≤ q.length) :
    strFind [.single (.char slash)] path start ≠ none := by
  intro fails
  obtain ⟨pos, is⟩ := here.getElem?
  exact strFind_char_none fails from_ pos is

end Found

section Invariant
variable {I : σ → Prop} {s' : σ} {depth : Nat}

theorem mkdirLoop_invariant (kept : ∀ s path, I s → I (posix.chmod s path searchable))
    (deeper : ∀ path s s', call path s = some s' → I s → I s')
    (done : mkdirLoop posix call path start s = some s') (holds : I s) : I s' := by
  fun_induction mkdirLoop posix call path start s with
  | case1 start s b e found tpath stat t looked ih =>
      have after : I (statX posix tpath s).2 := statX_invariant kept holds
      rw [looked] at after
      exact ih done after
  | case2 start s b e found tpath t looked u called ih =>
      have before : I (statX posix tpath s).2 := statX_invariant kept holds
      rw [looked] at before
      exact ih done (statX_invariant kept (deeper tpath t u called before))
  | case3 => cases done
  | case4 =>
      cases done
      exact holds

/-- What `chmod` keeps, a call that returns has kept. -/
theorem mkdirP_invariant (kept : ∀ s path, I s → I (posix.chmod s path searchable))
    (done : mkdirP posix depth path s = some s') (holds : I s) : I s' := by
  induction depth generalizing path s s' with
  | zero => cases done
  | succ depth ih => exact mkdirLoop_invariant kept (fun _ _ _ => ih) done holds

/-- A call that returns has made nothing. -/
theorem mkdirP_tree {t t' : Tree} (done : mkdirP Tree.calls depth path t = some t')
    (dir : List Bytes) : (t'.mode dir).isSome = (t.mode dir).isSome :=
  mkdirP_invariant (I := fun u => (u.mode dir).isSome = (t.mode dir).isSome)
    (fun _ _ same => Tree.chmod_mode.trans same) done rfl

end Invariant

/-- Where every directory is there, the loop returns without a call. -/
theorem mkdirLoop_returns (lawful : posix.Lawful searchable)
    (there : ∀ dir, SlashPrefix dir path → (posix.stat s dir).isSome) :
    ∃ s', mkdirLoop posix call path start s = some s' := by
  fun_induction mkdirLoop posix call path start s with
  | case1 start s b e found tpath stat t looked ih =>
      apply ih
      intro dir here
      have after : (posix.stat (statX posix tpath s).2 dir).isSome :=
        stat_statX lawful (there dir here)
      rw [looked] at after
      exact after
  | case2 start s b e found tpath t looked | case3 start s b e found tpath t looked =>
      have none := statX_there lawful (there tpath (slashPrefix_of_find found).1)
      rw [looked] at none
      cases none
  | case4 start s fails => exact ⟨s, rfl⟩

/-- The first prefix that is missing. Behind another directory, it can be made. -/
structure FirstMissing (posix : Calls σ) (s : σ) (path q : Bytes) : Prop where
  slashPrefix : SlashPrefix q path
  missing : posix.stat s q = none
  before : ∀ dir, SlashPrefix dir path → dir.length < q.length → (posix.stat s dir).isSome
  creatable : ∀ dir, SlashPrefix dir path → dir.length < q.length → (posix.mkdir s q).isSome

/-- Where the parents can have new directories in them, a missing prefix has a first one. -/
theorem exists_firstMissing (lawful : posix.Lawful searchable)
    (creatable : ∀ dir, SlashPrefix dir path → Creatable posix s dir)
    (here : SlashPrefix dir path) (missing : posix.stat s dir = none) :
    ∃ q, FirstMissing posix s path q := by
  obtain ⟨n, bound⟩ : ∃ n, dir.length ≤ n := ⟨_, Nat.le_refl _⟩
  induction n generalizing dir with
  | zero =>
      have pos := here.getElem?.1
      omega
  | succ n ih =>
      by_cases earlier : ∃ d, SlashPrefix d path ∧ d.length < dir.length ∧ posix.stat s d = none
      · obtain ⟨d, before, lt, absent⟩ := earlier
        exact ih before absent (by omega)
      · have before : ∀ d, SlashPrefix d path → d.length < dir.length →
            (posix.stat s d).isSome := by
          intro d left lt
          rw [Option.isSome_iff_ne_none]
          intro absent
          exact earlier ⟨d, left, lt, absent⟩
        refine ⟨dir, here, missing, before, ?_⟩
        intro d left lt
        obtain ⟨up, shorter⟩ := (left.of_le here lt.le).parent_lt lt
        have above := before (parent dir) (up.trans here) shorter
        exact creatable dir here ((lawful.isDir_iff up.2).mpr above) missing

namespace FirstMissing

/-- A look at an earlier prefix does not change what is missing. -/
theorem statX (lawful : posix.Lawful searchable) (first : FirstMissing posix s path q)
    (here : SlashPrefix dir path) (lt : dir.length < q.length) :
    FirstMissing posix (statX posix dir s).2 path q where
  slashPrefix := first.slashPrefix
  missing := lawful.mkdir_new (mkdir_statX lawful (first.creatable dir here lt))
  before d left shorter := stat_statX lawful (first.before d left shorter)
  creatable d left shorter := mkdir_statX lawful (first.creatable d left shorter)

/-- The call with a missing prefix has the same one before it. -/
theorem self (first : FirstMissing posix s path q) : FirstMissing posix s q q where
  slashPrefix := first.slashPrefix.self
  missing := first.missing
  before d left shorter := first.before d (left.trans first.slashPrefix) shorter
  creatable d left shorter := first.creatable d (left.trans first.slashPrefix) shorter

/-- The loop comes to the missing prefix, or finds one that is there and stands before it. -/
theorem eq_or_lt {b e : Nat} (lawful : posix.Lawful searchable)
    (first : FirstMissing posix s path q)
    (found : strFind [.single (.char slash)] path start = some (b, e))
    (from_ : start ≤ q.length) :
    path.take e = q ∧ Posix.statX posix (path.take e) s = (none, s) ∨
      e < q.length ∧ (Posix.statX posix (path.take e) s).1.isSome := by
  obtain ⟨here, length, -⟩ := slashPrefix_of_find found
  cases Nat.lt_or_eq_of_le (le_of_find found first.slashPrefix from_) with
  | inl lt =>
      have there := first.before (path.take e) here (length.trans_lt lt)
      exact .inr ⟨lt, statX_there lawful there⟩
  | inr same =>
      have eq := here.eq_of_length first.slashPrefix (length.trans same)
      refine .inl ⟨eq, statX_missing ?_⟩
      rw [eq]
      exact first.missing

/-- The loop does not get past the missing prefix when the call with it never returns. -/
theorem mkdirLoop_none (lawful : posix.Lawful searchable) (first : FirstMissing posix s path q)
    (deeper : ∀ s, FirstMissing posix s q q → call q s = none) (from_ : start ≤ q.length) :
    mkdirLoop posix call path start s = none := by
  fun_induction mkdirLoop posix call path start s with
  | case1 start s b e found tpath stat s' looked ih =>
      obtain ⟨here, length, -⟩ := slashPrefix_of_find found
      cases first.eq_or_lt lawful found from_ with
      | inl missing => cases missing.2.symm.trans looked
      | inr before =>
          have state : s' = (Posix.statX posix tpath s).2 := by rw [looked]
          have again := first.statX lawful here (length.trans_lt before.1)
          rw [← state] at again
          exact ih again before.1
  | case2 start s b e found tpath s' looked s'' called ih =>
      cases first.eq_or_lt lawful found from_ with
      | inl missing =>
          cases missing.2.symm.trans looked
          have fails := deeper s first.self
          rw [← missing.1] at fails
          cases called.symm.trans fails
      | inr before =>
          have there := before.2
          rw [looked] at there
          cases there
  | case3 => rfl
  | case4 start s fails => exact absurd fails (not_find first.slashPrefix from_)

/-- However deep the stack is, the calls go down to its end. -/
theorem mkdirP_none (lawful : posix.Lawful searchable) (depth : Nat)
    (first : FirstMissing posix s path q) : mkdirP posix depth path s = none := by
  induction depth generalizing path s with
  | zero => rfl
  | succ depth ih =>
      exact first.mkdirLoop_none lawful (fun s again => ih again) first.slashPrefix.getElem?.1

end FirstMissing

/-- `posix.mkdir_p` returns exactly when it has nothing to make. -/
theorem mkdirP_creates_iff (lawful : posix.Lawful searchable)
    (creatable : ∀ dir, SlashPrefix dir path → Creatable posix s dir) :
    (∃ depth s', mkdirP posix depth path s = some s' ∧
      ∀ dir, SlashPrefix dir path → IsDir posix s' dir) ↔
    ∀ dir, SlashPrefix dir path → IsDir posix s dir := by
  constructor
  · rintro ⟨depth, s', done, -⟩ dir here
    by_contra absent
    rw [lawful.isDir_iff here.2, Option.not_isSome_iff_eq_none] at absent
    obtain ⟨q, first⟩ := exists_firstMissing lawful creatable here absent
    rw [first.mkdirP_none lawful depth] at done
    cases done
  · intro there
    have found : ∀ dir, SlashPrefix dir path → (posix.stat s dir).isSome := by
      intro dir here
      exact (lawful.isDir_iff here.2).mp (there dir here)
    have returns : ∃ s', mkdirP posix 1 path s = some s' := mkdirLoop_returns lawful found
    obtain ⟨s', done⟩ := returns
    refine ⟨1, s', done, fun dir here => ?_⟩
    rw [lawful.isDir_iff here.2]
    exact mkdirP_invariant (I := fun u => (posix.stat u dir).isSome)
      (fun _ => lawful.chmod_stat) done (found dir here)

/-- A root with the directory `a`, which nobody but the superuser can search. -/
def closed : Tree :=
  ((Tree.empty.mkdir (ascii "a/")).getD Tree.empty).chmod (ascii "a/") (ascii "rw-rw-r--")

theorem mkdirP_closed : ∃ depth t, mkdirP Tree.calls depth (ascii "a/b") closed = some t ∧
    ∀ dir, SlashPrefix dir (ascii "a/b") → IsDir Tree.calls t dir := by
  have lawful : Tree.calls.Lawful searchable := Tree.lawful
  apply (mkdirP_creates_iff lawful fun dir here => Tree.creatable here.2).mpr
  rintro dir ⟨left, last⟩
  have all : ∀ dir ∈ (ascii "a/b").inits, dir.getLast? = some slash →
      (Tree.calls.stat closed dir).isSome := by decide
  exact (lawful.isDir_iff last).mpr
    (all dir ((List.mem_inits dir _).mpr left) last)

/-- In an empty root nothing is made of `a/`, and the call does not return. -/
theorem mkdirP_empty :
    (∀ dir, dir.getLast? = some slash → Creatable Tree.calls Tree.empty dir) ∧
    ¬ ∃ depth t, mkdirP Tree.calls depth (ascii "a/") Tree.empty = some t ∧
      ∀ dir, SlashPrefix dir (ascii "a/") → IsDir Tree.calls t dir := by
  refine ⟨fun dir last => Tree.creatable last, ?_⟩
  rintro ⟨depth, t, done, -⟩
  have lawful : Tree.calls.Lawful searchable := Tree.lawful
  have whole : SlashPrefix (ascii "a/") (ascii "a/") := ⟨List.prefix_rfl, rfl⟩
  have missing : Tree.calls.stat Tree.empty (ascii "a/") = none := by decide
  obtain ⟨q, first⟩ := exists_firstMissing lawful (fun dir here => Tree.creatable here.2)
    whole missing
  rw [first.mkdirP_none lawful depth] at done
  cases done

end Qiuqiu.Extend.Posix
