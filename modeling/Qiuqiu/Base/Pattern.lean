import Mathlib.Data.List.Infix

/-!
Matching with patterns that try and go back (`match` in skynet/3rd/lua/lstrlib.c).
A pattern is a list of items. A repeated item is tried with the rest of the pattern
behind it, once for every number of repetitions: the smallest first, or the largest.
-/
namespace Qiuqiu.Pattern
variable {α β ε : Type} [DecidableEq α]

/-- What one element is compared with. -/
inductive Single (α : Type) where
  | any
  | char (c : α)

inductive Item (α : Type) where
  | single (x : Single α)
  /-- As many as there are. -/
  | star (x : Single α)
  /-- As many as there are, and at least one. -/
  | plus (x : Single α)
  /-- As few as will do. -/
  | minus (x : Single α)
  | opens
  | closes

/-- A capture, with the rest of the subject where it begins, or with its text. -/
inductive Capture (α : Type) where
  | unfinished (init : List α)
  | closed (text : List α)

def Single.matches : Single α → α → Bool
  | .any, _ => true
  | .char c, c' => c' = c

section Code

/-- `max_expand`, with the rest of the pattern as `k`. -/
def maxExpand (x : Single α) (k : List α → Option β) : List α → Option β
  | [] => k []
  | c :: s => if x.matches c then (maxExpand x k s).or (k (c :: s)) else k (c :: s)

/-- `min_expand`. -/
def minExpand (x : Single α) (k : List α → Option β) : List α → Option β
  | [] => k []
  | c :: s => (k (c :: s)).or (if x.matches c then minExpand x k s else none)

/-- `end_capture`: the last capture that is not closed ends before `s`. -/
def endCapture (s : List α) : List (Capture α) → Option (List (Capture α))
  | [] => none
  | .unfinished init :: caps => some (.closed (init.take (init.length - s.length)) :: caps)
  | .closed text :: caps => (endCapture s caps).map (.closed text :: ·)

/-- The rest behind a match that begins here, with the captures, the last one first. -/
def doMatch : List (Item α) → List α → List (Capture α) → Option (List α × List (Capture α))
  | [], s, caps => some (s, caps)
  | .single x :: p, c :: s, caps => if x.matches c then doMatch p s caps else none
  | .single _ :: _, [], _ => none
  | .star x :: p, s, caps => maxExpand x (fun s => doMatch p s caps) s
  | .plus x :: p, c :: s, caps =>
      if x.matches c then maxExpand x (fun s => doMatch p s caps) s else none
  | .plus _ :: _, [], _ => none
  | .minus x :: p, s, caps => minExpand x (fun s => doMatch p s caps) s
  | .opens :: p, s, caps => doMatch p s (.unfinished s :: caps)
  | .closes :: p, s, caps => (endCapture s caps).bind fun caps => doMatch p s caps

/-- The texts of the captures, or the whole match when there are none. -/
def texts (s e : List α) : List (Capture α) → List (List α)
  | [] => [s.take (s.length - e.length)]
  | caps => caps.reverse.map fun
      | .unfinished _ => []
      | .closed text => text

/-- `string.match`. -/
def strMatch (p : List (Item α)) (s : List α) : Option (List (List α)) :=
  s.tails.findSome? fun s => (doMatch p s []).map fun (e, caps) => texts s e caps

end Code

/-- The items that stand for a text. -/
def literal (w : List α) : List (Item α) := w.map fun c => .single (.char c)

section Repetition
variable {x : Single α} {k : List α → Option β} {s t : List α} {r : β}

theorem maxExpand_any (last : k [] = some r) : maxExpand .any k s = some r := by
  induction s with
  | nil => exact last
  | cons c s ih =>
      change (maxExpand .any k s).or _ = some r
      rw [ih, Option.some_or]

theorem maxExpand_isSome (right : t <:+ s) (here : (k t).isSome) :
    (maxExpand .any k s).isSome := by
  induction s with
  | nil =>
      rw [List.suffix_nil.mp right] at here
      exact here
  | cons c s ih =>
      change ((maxExpand .any k s).or (k (c :: s))).isSome
      rw [Option.isSome_or, Bool.or_eq_true]
      cases List.suffix_cons_iff.mp right with
      | inl whole => exact .inr (whole ▸ here)
      | inr later => exact .inl (ih later)

/-- The rest of the pattern is tried at a place to the right. -/
theorem maxExpand_some (found : maxExpand x k s = some r) : ∃ t, t <:+ s ∧ k t = some r := by
  induction s with
  | nil => exact ⟨[], List.suffix_rfl, found⟩
  | cons c s ih =>
      rw [maxExpand] at found
      split at found
      case isTrue =>
          cases Option.or_eq_some_iff.mp found with
          | inl later =>
              obtain ⟨t, right, here⟩ := ih later
              exact ⟨t, right.trans (List.suffix_cons c s), here⟩
          | inr here => exact ⟨c :: s, List.suffix_rfl, here.2⟩
      case isFalse => exact ⟨c :: s, List.suffix_rfl, found⟩

theorem minExpand_some (found : minExpand x k s = some r) : ∃ t, t <:+ s ∧ k t = some r := by
  induction s with
  | nil => exact ⟨[], List.suffix_rfl, found⟩
  | cons c s ih =>
      cases Option.or_eq_some_iff.mp found with
      | inl here => exact ⟨c :: s, List.suffix_rfl, here⟩
      | inr later =>
          obtain ⟨t, right, here⟩ := ih (Option.ite_none_right_eq_some.mp later.2).2
          exact ⟨t, right.trans (List.suffix_cons c s), here⟩

theorem minExpand_none (fails : ∀ t, t <:+ s → k t = none) : minExpand x k s = none := by
  cases found : minExpand x k s with
  | none => rfl
  | some r =>
      obtain ⟨t, right, here⟩ := minExpand_some found
      rw [fails t right] at here
      cases here

/-- The first place where the rest of the pattern matches. -/
theorem minExpand_any {pre : List α} (before : ∀ u, u ≠ [] → u <:+ pre → k (u ++ t) = none)
    (here : k t = some r) : minExpand .any k (pre ++ t) = some r := by
  induction pre with
  | nil =>
      cases t with
      | nil => exact here
      | cons c t =>
          change (k (c :: t)).or _ = _
          rw [here, Option.some_or]
  | cons c pre ih =>
      have fails := before (c :: pre) (List.cons_ne_nil c pre) List.suffix_rfl
      change (k (c :: pre ++ t)).or (minExpand .any k (pre ++ t)) = some r
      rw [fails, Option.none_or]
      refine ih fun u nonempty right => before u nonempty ?_
      exact right.trans (List.suffix_cons c pre)

end Repetition

section Matches
variable {p : List (Item α)} {s e w : List α} {caps caps' : List (Capture α)}

theorem doMatch_literal :
    doMatch (literal w ++ p) s caps =
      if w <+: s then doMatch p (s.drop w.length) caps else none := by
  induction w generalizing s with
  | nil => simp [literal]
  | cons c w ih =>
      cases s with
      | nil => simp [literal, doMatch]
      | cons c' s =>
          change (if _ then doMatch (literal w ++ p) s caps else none) = _
          rw [ih]
          by_cases same : c' = c
          · simp [Single.matches, same]
          · have other : ¬ c = c' := fun eq => same eq.symm
            simp [Single.matches, same, other]

theorem doMatch_literal_pos (at_ : w <+: s) :
    doMatch (literal w ++ p) s caps = doMatch p (s.drop w.length) caps := by
  rw [doMatch_literal, if_pos at_]

/-- A match consumes a part of the subject. -/
theorem doMatch_suffix (done : doMatch p s caps = some (e, caps')) : e <:+ s := by
  induction p generalizing s caps with
  | nil =>
      cases done
      exact List.suffix_rfl
  | cons item p ih =>
      cases item with
      | single x =>
          cases s with
          | nil => cases done
          | cons c s =>
              exact (ih (Option.ite_none_right_eq_some.mp done).2).trans (List.suffix_cons c s)
      | star x =>
          obtain ⟨t, right, here⟩ := maxExpand_some done
          exact (ih here).trans right
      | plus x =>
          cases s with
          | nil => cases done
          | cons c s =>
              obtain ⟨t, right, here⟩ := maxExpand_some (Option.ite_none_right_eq_some.mp done).2
              exact ((ih here).trans right).trans (List.suffix_cons c s)
      | minus x =>
          obtain ⟨t, right, here⟩ := minExpand_some done
          exact (ih here).trans right
      | opens => exact ih done
      | closes =>
          obtain ⟨caps₁, -, here⟩ := Option.bind_eq_some_iff.mp done
          exact ih here

/-- A match at the first place is the one that is found. -/
theorem strMatch_head (done : doMatch p s [] = some (e, caps)) :
    strMatch p s = some (texts s e caps) := by
  cases s with
  | nil => simp [strMatch, done]
  | cons c s => simp [strMatch, done]

theorem strMatch_none (fails : ∀ t, t <:+ s → doMatch p t [] = none) : strMatch p s = none := by
  rw [strMatch, List.findSome?_eq_none_iff]
  intro t mem
  rw [fails t ((List.mem_tails t s).mp mem)]
  rfl

end Matches

section Substitution
variable {p : List (Item α)} {value : List α → List (List α) → Except ε (List α)}
  {src e : List α} {lastmatch : Option (List α)} {n : Nat} {buffer : List α}
  {caps : List (Capture α)}

/-- A match at this place, unless it ends where the last one did. -/
def matchAt (p : List (Item α)) (src : List α) (lastmatch : Option (List α)) :
    Option (List α × List (Capture α)) :=
  (doMatch p src []).filter fun found => some found.1 ≠ lastmatch

theorem matchAt_suffix (found : matchAt p src lastmatch = some (e, caps)) :
    e <:+ src ∧ some e ≠ lastmatch := by
  obtain ⟨done, new⟩ := Option.filter_eq_some_iff.mp found
  exact ⟨doMatch_suffix done, of_decide_eq_true new⟩

/-- The loop of `str_gsub`: the rest of the subject, the end of the last match, the number of
replacements and the buffer. The value of a match, which has the match and its captures, can
raise. -/
def gsubLoop (p : List (Item α)) (value : List α → List (List α) → Except ε (List α))
    (src : List α) (lastmatch : Option (List α)) (n : Nat) (buffer : List α) :
    Except ε (List α × Nat) :=
  match _found : matchAt p src lastmatch with
  | some (e, caps) =>
      match value (src.take (src.length - e.length)) (texts src e caps) with
      | .ok v => gsubLoop p value e (some e) (n + 1) (buffer ++ v)
      | .error err => .error err
  | none =>
      match src with
      | c :: src => gsubLoop p value src lastmatch n (buffer ++ [c])
      | [] => .ok (buffer, n)
termination_by 2 * src.length + if lastmatch = some src then 0 else 1
decreasing_by
  · obtain ⟨right, new⟩ := matchAt_suffix _found
    rw [if_pos trivial]
    cases Nat.lt_or_eq_of_le right.length_le with
    | inl shorter => omega
    | inr same =>
        rw [if_neg fun last => new (by rw [last, right.eq_of_length same])]
        omega
  · rw [List.length_cons]
    split <;> split <;> omega

/-- `string.gsub`, without a bound on the number of replacements. -/
def gsub (p : List (Item α)) (value : List α → List (List α) → Except ε (List α)) (s : List α) :
    Except ε (List α × Nat) := gsubLoop p value s none 0 []

theorem matchAt_none (fails : doMatch p src [] = none) : matchAt p src lastmatch = none := by
  rw [matchAt, fails]
  rfl

/-- Where nothing matches, the subject goes to the buffer. -/
theorem gsubLoop_append {pre : List α}
    (fails : ∀ u, u ≠ [] → u <:+ pre → doMatch p (u ++ src) [] = none) :
    gsubLoop p value (pre ++ src) lastmatch n buffer =
      gsubLoop p value src lastmatch n (buffer ++ pre) := by
  induction pre generalizing buffer with
  | nil => simp
  | cons c pre ih =>
      have here := fails (c :: pre) (List.cons_ne_nil c pre) List.suffix_rfl
      rw [List.cons_append] at here
      rw [List.cons_append, gsubLoop]
      split
      case h_1 found =>
          rw [matchAt_none here] at found
          cases found
      case h_2 =>
          dsimp only
          rw [ih fun u nonempty right => fails u nonempty (right.trans (List.suffix_cons c pre)),
            List.append_assoc, List.singleton_append]

theorem gsubLoop_nil (fails : doMatch p [] [] = none) :
    gsubLoop p value [] lastmatch n buffer = .ok (buffer, n) := by
  rw [gsubLoop]
  split
  case h_1 found =>
      rw [matchAt_none fails] at found
      cases found
  case h_2 => rfl

theorem gsubLoop_none (fails : ∀ t, t <:+ src → doMatch p t [] = none) :
    gsubLoop p value src lastmatch n buffer = .ok (buffer ++ src, n) := by
  have whole : gsubLoop p value (src ++ []) lastmatch n buffer =
      gsubLoop p value [] lastmatch n (buffer ++ src) := by
    apply gsubLoop_append
    intro u _ right
    rw [List.append_nil]
    exact fails u right
  rw [List.append_nil] at whole
  rw [whole]
  exact gsubLoop_nil (fails [] (List.nil_suffix))

/-- A match is replaced, and the loop goes on behind it. -/
theorem gsubLoop_match {v : List α} (done : doMatch p src [] = some (e, caps))
    (new : some e ≠ lastmatch)
    (replaced : value (src.take (src.length - e.length)) (texts src e caps) = .ok v) :
    gsubLoop p value src lastmatch n buffer =
      gsubLoop p value e (some e) (n + 1) (buffer ++ v) := by
  have found : matchAt p src lastmatch = some (e, caps) := by
    rw [matchAt, done]
    exact if_pos (decide_eq_true new)
  rw [gsubLoop]
  split
  case h_1 e' caps' found' =>
      cases found.symm.trans found'
      rw [replaced]
  case h_2 none =>
      rw [found] at none
      cases none

/-- The number of replacements grows. -/
theorem gsubLoop_le {b : List α} {m : Nat}
    (done : gsubLoop p value src lastmatch n buffer = .ok (b, m)) : n ≤ m := by
  fun_induction gsubLoop p value src lastmatch n buffer with
  | case1 src lastmatch n buffer e caps found v replaced ih =>
      exact Nat.le_of_succ_le (ih done)
  | case2 => cases done
  | case3 lastmatch n buffer c src _ ih => exact ih done
  | case4 =>
      cases done
      exact Nat.le_refl _

end Substitution

/-- `string.find` from the place `init` on: the places where the match begins and ends. -/
def strFind (p : List (Item α)) (s : List α) (init : Nat) : Option (Nat × Nat) :=
  if s.length + 1 < init then none
  else (s.drop (init - 1)).tails.findSome? fun t =>
    (doMatch p t []).map fun (e, _) => (s.length - t.length + 1, s.length - e.length)

section Places
variable {s t u : List α} {c : α} {init b e i n : Nat}

private theorem findSome?_tails_char (short : u.length ≤ n) :
    (u.tails.findSome? fun t => (doMatch [.single (.char c)] t []).map fun (e, _) =>
      (n - t.length + 1, n - e.length)) =
      (u.findIdx? (· = c)).map fun i => (n - u.length + i + 1, n - u.length + i + 1) := by
  induction u with
  | nil => rfl
  | cons c' u ih =>
      rw [List.length_cons] at short
      rw [List.tails_cons, List.findSome?_cons, List.findIdx?_cons]
      by_cases here : c' = c
      · have next : n - (u.length + 1) + 1 = n - u.length := by omega
        simp [doMatch, Single.matches, here, next]
      · have next : ∀ i, n - u.length + i + 1 = n - (u.length + 1) + (i + 1) + 1 := by omega
        simp [doMatch, Single.matches, here, ih (by omega), next, Function.comp_def]

theorem strFind_char :
    strFind [.single (.char c)] s init =
      if s.length + 1 < init then none
      else ((s.drop (init - 1)).findIdx? (· = c)).map
        fun i => (init - 1 + i + 1, init - 1 + i + 1) := by
  have short : (s.drop (init - 1)).length ≤ s.length := by simp
  rw [strFind, findSome?_tails_char short, List.length_drop]
  split
  case isTrue => rfl
  case isFalse inside =>
      have place : s.length - (s.length - (init - 1)) = init - 1 := by omega
      rw [place]

/-- An element is found at its first place from `init` on. -/
theorem strFind_char_some (found : strFind [.single (.char c)] s init = some (b, e)) :
    init ≤ e ∧ 0 < e ∧ s[e - 1]? = some c ∧ ∀ i, init ≤ i → i < e → 0 < i → s[i - 1]? ≠ some c := by
  rw [strFind_char] at found
  obtain ⟨-, found⟩ := Option.ite_none_left_eq_some.mp found
  obtain ⟨i, here, same⟩ := Option.map_eq_some_iff.mp found
  cases same
  obtain ⟨lt, is, before⟩ := List.findIdx?_eq_some_iff_getElem.mp here
  rw [List.getElem_drop, decide_eq_true_iff] at is
  refine ⟨by omega, by omega, ?_, ?_⟩
  · rw [Nat.add_sub_cancel, ← is]
    exact List.getElem?_eq_getElem _
  · intro j from_ to_ pos again
    obtain ⟨lt', again⟩ := List.getElem?_eq_some_iff.mp again
    refine before (j - 1 - (init - 1)) (by omega) ?_
    rw [List.getElem_drop, decide_eq_true_iff, ← again]
    congr 1
    omega

theorem strFind_char_none (fails : strFind [.single (.char c)] s init = none) (from_ : init ≤ i)
    (pos : 0 < i) : s[i - 1]? ≠ some c := by
  intro here
  obtain ⟨lt, is⟩ := List.getElem?_eq_some_iff.mp here
  rw [strFind_char, if_neg (by omega), Option.map_eq_none_iff, List.findIdx?_eq_none_iff] at fails
  have mem : c ∈ s.drop (init - 1) := by
    rw [← is, List.mem_drop_iff_getElem]
    refine ⟨i - 1 - (init - 1), by omega, ?_⟩
    congr 1
    omega
  exact of_decide_eq_false (fails c mem) rfl

end Places

end Qiuqiu.Pattern
