import Mathlib.Logic.Function.Basic
import Qiuqiu.Base.Bytes
import Qiuqiu.Base.Find
import Qiuqiu.Base.Pattern

/-!
`GenFile` of charvar/activity/var_name.lua, charvar/agent/var_name.lua and
charvar/gameserver/var_name.lua. The generated text goes into a file between two
marks. The substitution replaces every such region, and the file is written only if
there was one.
-/
namespace Qiuqiu.Text.GenFile
open Pattern Find

def markBegin : Bytes := ascii "--autogen-begin"

def markEnd : Bytes := ascii "--autogen-end"

/-- `(%-%-autogen%-begin).-(%-%-autogen%-end)`. -/
def pattern : List (Item UInt8) :=
  .opens :: (literal markBegin ++ .closes :: .minus .any ::
    .opens :: (literal markEnd ++ [.closes]))

/-- `.+%.lua`. -/
def pathPattern : List (Item UInt8) := .plus .any :: literal (ascii ".lua")

/-- `%`. -/
def esc : UInt8 := 37

inductive Error where
  | invalidUse
  | invalidCapture (index : Nat)
  | message (msg : Bytes)
  | notOpened (path : Bytes)

/-- `add_s` in skynet/3rd/lua/lstrlib.c: the text of the replacement `news`. -/
def addS (whole : Bytes) (caps : List Bytes) : Bytes → Except Error Bytes
  | [] => .ok []
  | [c] => if c = esc then .error .invalidUse else .ok [c]
  | c :: d :: news =>
      if c = esc then
        if d = esc then (addS whole caps news).map (esc :: ·)
        else if d = 48 then (addS whole caps news).map (whole ++ ·)
        else if isdigit d then
          match caps[d.toNat - 49]? with
          | some cap => (addS whole caps news).map (cap ++ ·)
          | none => .error (.invalidCapture (d.toNat - 48))
        else .error .invalidUse
      else (addS whole caps (d :: news)).map (c :: ·)

/-- Files by their paths, and which of them can be opened. -/
structure Disk where
  content : Bytes → Option Bytes
  readable : Bytes → Bool
  writable : Bytes → Bool

namespace Disk

def read (disk : Disk) (path : Bytes) : Option Bytes :=
  if disk.readable path then disk.content path else none

def write (disk : Disk) (path data : Bytes) : Disk :=
  { disk with content := Function.update disk.content path (some data) }

end Disk

/-- The texts of the two errors, in front of the path and behind it. -/
structure Texts where
  once : Bytes × Bytes
  notFile : Bytes

def genFile (texts : Texts) (disk : Disk) (filePath data : Bytes) : Except Error Unit × Disk :=
  match strMatch pathPattern filePath with
  | none => (.ok (), disk)
  | some _ =>
      match disk.read filePath with
      | none => (.error (.message (texts.notFile ++ filePath)), disk)
      | some content =>
          let repl := ascii "%1" ++ data ++ ascii "%2"
          match gsub pattern (fun whole caps => addS whole caps repl) content with
          | .error e => (.error e, disk)
          | .ok (data, sub) =>
              if sub = 1 then
                if disk.writable filePath then (.ok (), disk.write filePath data)
                else (.error (.notOpened filePath), disk)
              else (.error (.message (texts.once.1 ++ filePath ++ texts.once.2)), disk)

/-- charvar/activity/var_name.lua and charvar/gameserver/var_name.lua. -/
def activityTexts : Texts where
  once := (ascii "must insert into the file: ", ascii " once")
  notFile := ascii "not file:"

/-- charvar/agent/var_name.lua. -/
def agentTexts : Texts where
  once := (ascii "must insert into file: ", ascii " once")
  notFile := ascii "not file: "

section Spec

/-- A text that leaves the marks and the replacement alone. -/
structure Plain (data : Bytes) : Prop where
  noEsc : esc ∉ data
  noBegin : ¬ markBegin <:+: data
  noEnd : ¬ markEnd <:+: data

/-- The text between the first mark of a beginning and the next mark of an end. -/
def Region (content pre mid post : Bytes) : Prop :=
  ∃ rest, FirstAt markBegin content pre rest ∧ FirstAt markEnd rest mid post

/-- The content with another text between the marks. -/
def filled (pre data post : Bytes) : Bytes := pre ++ (markBegin ++ (data ++ (markEnd ++ post)))

/-- It raises and leaves the file, or replaces the region. -/
def TouchesRegion (texts : Texts) (disk : Disk) (path data : Bytes) : Prop :=
  (∃ e, genFile texts disk path data = (.error e, disk)) ∨
    ∃ content pre mid post, disk.content path = some content ∧ Region content pre mid post ∧
      genFile texts disk path data = (.ok (), disk.write path (filled pre data post))

end Spec

section Marks

theorem unbordered_of_take {pat : Bytes}
    (apart : ∀ n < pat.length, pat.take n = pat.drop (pat.length - n) → n = 0) :
    Unbordered pat := by
  intro v nonempty right left
  by_contra short
  have le := left.length_le
  have shorter : v.length < pat.length := by
    refine Nat.lt_of_le_of_ne le fun same => short (left.eq_of_length same)
  have zero := apart v.length shorter
    ((List.prefix_iff_eq_take.mp left).symm.trans (List.suffix_iff_eq_drop.mp right))
  exact nonempty (List.length_eq_zero_iff.mp zero)

theorem unbordered_markBegin : Unbordered markBegin := unbordered_of_take (by decide)

theorem unbordered_markEnd : Unbordered markEnd := unbordered_of_take (by decide)

end Marks

section Matches
variable {s rest mid post : Bytes}

theorem doMatch_end (t : Bytes) (caps : List (Capture UInt8)) :
    doMatch (.opens :: (literal markEnd ++ [.closes])) t caps =
      if markEnd <+: t then some (t.drop markEnd.length, .closed markEnd :: caps) else none := by
  change doMatch (literal markEnd ++ [.closes]) t (.unfinished t :: caps) = _
  rw [doMatch_literal]
  by_cases here : markEnd <+: t
  · obtain ⟨post, rfl⟩ := here
    rw [if_pos (List.prefix_append _ _), if_pos (List.prefix_append _ _), List.drop_left]
    simp [doMatch, endCapture]
  · rw [if_neg here, if_neg here]

/-- Behind the first mark the pattern goes to the next mark of an end. -/
theorem doMatch_begin (rest : Bytes) :
    doMatch pattern (markBegin ++ rest) [] =
      minExpand .any (fun t => doMatch (.opens :: (literal markEnd ++ [.closes])) t
        [.closed markBegin]) rest := by
  change doMatch (literal markBegin ++ _) (markBegin ++ rest) [.unfinished (markBegin ++ rest)] = _
  rw [doMatch_literal_pos (List.prefix_append _ _), List.drop_left]
  change (endCapture rest _).bind _ = _
  simp [endCapture, doMatch]

theorem doMatch_region (next : FirstAt markEnd rest mid post) :
    doMatch pattern (markBegin ++ rest) [] = some (post, [.closed markEnd, .closed markBegin]) := by
  rw [doMatch_begin, next.split]
  refine minExpand_any ?_ ?_
  · intro u nonempty right
    rw [doMatch_end, if_neg (next.not_prefix nonempty right)]
  · rw [doMatch_end, if_pos (List.prefix_append _ _), List.drop_left]

theorem doMatch_not_begin (other : ¬ markBegin <+: s) : doMatch pattern s [] = none := by
  change doMatch (literal markBegin ++ _) s [.unfinished s] = none
  rw [doMatch_literal, if_neg other]

theorem doMatch_not_end (free : ¬ markEnd <:+: rest) :
    doMatch pattern (markBegin ++ rest) [] = none := by
  rw [doMatch_begin]
  refine minExpand_none fun t right => ?_
  rw [doMatch_end, if_neg fun here => free (here.isInfix.trans right.isInfix)]

/-- Nothing in the text is replaced. -/
def NoRegion (s : Bytes) : Prop := ∀ t, t <:+ s → doMatch pattern t [] = none

theorem region_or_noRegion (s : Bytes) : (∃ pre mid post, Region s pre mid post) ∨ NoRegion s := by
  by_cases begins : markBegin <:+: s
  · obtain ⟨pre, rest, first⟩ := exists_firstAt begins
    by_cases ends : markEnd <:+: rest
    · obtain ⟨mid, post, next⟩ := exists_firstAt ends
      exact .inl ⟨pre, mid, post, rest, first, next⟩
    · refine .inr fun t right => ?_
      by_cases here : markBegin <+: t
      · obtain ⟨rest', rfl⟩ := here
        obtain ⟨pre', split⟩ := right
        have later := first.suffix split.symm
        exact doMatch_not_end fun inside => ends (inside.trans later.isInfix)
      · exact doMatch_not_begin here
  · refine .inr fun t right => doMatch_not_begin fun here => ?_
    exact begins (here.isInfix.trans right.isInfix)

end Matches

section Replacement
variable {data content pre mid post : Bytes} {whole : Bytes} {caps : List Bytes}

theorem addS_append (free : esc ∉ data) {news text : Bytes}
    (done : addS whole caps news = .ok text) (long : 2 ≤ news.length) :
    addS whole caps (data ++ news) = .ok (data ++ text) := by
  induction data with
  | nil => exact done
  | cons c data ih =>
      have other : c ≠ esc := fun same => free (same ▸ List.mem_cons_self)
      have later := ih fun mem => free (List.mem_cons_of_mem c mem)
      cases next : data ++ news with
      | nil => simp [List.append_eq_nil_iff.mp next] at long
      | cons d rest =>
          rw [next] at later
          rw [List.cons_append, next, addS, if_neg other, later]
          rfl

/-- The replacement puts the marks around the data. -/
theorem addS_marks (free : esc ∉ data) (whole first second : Bytes) :
    addS whole [first, second] (ascii "%1" ++ data ++ ascii "%2") =
      .ok (first ++ (data ++ second)) := by
  have last : addS whole [first, second] (ascii "%2") = .ok second := by
    simp [ascii, addS, esc, isdigit, Except.map]
  have inner := addS_append free last (by decide)
  change (addS whole [first, second] (data ++ ascii "%2")).map (first ++ ·) = _
  rw [inner]
  rfl

/-- What the substitution has done when it goes on behind the region. -/
theorem gsub_region (plain : Plain data) (region : Region content pre mid post) :
    gsub pattern (fun whole caps => addS whole caps (ascii "%1" ++ data ++ ascii "%2")) content =
      gsubLoop pattern (fun whole caps => addS whole caps (ascii "%1" ++ data ++ ascii "%2")) post
        (some post) 1 (pre ++ (markBegin ++ (data ++ markEnd))) := by
  obtain ⟨rest, first, next⟩ := region
  rw [gsub, first.split, gsubLoop_append, List.nil_append]
  · exact gsubLoop_match (doMatch_region next) nofun (addS_marks plain.noEsc _ _ _)
  · intro u nonempty right
    exact doMatch_not_begin (first.not_prefix nonempty right)

theorem gsub_one (plain : Plain data) (region : Region content pre mid post)
    (only : NoRegion post) :
    gsub pattern (fun whole caps => addS whole caps (ascii "%1" ++ data ++ ascii "%2")) content =
      .ok (filled pre data post, 1) := by
  rw [gsub_region plain region, gsubLoop_none only]
  simp [filled]

theorem gsub_none (none : NoRegion content) :
    gsub pattern (fun whole caps => addS whole caps (ascii "%1" ++ data ++ ascii "%2")) content =
      .ok (content, 0) := by
  rw [gsub, gsubLoop_none none, List.nil_append]

/-- A second region counts. -/
theorem gsub_two {pre' mid' post' b : Bytes} {sub : Nat} (plain : Plain data)
    (region : Region content pre mid post) (second : Region post pre' mid' post')
    (done : gsub pattern (fun whole caps => addS whole caps (ascii "%1" ++ data ++ ascii "%2"))
      content = .ok (b, sub)) : sub ≠ 1 := by
  obtain ⟨rest, first, next⟩ := second
  have behind : some post' ≠ some (pre' ++ (markBegin ++ rest)) := by
    intro same
    have lengths := congrArg List.length (Option.some.inj same)
    have pos : 0 < markBegin.length := by decide
    rw [next.split] at lengths
    simp only [List.length_append] at lengths
    omega
  rw [gsub_region plain region, first.split, gsubLoop_append fun u nonempty right =>
      doMatch_not_begin (first.not_prefix nonempty right),
    gsubLoop_match (doMatch_region next) behind (addS_marks plain.noEsc _ _ _)] at done
  have many := gsubLoop_le done
  omega

/-- The region stays when it is filled. -/
theorem region_filled (plain : Plain data) (region : Region content pre mid post) :
    Region (filled pre data post) pre data post := by
  obtain ⟨rest, first, -⟩ := region
  have freePre := first.not_infix (by decide)
  exact ⟨data ++ (markEnd ++ post), firstAt_of_unbordered unbordered_markBegin freePre _,
    firstAt_of_unbordered unbordered_markEnd plain.noEnd post⟩

end Replacement

section Runs
variable {texts : Texts} {disk : Disk} {path name data : Bytes} {content pre mid post : Bytes}

theorem strMatch_path (nonempty : name ≠ []) :
    (strMatch pathPattern (name ++ ascii ".lua")).isSome := by
  cases name with
  | nil => exact absurd rfl nonempty
  | cons c name =>
      have matched : (doMatch pathPattern (c :: name ++ ascii ".lua") []).isSome := by
        change (maxExpand .any (fun s => doMatch (literal (ascii ".lua")) s [])
          (name ++ ascii ".lua")).isSome
        exact maxExpand_isSome (List.suffix_append _ _) (by decide)
      obtain ⟨⟨e, caps⟩, found⟩ := Option.isSome_iff_exists.mp matched
      rw [strMatch_head found]
      rfl

/-- A file that can be read and written, and has one region. -/
structure OneRegion (disk : Disk) (path content pre mid post : Bytes) : Prop where
  opened : disk.read path = some content
  writable : disk.writable path = true
  region : Region content pre mid post
  only : NoRegion post

theorem OneRegion.readable (one : OneRegion disk path content pre mid post) :
    disk.readable path = true ∧ disk.content path = some content :=
  Option.ite_none_right_eq_some.mp one.opened

theorem genFile_one (isPath : (strMatch pathPattern path).isSome) (plain : Plain data)
    (one : OneRegion disk path content pre mid post) :
    genFile texts disk path data = (.ok (), disk.write path (filled pre data post)) := by
  obtain ⟨found, matched⟩ := Option.isSome_iff_exists.mp isPath
  simp only [genFile, matched, one.opened, gsub_one plain one.region one.only, if_true,
    one.writable]

/-- Every other file is left. -/
theorem genFile_raises (isPath : (strMatch pathPattern path).isSome) (plain : Plain data)
    (other : ∀ content pre mid post, ¬ OneRegion disk path content pre mid post) :
    ∃ e, genFile texts disk path data = (.error e, disk) := by
  obtain ⟨found, matched⟩ := Option.isSome_iff_exists.mp isPath
  cases opened : disk.read path with
  | none => exact ⟨_, by simp only [genFile, matched, opened]; rfl⟩
  | some content =>
      simp only [genFile, matched, opened]
      cases region_or_noRegion content with
      | inr none =>
          rw [gsub_none none]
          exact ⟨_, rfl⟩
      | inl one =>
          obtain ⟨pre, mid, post, region⟩ := one
          cases region_or_noRegion post with
          | inr only =>
              rw [gsub_one plain region only]
              have closed : ¬ disk.writable path = true := fun writable =>
                other content pre mid post ⟨opened, writable, region, only⟩
              simp only [if_true, if_neg closed]
              exact ⟨_, rfl⟩
          | inl two =>
              obtain ⟨pre', mid', post', second⟩ := two
              split
              case h_1 e _ => exact ⟨e, rfl⟩
              case h_2 b sub done =>
                  rw [if_neg (gsub_two plain region second done)]
                  exact ⟨_, rfl⟩

/-- The data stand in the one region, or the run has raised. -/
theorem genFile_cases (texts : Texts) (isPath : (strMatch pathPattern path).isSome)
    (plain : Plain data) :
    (∃ e, genFile texts disk path data = (.error e, disk)) ∨
      ∃ content pre mid post, OneRegion disk path content pre mid post := by
  by_cases one : ∃ content pre mid post, OneRegion disk path content pre mid post
  · exact .inr one
  · refine .inl (genFile_raises isPath plain fun content pre mid post here => ?_)
    exact one ⟨content, pre, mid, post, here⟩

theorem Disk.read_write (readable : disk.readable path = true) :
    (disk.write path data).read path = some data := by
  simp [Disk.read, Disk.write, readable]

theorem Disk.write_write (data data' : Bytes) :
    (disk.write path data).write path data' = disk.write path data' := by
  simp [Disk.write]

theorem OneRegion.write (plain : Plain data) (one : OneRegion disk path content pre mid post) :
    OneRegion (disk.write path (filled pre data post)) path (filled pre data post) pre data post :=
  ⟨Disk.read_write one.readable.1, one.writable, region_filled plain one.region, one.only⟩

/-- A run with data behind another run is the run with these data alone. -/
theorem genFile_again {data' : Bytes} (texts : Texts) (disk : Disk)
    (isPath : (strMatch pathPattern path).isSome) (plain : Plain data) (plain' : Plain data') :
    genFile texts (genFile texts disk path data).2 path data' = genFile texts disk path data' := by
  cases genFile_cases texts isPath plain with
  | inl raised =>
      obtain ⟨e, raised⟩ := raised
      rw [raised]
  | inr one =>
      obtain ⟨content, pre, mid, post, one⟩ := one
      rw [genFile_one isPath plain one, genFile_one isPath plain' one,
        genFile_one isPath plain' (one.write plain), Disk.write_write]

/-- For a path with something before `.lua` and data without `%` and marks, `GenFile` raises or
replaces the region alone; it does nothing the second time, and other data give the file that
they give without the first run. -/
theorem genFile_touches_region (texts : Texts) (disk : Disk) {name data : Bytes}
    (nonempty : name ≠ []) (plain : Plain data) :
    TouchesRegion texts disk (name ++ ascii ".lua") data ∧
      (genFile texts (genFile texts disk (name ++ ascii ".lua") data).2 (name ++ ascii ".lua")
        data).2 = (genFile texts disk (name ++ ascii ".lua") data).2 ∧
      ∀ data', Plain data' →
        genFile texts (genFile texts disk (name ++ ascii ".lua") data).2 (name ++ ascii ".lua")
          data' = genFile texts disk (name ++ ascii ".lua") data' := by
  have isPath := strMatch_path nonempty
  refine ⟨?_, ?_, fun data' plain' => genFile_again texts disk isPath plain plain'⟩
  · cases genFile_cases texts isPath plain with
    | inl raised => exact .inl raised
    | inr one =>
        obtain ⟨content, pre, mid, post, one⟩ := one
        exact .inr ⟨content, pre, mid, post, one.readable.2, one.region,
          genFile_one isPath plain one⟩
  · rw [genFile_again texts disk isPath plain plain]

/-- A disk on which every file has two marks with nothing between them. -/
def marked : Disk where
  content := fun _ => some (markBegin ++ markEnd)
  readable := fun _ => true
  writable := fun _ => true

theorem plain_x : Plain (ascii "x") := ⟨by decide, by decide, by decide⟩

theorem genFile_touches_role :
    ascii "role" ≠ [] ∧ Plain (ascii "x") ∧
      TouchesRegion activityTexts marked (ascii "role" ++ ascii ".lua") (ascii "x") ∧
      TouchesRegion agentTexts marked (ascii "role" ++ ascii ".lua") (ascii "x") :=
  ⟨by decide, plain_x, (genFile_touches_region activityTexts marked (by decide) plain_x).1,
    (genFile_touches_region agentTexts marked (by decide) plain_x).1⟩

/-- The path `.lua` ends in `.lua`, and is passed over in silence. -/
theorem genFile_skips_dot_lua :
    Plain (ascii "x") ∧ genFile activityTexts marked (ascii ".lua") (ascii "x") = (.ok (), marked) ∧
      ¬ TouchesRegion activityTexts marked (ascii ".lua") (ascii "x") := by
  have skipped : genFile activityTexts marked (ascii ".lua") (ascii "x") = (.ok (), marked) := by
    have none : strMatch pathPattern (ascii ".lua") = none := by decide
    rw [genFile, none]
  refine ⟨plain_x, skipped, ?_⟩
  intro touches
  cases touches with
  | inl raised =>
      obtain ⟨e, raised⟩ := raised
      rw [skipped] at raised
      cases raised
  | inr replaced =>
      obtain ⟨content, pre, mid, post, has, -, wrote⟩ := replaced
      rw [skipped] at wrote
      have contents := congrArg (fun disk => disk.content (ascii ".lua")) (Prod.mk.inj wrote).2
      simp only [marked, Disk.write, Function.update_self, Option.some.injEq] at contents
      have lengths := congrArg List.length contents
      have one : (ascii "x").length = 1 := by decide
      simp only [filled, List.length_append] at lengths
      omega

end Runs

end Qiuqiu.Text.GenFile
