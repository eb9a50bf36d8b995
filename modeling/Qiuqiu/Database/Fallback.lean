import Mathlib.Data.String.Basic
import Qiuqiu.Base.Runs
import Qiuqiu.Database.Shutdown

/-!
The files a failed save leaves behind, and the start-up check of
service/databasecell/dbcheck.lua that restores them. The check reads the key
off the path by `string.split`, whose second argument is a set of characters:
".dat" splits at every `.`, `d`, `a` and `t`, and the directories above the
key are split with it.
-/
namespace Qiuqiu.Database
namespace Fallback

/-- `string.split` of lualib/extend/string.lua: `gsub` of "[^reps]+". -/
def split (str reps : String) : List String :=
  (str.toList.runs fun c => reps.toList.contains c).map String.ofList

inductive Dname where
  | list
  | role
  | roleact
  | mod
  deriving DecidableEq

inductive Key where
  | list (urs : String)
  | role (uid : String)
  | roleact (uid actName : String)
  | mod (modname : String)
  deriving DecidableEq

/-- The key `_CheckPath(dname, path)` restores `pathFile` under; without one
it raises. -/
def checkPath (pathFile : String) : Dname → Option Key
  | .list => do
      let urs ← (split (← (split pathFile "/").getLast?) ".dat").head?
      return .list urs
  | .role => do
      let uid ← (split (← (split pathFile "/").getLast?) ".dat").head?
      return .role uid
  | .roleact => do
      let sp := "/roleact/".intercalate (split pathFile "/roleact/").tail
      let tmp := (split sp "/").tail.tail
      let uid ← tmp.head?
      let actName ← (split ("/".intercalate tmp.tail) ".dat").head?
      return .roleact uid actName
  | .mod => do
      let sp := "/dat/".intercalate (split pathFile "/dat/").tail
      let mod ← (split sp ".dat").head?
      return .mod mod

/-- `DATABASE_BASEDIR` of lualib/macros/macros_common.lua. It is set to nil
before it is tested, so the directory is never the configured one. -/
def databaseBasedir : String := "../data/unknow/"

section
variable (host : Host)

def Key.dname : Key → Dname
  | .list _ => .list
  | .role _ => .role
  | .roleact _ _ => .roleact
  | .mod _ => .mod

def savePath : Key → String
  | .list urs => getListSavePath { host with baseDir := databaseBasedir } urs
  | .role uid => getRoleSavePath { host with baseDir := databaseBasedir } uid
  | .roleact uid actName =>
      getRoleActSavePath { host with baseDir := databaseBasedir } uid actName
  | .mod modname => getModuleSavePath { host with baseDir := databaseBasedir } modname

/-- The characters a key may have. -/
def Key.Allowed : Key → Prop
  | .list urs => '/' ∉ urs.toList
  | .role uid => '/' ∉ uid.toList
  | .roleact uid actName => '/' ∉ uid.toList ∧ '/' ∉ actName.toList
  | .mod _ => True

/-- A function is printed as its type and its address. -/
def PrintsFunction : Prop :=
  ∃ address : String, host.stringSub = "function: " ++ address ∧ '/' ∉ address.toList

/-- The file of a key comes back under the key, and is the file of no other. -/
structure ComesBack (k : Key) : Prop where
  parsed : checkPath (savePath host k) k.dname = some k
  alone : ∀ k', k'.Allowed → savePath host k' = savePath host k → k' = k

end

/-- The keys that come back. -/
def Key.Survives : Key → Prop
  | .list urs => urs ≠ "" ∧ ∀ c ∈ urs.toList, c ∉ ".dat".toList
  | .role uid => uid = "func"
  | .roleact uid actName => uid = "unkn" ∧ actName = "role"
  | .mod modname => modname = "unknow/"

theorem split_append_cons {str a b reps : String} {c : Char} (hc : c ∈ reps.toList)
    (h : str.toList = a.toList ++ c :: b.toList) :
    split str reps = split a reps ++ split b reps := by
  simp only [split]
  rw [h, List.runs_append_cons (List.contains_iff_mem.2 hc), List.map_append]

theorem split_of_free {str reps : String} (ne : str ≠ "")
    (free : ∀ c ∈ str.toList, c ∉ reps.toList) : split str reps = [str] := by
  simp only [split]
  rw [List.runs_of_free]
  · simp
  · simpa using ne
  · intro c hc
    simpa using free c hc

theorem split_head_eq_self {str reps : String} :
    (split str reps).head? = some str ↔ str ≠ "" ∧ ∀ c ∈ str.toList, c ∉ reps.toList := by
  have head : (split str reps).head? = some str ↔
      (str.toList.runs fun c => reps.toList.contains c).head? = some str.toList := by
    simp only [split]
    rw [List.head?_map, Option.map_eq_some_iff]
    constructor
    · rintro ⟨run, first, rfl⟩
      rw [first, String.toList_ofList]
    · intro first
      exact ⟨_, first, String.ofList_toList⟩
  rw [head, List.head_runs_eq_self]
  simp

theorem split_first {str a b reps : String} {c : Char} (hc : c ∈ reps.toList) (ne : a ≠ "")
    (free : ∀ c ∈ a.toList, c ∉ reps.toList) (h : str.toList = a.toList ++ c :: b.toList) :
    (split str reps).head? = some a := by
  rw [split_append_cons hc h, split_of_free ne free]
  rfl

/-- The last component of a path. -/
theorem split_last {str a name : String} (ne : name ≠ "") (free : '/' ∉ name.toList)
    (h : str.toList = a.toList ++ '/' :: name.toList) : (split str "/").getLast? = some name := by
  have single : split name "/" = [name] := by
    apply split_of_free ne
    intro c hc slash
    have eq : c = '/' := by simpa using slash
    exact free (eq ▸ hc)
  rw [split_append_cons (by simp) h, single, List.getLast?_concat]

theorem split_ne_nil {str a b reps : String} {c d : Char} (hc : c ∉ reps.toList)
    (hd : d ∈ reps.toList) (h : str.toList = (a.toList ++ [c]) ++ d :: b.toList) :
    split str reps ≠ [] := by
  have run : (a.toList ++ [c]).runs (fun c => reps.toList.contains c) ≠ [] :=
    List.runs_append_singleton_ne_nil (by simpa using hc)
  simp only [split]
  rw [h, List.runs_append_cons (List.contains_iff_mem.2 hd)]
  simp [run]

theorem intercalate_cons (sep a : String) (rest : List String) :
    ∃ b, (sep.intercalate (a :: rest)).toList = a.toList ++ String.toList b := by
  cases rest with
  | nil => exact ⟨"", by simp⟩
  | cons b rest =>
      refine ⟨sep ++ sep.intercalate (b :: rest), ?_⟩
      simp [String.toList_intercalate, List.intercalate]

theorem intercalate_cons_cons (sep a b : String) (rest : List String) :
    (sep.intercalate (a :: b :: rest)).toList =
      a.toList ++ sep.toList ++ (sep.intercalate (b :: rest)).toList := by
  simp [String.toList_intercalate, List.intercalate]

section
variable {host : Host}

theorem getListSavePath_toList (host : Host) (urs : String) :
    ∃ dir : String,
      (getListSavePath host urs).toList = dir.toList ++ '/' :: (urs ++ ".dat").toList := by
  simp only [getListSavePath]
  split
  · refine ⟨host.baseDir ++ "list/un/" ++ toString urs.utf8ByteSize ++ "/" ++
      toString urs.utf8ByteSize, ?_⟩
    simp
  · refine ⟨host.baseDir ++ "list/" ++ sub urs 1 1 ++ "/" ++ sub urs 2 2 ++ "/" ++ sub urs 3 3, ?_⟩
    simp

theorem checkPath_list {path dir urs : String} (allowed : '/' ∉ urs.toList)
    (h : path.toList = dir.toList ++ '/' :: (urs ++ ".dat").toList) :
    checkPath path .list = (split urs ".dat").head?.map .list := by
  have last : (split path "/").getLast? = some (urs ++ ".dat") := by
    refine split_last ?_ ?_ h
    · simp
    · simpa using allowed
  have ext : split (urs ++ ".dat") ".dat" = split urs ".dat" := by
    rw [split_append_cons (a := urs) (b := "dat") (c := '.') (by simp) (by simp)]
    have none : split "dat" ".dat" = [] := by decide
    rw [none, List.append_nil]
  simp only [checkPath, last, ext, bind, Option.bind]
  cases (split urs ".dat").head? with
  | none => rfl
  | some urs => rfl

theorem checkPath_role (dir : String) {path address : String} (slash : '/' ∉ address.toList)
    (h : path.toList = dir.toList ++ '/' :: ("function: " ++ address ++ ".dat").toList) :
    checkPath path .role = some (.role "func") := by
  have last : (split path "/").getLast? = some ("function: " ++ address ++ ".dat") := by
    refine split_last ?_ ?_ h
    · simp
    · simpa using slash
  have first : (split ("function: " ++ address ++ ".dat") ".dat").head? = some "func" := by
    apply split_first (b := "ion: " ++ address ++ ".dat") (c := 't')
    · decide
    · decide
    · simp
    · simp
  simp only [checkPath, last, first, bind, Option.bind]
  rfl

theorem checkPath_roleact (rest : String) {path : String}
    (h : path.toList = "../data/unknow/roleact".toList ++ '/' :: rest.toList) :
    checkPath path .roleact = some (.roleact "unkn" "role") := by
  have dirs : split "../data/unknow/roleact" "/roleact/" = ["..", "d", "unkn", "w"] := by decide
  have sp : (split path "/roleact/").tail = "d" :: "unkn" :: "w" :: split rest "/roleact/" := by
    rw [split_append_cons (by decide) h, dirs]
    rfl
  obtain ⟨b, hb⟩ := intercalate_cons "/roleact/" "w" (split rest "/roleact/")
  have joined : ("/roleact/".intercalate (split path "/roleact/").tail).toList =
      "d/roleact/unkn/roleact".toList ++ '/' :: ("w" ++ b).toList := by
    rw [sp, intercalate_cons_cons, intercalate_cons_cons, hb]
    simp
  have tmp : (split ("/roleact/".intercalate (split path "/roleact/").tail) "/").tail.tail =
      "unkn" :: "roleact" :: split ("w" ++ b) "/" := by
    have dirs' : split "d/roleact/unkn/roleact" "/" = ["d", "roleact", "unkn", "roleact"] := by
      decide
    rw [split_append_cons (by decide) joined, dirs']
    rfl
  obtain ⟨d, hd⟩ := intercalate_cons "/" "roleact" (split ("w" ++ b) "/")
  have first : (split ("/".intercalate ("roleact" :: split ("w" ++ b) "/")) ".dat").head? =
      some "role" := by
    apply split_first (b := "ct" ++ d) (c := 'a')
    · decide
    · decide
    · simp
    · rw [hd]
      simp
  simp only [checkPath, tmp, List.tail_cons, List.head?_cons, first, bind, Option.bind]
  rfl

theorem checkPath_mod (modname : String) {path : String}
    (h : path.toList = "../data/unknow".toList ++ '/' :: ("dat/" ++ modname ++ ".dat").toList) :
    checkPath path .mod = some (.mod "unknow/") := by
  have ne : split ("dat/" ++ modname ++ ".dat") "/dat/" ≠ [] :=
    split_ne_nil (a := "dat/" ++ modname) (b := "at") (c := '.') (d := 'd') (by decide) (by decide)
      (by simp)
  have dirs : split "../data/unknow" "/dat/" = ["..", "unknow"] := by decide
  have sp : (split path "/dat/").tail =
      "unknow" :: split ("dat/" ++ modname ++ ".dat") "/dat/" := by
    rw [split_append_cons (by decide) h, dirs]
    rfl
  have first : (split ("/dat/".intercalate (split path "/dat/").tail) ".dat").head? =
      some "unknow/" := by
    rw [sp]
    cases parts : split ("dat/" ++ modname ++ ".dat") "/dat/" with
    | nil => exact absurd parts ne
    | cons part rest =>
        apply split_first (b := "at/" ++ "/dat/".intercalate (part :: rest)) (c := 'd')
        · decide
        · decide
        · simp
        · rw [intercalate_cons_cons]
          simp
  simp only [checkPath, first, bind, Option.bind]
  rfl

/-- The four kinds of keys have directories of their own. -/
def Dname.dir : Dname → String
  | .list => "list/"
  | .role => "role/"
  | .roleact => "roleact/"
  | .mod => "dat/"

theorem savePath_dir (host : Host) (k : Key) :
    ∃ rest : String, savePath host k = databaseBasedir ++ (k.dname.dir ++ rest) := by
  cases k with
  | list urs =>
      simp only [savePath, getListSavePath]
      split
      · exact ⟨"un/" ++ toString urs.utf8ByteSize ++ "/" ++ toString urs.utf8ByteSize ++ "/" ++
          urs ++ ".dat", by simp [Key.dname, Dname.dir, ← String.toList_inj]⟩
      · exact ⟨sub urs 1 1 ++ "/" ++ sub urs 2 2 ++ "/" ++ sub urs 3 3 ++ "/" ++ urs ++ ".dat",
          by simp [Key.dname, Dname.dir, ← String.toList_inj]⟩
  | role uid =>
      exact ⟨sub uid 1 5 ++ "/" ++ sub uid 6 7 ++ "/" ++ host.stringSub ++ ".dat",
        by simp [savePath, getRoleSavePath, Key.dname, Dname.dir, ← String.toList_inj]⟩
  | roleact uid actName =>
      exact ⟨sub uid 1 5 ++ "/" ++ sub uid 6 7 ++ "/" ++ uid ++ "/" ++ actName ++ ".dat",
        by simp [savePath, getRoleActSavePath, Key.dname, Dname.dir, ← String.toList_inj]⟩
  | mod modname =>
      exact ⟨modname ++ ".dat",
        by simp [savePath, getModuleSavePath, Key.dname, Dname.dir, ← String.toList_inj]⟩

theorem dir_append_inj {d d' : Dname} {a b : String} (h : d.dir ++ a = d'.dir ++ b) :
    d = d' := by
  rw [← String.toList_inj] at h
  cases d <;> cases d' <;> first | rfl | (exfalso; simp [Dname.dir] at h)

theorem dname_eq_of_savePath_eq {k k' : Key} (h : savePath host k = savePath host k') :
    k.dname = k'.dname := by
  obtain ⟨rest, hk⟩ := savePath_dir host k
  obtain ⟨rest', hk'⟩ := savePath_dir host k'
  rw [hk, hk', String.append_right_inj] at h
  exact dir_append_inj h

theorem sub_free {s : String} {c : Char} (h : c ∉ s.toList) (i j : Nat) :
    c ∉ (sub s i j).toList := by
  intro mem
  rw [sub, String.toList_ofList] at mem
  exact h (List.mem_of_mem_take (List.mem_of_mem_drop mem))

/-- A prefix that is too short is the whole key. -/
theorem eq_of_sub_eq {s t : String} {j : Nat} (short : t.toList.length < j)
    (h : sub s 1 j = t) : s = t := by
  have take : s.toList.take j = t.toList := by
    rw [← h, sub, String.toList_ofList]
    rfl
  have whole : s.toList.length ≤ j := by
    have len := congrArg List.length take
    rw [List.length_take] at len
    omega
  rw [List.take_of_length_le whole] at take
  exact String.toList_inj.1 take

theorem savePath_list_inj {urs urs' : String} (h1 : '/' ∉ urs.toList) (h2 : '/' ∉ urs'.toList)
    (h : savePath host (.list urs) = savePath host (.list urs')) : urs = urs' := by
  have last : ∀ {urs : String}, '/' ∉ urs.toList →
      (split (savePath host (.list urs)) "/").getLast? = some (urs ++ ".dat") := by
    intro urs slash
    obtain ⟨dir, hdir⟩ := getListSavePath_toList { host with baseDir := databaseBasedir } urs
    refine split_last ?_ ?_ hdir
    · simp
    · simpa using slash
  have names := last h1
  rw [h, last h2, Option.some.injEq, String.append_left_inj] at names
  exact names.symm

theorem savePath_role_func {uid : String} (slash : '/' ∉ uid.toList)
    (h : savePath host (.role uid) = savePath host (.role "func")) : uid = "func" := by
  rw [← String.toList_inj] at h
  simp only [savePath, getRoleSavePath, String.toList_append, List.append_assoc,
    List.append_cancel_left_eq] at h
  have dirs := List.append_cons_inj_of_free (sub_free slash 1 5) (by decide) h
  exact eq_of_sub_eq (by decide) (String.toList_inj.1 dirs.1)

theorem savePath_roleact_unkn {uid actName : String} (slash : '/' ∉ uid.toList)
    (h : savePath host (.roleact uid actName) = savePath host (.roleact "unkn" "role")) :
    uid = "unkn" ∧ actName = "role" := by
  rw [← String.toList_inj] at h
  simp only [savePath, getRoleActSavePath, String.toList_append, List.append_assoc,
    List.append_cancel_left_eq] at h
  have dirs := List.append_cons_inj_of_free (sub_free slash 1 5) (by decide) h
  have uid_eq : uid = "unkn" := eq_of_sub_eq (by decide) (String.toList_inj.1 dirs.1)
  subst uid_eq
  refine ⟨rfl, ?_⟩
  have rest := List.append_cancel_left dirs.2
  simpa only [List.append_cancel_left_eq, List.append_cancel_right_eq, String.toList_inj] using rest

theorem savePath_mod_inj {modname modname' : String}
    (h : savePath host (.mod modname) = savePath host (.mod modname')) : modname = modname' := by
  simpa only [savePath, getModuleSavePath, String.append_left_inj, String.append_right_inj] using h

theorem checkPath_savePath_list {urs : String} (allowed : '/' ∉ urs.toList) :
    checkPath (savePath host (.list urs)) .list = some (.list urs) ↔ (Key.list urs).Survives := by
  obtain ⟨dir, hdir⟩ := getListSavePath_toList { host with baseDir := databaseBasedir } urs
  rw [savePath, checkPath_list allowed hdir, Option.map_eq_some_iff, Key.Survives,
    ← split_head_eq_self]
  simp

/-- The name of the file is the printed function `string.sub`. -/
theorem checkPath_savePath_role (prints : PrintsFunction host) (uid : String) :
    checkPath (savePath host (.role uid)) .role = some (.role "func") := by
  obtain ⟨address, hsub, slash⟩ := prints
  apply checkPath_role (databaseBasedir ++ "role/" ++ sub uid 1 5 ++ "/" ++ sub uid 6 7) slash
  simp [savePath, getRoleSavePath, hsub]

theorem checkPath_savePath_roleact (uid actName : String) :
    checkPath (savePath host (.roleact uid actName)) .roleact = some (.roleact "unkn" "role") := by
  apply checkPath_roleact
    (sub uid 1 5 ++ "/" ++ sub uid 6 7 ++ "/" ++ uid ++ "/" ++ actName ++ ".dat")
  simp [savePath, getRoleActSavePath, databaseBasedir]

theorem checkPath_savePath_mod (modname : String) :
    checkPath (savePath host (.mod modname)) .mod = some (.mod "unknow/") := by
  apply checkPath_mod modname
  simp [savePath, getModuleSavePath, databaseBasedir]

/-- The key read off the path of a key. -/
theorem checkPath_savePath_iff (prints : PrintsFunction host) {k : Key} (allowed : k.Allowed) :
    checkPath (savePath host k) k.dname = some k ↔ k.Survives := by
  cases k with
  | list urs => exact checkPath_savePath_list allowed
  | role uid =>
      rw [Key.dname, checkPath_savePath_role prints, Key.Survives]
      simp [eq_comm]
  | roleact uid actName =>
      rw [Key.dname, checkPath_savePath_roleact, Key.Survives]
      simp [eq_comm]
  | mod modname =>
      rw [Key.dname, checkPath_savePath_mod, Key.Survives]
      simp [eq_comm]

theorem savePath_inj {k k' : Key} (survives : k.Survives) (allowed : k.Allowed)
    (allowed' : k'.Allowed) (h : savePath host k' = savePath host k) : k' = k := by
  have kind := dname_eq_of_savePath_eq h
  cases k with
  | list urs =>
      cases k' with
      | list urs' => rw [savePath_list_inj allowed' allowed h]
      | _ => cases kind
  | role uid =>
      cases k' with
      | role uid' =>
          cases survives
          rw [savePath_role_func allowed' h]
      | _ => cases kind
  | roleact uid actName =>
      cases k' with
      | roleact uid' actName' =>
          cases survives.1
          cases survives.2
          have parts := savePath_roleact_unkn allowed'.1 h
          rw [parts.1, parts.2]
      | _ => cases kind
  | mod modname =>
      cases k' with
      | mod modname' => rw [savePath_mod_inj h]
      | _ => cases kind

theorem comesBack_iff_survives (prints : PrintsFunction host) {k : Key} (allowed : k.Allowed) :
    ComesBack host k ↔ k.Survives := by
  constructor
  · intro back
    exact (checkPath_savePath_iff prints allowed).1 back.parsed
  · intro survives
    exact
      { parsed := (checkPath_savePath_iff prints allowed).2 survives
        alone := fun _ allowed' h => savePath_inj survives allowed allowed' h }

theorem comesBack_urs1 :
    PrintsFunction ⟨"", 0, "function: 0x5581"⟩ ∧ (Key.list "urs1").Allowed ∧
      ComesBack ⟨"", 0, "function: 0x5581"⟩ (.list "urs1") := by
  have prints : PrintsFunction ⟨"", 0, "function: 0x5581"⟩ := ⟨"0x5581", by decide, by decide⟩
  have allowed : (Key.list "urs1").Allowed := by simp [Key.Allowed]
  exact ⟨prints, allowed, (comesBack_iff_survives prints allowed).2 ⟨by decide, by simp⟩⟩

/-- A key with a letter of ".dat" is cut, and two roles share a file. -/
theorem data1_comes_back_as_1 :
    checkPath (savePath ⟨"", 0, "function: 0x5581"⟩ (.list "data1")) .list = some (.list "1") ∧
      savePath ⟨"", 0, "function: 0x5581"⟩ (.role "10000011") =
        savePath ⟨"", 0, "function: 0x5581"⟩ (.role "10000012") ∧
      ¬ ∀ k, k.Allowed → ComesBack ⟨"", 0, "function: 0x5581"⟩ k := by
  have parsed : checkPath (savePath ⟨"", 0, "function: 0x5581"⟩ (.list "data1")) .list =
      some (.list "1") := by
    decide +kernel
  refine ⟨parsed, by decide +kernel, ?_⟩
  intro all
  have back := (all (.list "data1") (by simp [Key.Allowed])).parsed
  rw [Key.dname, parsed] at back
  revert back
  decide

end

end Fallback

end Qiuqiu.Database
