import Mathlib.Data.Char
import Mathlib.Data.List.Sort
import Qiuqiu.Base.Assoc
import Qiuqiu.Base.Calendar
import Qiuqiu.Base.Digits

/-!
The partitions of the log tables (`LOG_PARTITION_DATA` and `CreateGameLogTable` in
service/databasecell/dbalter.lua). A partition has the name of a month and the first day
of the month as its bound. The months of three years are generated, put together with
those that a table has, and sorted as the texts of the statement.
-/
namespace Qiuqiu.Dbalter.Partitions
open Calendar Digits

abbrev Text := List Char

/-- The day 1970-01-01. -/
def epoch : Nat := dayNumber ⟨1970, 1, 1⟩

/-- The seconds from the epoch to the noon of a day, by a clock that is never set. -/
def noon (d : Date) : Int := 86400 * ((dayNumber d : Int) - epoch) + 43200

/-- The local time: how far it is ahead at a time, and the time at which a clock shows so many
seconds. Every first day of a month has a noon. -/
structure Zone where
  offset : Int → Int
  mktime : Int → Int
  hasNoon : ∀ year month, month < 12 →
    mktime (noon ⟨year, month + 1, 1⟩) + offset (mktime (noon ⟨year, month + 1, 1⟩)) =
      noon ⟨year, month + 1, 1⟩

section Code
variable (zone : Zone)

/-- `os.time` with a year, a month and a day. The hour is 12, and `mktime` carries the months
over twelve to the year. -/
def osTime (year month day : Nat) : Int :=
  zone.mktime (noon ⟨year + (month - 1) / 12, (month - 1) % 12 + 1, day⟩)

/-- `os.date` as far as the day. -/
def osDate (t : Int) : Date := date ((t + zone.offset t) / 86400 + epoch).toNat

/-- `%m` and `%d`. -/
def twoDigits (n : Nat) : Text := digits 10 Nat.digitChar 2 n

/-- `"p" .. os.date("%Y%m", ti)`. -/
def partitionName (d : Date) : Text := 'p' :: (Nat.toDigits 10 d.year ++ twoDigits d.month)

/-- `os.date("%Y-%m-%d", ti)`. -/
def partitionDesc (d : Date) : Text :=
  Nat.toDigits 10 d.year ++ '-' :: (twoDigits d.month ++ '-' :: twoDigits d.day)

def entry (d : Date) : Text × Text := (partitionName d, partitionDesc d)

def logCreatePartitionYear : Nat := 3

def logMinPartitionYear : Nat := 1

/-- The dates of the loop, by the date of the start. -/
def logDates (dateData : Date) : List Date :=
  (List.range' 1 (12 * logCreatePartitionYear)).map fun i =>
    osDate zone (osTime zone dateData.year (dateData.month + i - 1) 1)

/-- `LOG_PARTITION_DATA`. -/
def logPartitionData (now : Int) : List (Text × Text) :=
  ((logDates zone (osDate zone now)).map entry).foldl
    (fun t entry => Assoc.put t entry.1 entry.2) []

/-- `PARTITION %s VALUES LESS THAN('%s')`. -/
def partitionSql (entry : Text × Text) : Text :=
  "PARTITION ".toList ++ (entry.1 ++ (" VALUES LESS THAN('".toList ++ (entry.2 ++ "')".toList)))

/-- A row of the partitions of a table: the name and the bound, if they are not NULL. -/
abbrev Row := Option Text × Option Text

def checkColumn (checkColumns : List (Text × Text)) : Row → List (Text × Text)
  | (some name, some desc) => Assoc.put checkColumns name desc
  | (some name, none) => Assoc.remove checkColumns name
  | (none, _) => checkColumns

def checkColumns (columnsInfo : List Row) : List (Text × Text) :=
  columnsInfo.foldl checkColumn []

def partCnt (data : List (Text × Text)) (columnsInfo : List Row) : Nat :=
  columnsInfo.countP fun row => row.1.any fun name => (data.lookup name).isSome

/-- `table.sort`, with the comparison of strings. -/
def sort (t : List Text) : List Text := t.mergeSort fun a b => a ≤ b

variable (order : Assoc.PairsOrder (Text × Text))

def partTbl (data : List (Text × Text)) (columnsInfo : List Row) : List Text :=
  let checkColumns := checkColumns columnsInfo
  (order.visit checkColumns).map partitionSql ++
    ((order.visit data).filter fun entry => (checkColumns.lookup entry.1).isNone).map partitionSql

/-- The partitions of the statement, if there is one. -/
def alterPartitions (data : List (Text × Text)) (columnsInfo : List Row) : Option (List Text) :=
  if partCnt data columnsInfo ≤ logMinPartitionYear * 12 then
    let partTbl := partTbl order data columnsInfo
    if partTbl.length > 1 then some (sort partTbl) else none
  else none

end Code

section Dates
variable {zone : Zone} {d d' : Date}

/-- The first day of a month, in the years with four digits. -/
structure IsMonth (d : Date) : Prop where
  from_ : 1970 ≤ d.year
  until_ : d.year ≤ 9999
  month : 1 ≤ d.month ∧ d.month ≤ 12
  day : d.day = 1

/-- The months in their order. -/
def index (d : Date) : Nat := 12 * d.year + d.month

theorem osDate_osTime (year : Nat) {month : Nat} :
    osDate zone (osTime zone year month 1) =
      ⟨year + (month - 1) / 12, (month - 1) % 12 + 1, 1⟩ := by
  have small : (month - 1) % 12 < 12 := Nat.mod_lt _ (by decide)
  rw [osDate, osTime, zone.hasNoon _ _ small, noon]
  have days : ∀ n : Nat, ((86400 * ((n : Int) - epoch) + 43200) / 86400 + epoch).toNat = n := by
    intro n
    omega
  rw [days, date_first small]

theorem isMonth_ext (month : IsMonth d) (month' : IsMonth d') (same : index d = index d') :
    d = d' := by
  obtain ⟨-, -, range, day⟩ := month
  obtain ⟨-, -, range', day'⟩ := month'
  cases d
  cases d'
  simp only [index] at *
  congr <;> omega

end Dates

section Texts
variable {d d' : Date}

theorem digitChar_lt : ∀ n < 10, ∀ m < 10, (Nat.digitChar n < Nat.digitChar m ↔ n < m) := by
  decide

theorem toDigits_year {n : Nat} (from_ : 1000 ≤ n) (until_ : n ≤ 9999) :
    Nat.toDigits 10 n = digits 10 Nat.digitChar 4 n := by
  rw [Nat.toDigits_of_base_le (by decide) (by omega),
    Nat.toDigits_of_base_le (by decide) (by omega),
    Nat.toDigits_of_base_le (by decide) (by omega), Nat.toDigits_of_lt_base (by omega)]
  have top : n / 10 / 10 / 10 % 10 = n / 10 / 10 / 10 := Nat.mod_eq_of_lt (by omega)
  simp [digits, top]

theorem append_lt_append_iff {α : Type} [LinearOrder α] (w a b : List α) :
    w ++ a < w ++ b ↔ a < b := by
  induction w with
  | nil => rfl
  | cons c w ih => simp [ih]

/-- Two texts that begin with the year and the month of two months. -/
theorem yearMonth_lt_iff (month : IsMonth d) (month' : IsMonth d') (rest rest' sep : Text) :
    Nat.toDigits 10 d.year ++ (sep ++ (twoDigits d.month ++ rest)) <
        Nat.toDigits 10 d'.year ++ (sep ++ (twoDigits d'.month ++ rest')) ↔
      index d < index d' ∨ index d = index d' ∧ rest < rest' := by
  have years := month.from_
  have years' := month'.from_
  have range := month.month
  have range' := month'.month
  rw [toDigits_year (by omega) month.until_, toDigits_year (by omega) month'.until_,
    digits_append_lt_iff (by decide) digitChar_lt (Nat.lt_succ_of_le month.until_)
      (Nat.lt_succ_of_le month'.until_),
    append_lt_append_iff, twoDigits, twoDigits,
    digits_append_lt_iff (by decide) digitChar_lt (by omega) (by omega)]
  simp only [index]
  constructor
  · rintro (later | ⟨same, later | ⟨same', rest⟩⟩)
    · exact .inl (by omega)
    · exact .inl (by omega)
    · exact .inr ⟨by omega, rest⟩
  · rintro (later | ⟨same, rest⟩)
    · by_cases year : d.year < d'.year
      · exact .inl year
      · exact .inr ⟨by omega, .inl (by omega)⟩
    · exact .inr ⟨by omega, .inr ⟨by omega, rest⟩⟩

/-- The bounds sort as the months. -/
theorem partitionDesc_lt_iff (month : IsMonth d) (month' : IsMonth d') :
    partitionDesc d < partitionDesc d' ↔ index d < index d' := by
  have order := yearMonth_lt_iff month month' ('-' :: twoDigits d.day) ('-' :: twoDigits d'.day)
    ['-']
  rw [month.day, month'.day] at order
  rw [partitionDesc, partitionDesc, month.day, month'.day]
  refine order.trans ⟨fun parts => parts.resolve_right fun same => lt_irrefl _ same.2, .inl⟩

/-- A name between other texts, from its year on. -/
theorem append_partitionName (pre post : Text) (d : Date) :
    pre ++ (partitionName d ++ post) =
      (pre ++ ['p']) ++ (Nat.toDigits 10 d.year ++ ([] ++ (twoDigits d.month ++ post))) := by
  simp [partitionName]

/-- The texts of the statement sort as the months. -/
theorem partitionSql_lt_iff (month : IsMonth d) (month' : IsMonth d') :
    partitionSql (entry d) < partitionSql (entry d') ↔ index d < index d' := by
  unfold partitionSql entry
  rw [append_partitionName, append_partitionName, append_lt_append_iff,
    yearMonth_lt_iff month month']
  constructor
  · rintro (later | ⟨same, rest⟩)
    · exact later
    · cases isMonth_ext month month' same
      exact absurd rest (lt_irrefl _)
  · exact .inl

end Texts

section Generated
variable {zone : Zone} {now : Int}

/-- The current date is in these years. -/
def InYears (d : Date) : Prop := 1970 ≤ d.year ∧ d.year ≤ 9996

theorem logDates_eq (d : Date) :
    logDates zone d = (List.range' 1 (12 * logCreatePartitionYear)).map fun i =>
      ⟨d.year + (d.month + i - 2) / 12, (d.month + i - 2) % 12 + 1, 1⟩ := by
  refine List.map_congr_left fun i _ => ?_
  rw [osDate_osTime, Nat.sub_sub]

theorem isMonth_logDates (years : InYears (osDate zone now)) :
    ∀ d ∈ logDates zone (osDate zone now), IsMonth d := by
  obtain ⟨pos, most⟩ : 1 ≤ (osDate zone now).month ∧ (osDate zone now).month ≤ 12 := date_month _
  intro d mem
  rw [logDates_eq] at mem
  obtain ⟨i, inside, rfl⟩ := List.mem_map.mp mem
  obtain ⟨from_, until_⟩ := years
  rw [logCreatePartitionYear, List.mem_range'_1] at inside
  constructor <;> dsimp only <;> omega

theorem nodup_logDates : (logDates zone (osDate zone now)).Nodup := by
  obtain ⟨pos, most⟩ : 1 ≤ (osDate zone now).month ∧ (osDate zone now).month ≤ 12 := date_month _
  rw [logDates_eq]
  refine (List.nodup_range' ..).map_on fun i mem j mem' same => ?_
  rw [List.mem_range'_1] at mem mem'
  injection same with year month
  omega

end Generated

section Entries
variable {zone : Zone} {now : Int} {ds existing : List Date} {t : List Text}

theorem partitionName_inj {d d' : Date} (month : IsMonth d) (month' : IsMonth d')
    (same : partitionName d = partitionName d') : d = d' := by
  refine isMonth_ext month month' ?_
  have texts : ∀ d, Nat.toDigits 10 d.year ++ ([] ++ (twoDigits d.month ++ [])) =
      (partitionName d).tail := by
    intro d
    simp [partitionName]
  have less := yearMonth_lt_iff month month' [] [] []
  have more := yearMonth_lt_iff month' month [] [] []
  simp only [texts, same, lt_irrefl, false_iff] at less more
  omega

theorem keyed_entries (months : ∀ d ∈ ds, IsMonth d) (distinct : ds.Nodup) :
    Assoc.Keyed (ds.map entry) := by
  rw [Assoc.Keyed, List.map_map]
  refine distinct.map_on fun d mem d' mem' same => ?_
  exact partitionName_inj (months d mem) (months d' mem') same

/-- `LOG_PARTITION_DATA` holds the months of the loop. -/
theorem logPartitionData_perm (years : InYears (osDate zone now)) :
    (logPartitionData zone now).Perm ((logDates zone (osDate zone now)).map entry) := by
  have keyed := keyed_entries (isMonth_logDates years) nodup_logDates
  have written := Assoc.foldl_put_perm (t := []) (by rwa [List.append_nil])
  rwa [List.append_nil] at written

/-- The answer for a table with these partitions. -/
def rowsOf (existing : List Date) : List Row :=
  existing.map fun d => (some (partitionName d), some (partitionDesc d))

theorem checkColumns_perm (months : ∀ d ∈ existing, IsMonth d) (distinct : existing.Nodup) :
    (checkColumns (rowsOf existing)).Perm (existing.map entry) := by
  have keyed := keyed_entries months distinct
  have written := Assoc.foldl_put_perm (t := []) (by rwa [List.append_nil])
  rw [List.append_nil] at written
  rw [checkColumns, rowsOf, List.foldl_map]
  rw [List.foldl_map] at written
  exact written

/-- The months of the table, and the generated ones that it does not have. -/
def merged (zone : Zone) (now : Int) (existing : List Date) : List Date :=
  existing ++ (logDates zone (osDate zone now)).filter fun d => d ∉ existing

theorem lookup_checkColumns {d : Date} (months : ∀ d ∈ existing, IsMonth d)
    (distinct : existing.Nodup) (month : IsMonth d) :
    ((checkColumns (rowsOf existing)).lookup (partitionName d)).isNone = decide (d ∉ existing) := by
  have perm := checkColumns_perm months distinct
  have names : ∀ name, name ∈ (checkColumns (rowsOf existing)).map Prod.fst ↔
      ∃ d ∈ existing, partitionName d = name := by
    intro name
    rw [(perm.map Prod.fst).mem_iff]
    simp [entry]
  rw [Bool.eq_iff_iff, Option.isNone_iff_eq_none, Assoc.lookup_none, names, decide_eq_true_iff]
  constructor
  · exact fun absent mem => absent ⟨d, mem, rfl⟩
  · rintro absent ⟨d', mem, same⟩
    exact absent (partitionName_inj (months d' mem) month same ▸ mem)

theorem partTbl_perm (order : Assoc.PairsOrder (Text × Text)) (years : InYears (osDate zone now))
    (months : ∀ d ∈ existing, IsMonth d) (distinct : existing.Nodup) :
    (partTbl order (logPartitionData zone now) (rowsOf existing)).Perm
      ((merged zone now existing).map fun d => partitionSql (entry d)) := by
  have check := (order.perm _).trans (checkColumns_perm months distinct)
  have data := (order.perm _).trans (logPartitionData_perm years)
  have first := check.map partitionSql
  have second := (data.filter fun entry =>
    ((checkColumns (rowsOf existing)).lookup entry.1).isNone).map partitionSql
  refine (first.append second).trans (List.Perm.of_eq ?_)
  rw [merged, List.map_append, List.map_map, List.filter_map, List.map_map]
  congr 2
  refine List.filter_congr fun d mem => ?_
  exact lookup_checkColumns months distinct (isMonth_logDates years d mem)

theorem merged_months (years : InYears (osDate zone now)) (months : ∀ d ∈ existing, IsMonth d) :
    ∀ d ∈ merged zone now existing, IsMonth d := by
  intro d mem
  cases List.mem_append.mp mem with
  | inl old => exact months d old
  | inr new => exact isMonth_logDates years d (List.mem_of_mem_filter new)

theorem merged_nodup (distinct : existing.Nodup) : (merged zone now existing).Nodup := by
  refine distinct.append (nodup_logDates.filter _) ?_
  intro d old new
  simp only [List.mem_filter, decide_eq_true_iff] at new
  exact new.2 old

theorem mem_merged {d : Date} :
    d ∈ merged zone now existing ↔ d ∈ existing ∨ d ∈ logDates zone (osDate zone now) := by
  simp only [merged, List.mem_append, List.mem_filter, decide_eq_true_iff]
  tauto

/-- The sorted texts are the texts of the sorted months. -/
theorem sort_months (months : ∀ d ∈ ds, IsMonth d) (distinct : ds.Nodup)
    (perm : t.Perm (ds.map fun d => partitionSql (entry d))) :
    ∃ ds' : List Date, ds'.Perm ds ∧ ds'.Pairwise (fun d d' => index d < index d') ∧
      sort t = ds'.map fun d => partitionSql (entry d) := by
  have sorted : (ds.mergeSort fun d d' => index d ≤ index d').Pairwise
      (fun d d' => decide (index d ≤ index d') = true) := by
    apply List.pairwise_mergeSort
    · simp only [decide_eq_true_iff]
      omega
    · simp only [Bool.or_eq_true, decide_eq_true_iff]
      omega
  have reordered : (ds.mergeSort fun d d' => index d ≤ index d').Perm ds := List.mergeSort_perm _ _
  generalize (ds.mergeSort fun d d' => index d ≤ index d') = ds' at sorted reordered
  have strict : ds'.Pairwise (fun d d' => index d < index d') := by
    refine (sorted.and (reordered.nodup_iff.mpr distinct)).imp_of_mem ?_
    intro d d' mem mem' parts
    refine Nat.lt_of_le_of_ne (of_decide_eq_true parts.1) fun same => parts.2 ?_
    exact isMonth_ext (months d (reordered.mem_iff.mp mem)) (months d' (reordered.mem_iff.mp mem'))
      same
  refine ⟨ds', reordered, strict, ?_⟩
  have texts : (ds'.map fun d => partitionSql (entry d)).Pairwise (· ≤ ·) := by
    refine List.pairwise_map.mpr (strict.imp_of_mem ?_)
    intro d d' mem mem' later
    exact le_of_lt ((partitionSql_lt_iff (months d (reordered.mem_iff.mp mem))
      (months d' (reordered.mem_iff.mp mem'))).mpr later)
  have same : (sort t).Perm (ds'.map fun d => partitionSql (entry d)) :=
    (List.mergeSort_perm _ _).trans (perm.trans (reordered.map _).symm)
  exact same.eq_of_pairwise' (List.pairwise_mergeSort' (· ≤ ·) t) texts

end Entries

/-- For every date of these years, 36 months are generated, each with a name of its own. With
the partitions that a table has, the sorted list holds every partition of the table and every
generated one, each name once and the bounds in their order; this is the list of the
statement, when there is one. -/
theorem partitions_valid (zone : Zone) (now : Int) (order : Assoc.PairsOrder (Text × Text))
    {existing : List Date} (years : InYears (osDate zone now))
    (months : ∀ d ∈ existing, IsMonth d) (distinct : existing.Nodup) :
    (logPartitionData zone now).length = 36 ∧ Assoc.Keyed (logPartitionData zone now) ∧
      ∃ ds : List Date,
        sort (partTbl order (logPartitionData zone now) (rowsOf existing)) =
            ds.map (fun d => partitionSql (entry d)) ∧
          (∀ e, e ∈ ds.map entry ↔ e ∈ existing.map entry ∨ e ∈ logPartitionData zone now) ∧
          (ds.map partitionName).Nodup ∧ (ds.map partitionDesc).Pairwise (· < ·) ∧
          (partCnt (logPartitionData zone now) (rowsOf existing) ≤ logMinPartitionYear * 12 →
            alterPartitions order (logPartitionData zone now) (rowsOf existing) =
              some (ds.map fun d => partitionSql (entry d))) := by
  have data := logPartitionData_perm years
  have length : (logDates zone (osDate zone now)).length = 36 := by
    rw [logDates, List.length_map, List.length_range']
    rfl
  have perm := partTbl_perm order years months distinct
  have all := merged_months years months
  have once : (merged zone now existing).Nodup := merged_nodup distinct
  obtain ⟨ds, reordered, strict, sorted⟩ := sort_months all once perm
  have isMonth : ∀ d ∈ ds, IsMonth d := fun d mem => all d (reordered.mem_iff.mp mem)
  refine ⟨by rw [data.length_eq, List.length_map, length], ?_, ds, sorted, ?_, ?_, ?_, ?_⟩
  · exact (data.map Prod.fst).nodup_iff.mpr
      (keyed_entries (isMonth_logDates years) nodup_logDates)
  · intro e
    rw [data.mem_iff]
    simp only [List.mem_map, reordered.mem_iff, mem_merged, or_and_right, exists_or]
  · have keyed := keyed_entries isMonth (reordered.nodup_iff.mpr once)
    rw [Assoc.Keyed, List.map_map] at keyed
    exact keyed
  · refine List.pairwise_map.mpr (strict.imp_of_mem ?_)
    intro d d' mem mem' later
    exact (partitionDesc_lt_iff (isMonth d mem) (isMonth d' mem')).mpr later
  · intro few
    have many : (partTbl order (logPartitionData zone now) (rowsOf existing)).length > 1 := by
      have subset : (logDates zone (osDate zone now)).Subperm (merged zone now existing) :=
        List.subperm_of_subset nodup_logDates fun d mem => mem_merged.mpr (.inr mem)
      rw [perm.length_eq, List.length_map]
      have := subset.length_le
      omega
    rw [alterPartitions, if_pos few]
    dsimp only
    rw [if_pos many, sorted]

/-- A clock that is never set, and shows the time since the epoch. -/
def utc : Zone where
  offset _ := 0
  mktime t := t
  hasNoon _ _ _ := Int.add_zero _

/-- A start in December 2024, for a table with the partitions of two months. -/
theorem partitions_valid_december :
    InYears (osDate utc (osTime utc 2024 12 1)) ∧
      (logPartitionData utc (osTime utc 2024 12 1)).length = 36 ∧
      ∃ ds : List Date,
        sort (partTbl .asStored (logPartitionData utc (osTime utc 2024 12 1))
            (rowsOf [⟨2025, 1, 1⟩, ⟨2023, 1, 1⟩])) = ds.map (fun d => partitionSql (entry d)) ∧
          (ds.map partitionDesc).Pairwise (· < ·) := by
  have years : InYears (osDate utc (osTime utc 2024 12 1)) := by
    rw [osDate_osTime]
    exact ⟨by decide, by decide⟩
  have months : ∀ d ∈ ([⟨2025, 1, 1⟩, ⟨2023, 1, 1⟩] : List Date), IsMonth d := by
    intro d mem
    simp only [List.mem_cons, List.not_mem_nil, or_false] at mem
    rcases mem with rfl | rfl <;> exact ⟨by decide, by decide, by decide, rfl⟩
  obtain ⟨length, -, ds, sorted, -, -, bounds, -⟩ := partitions_valid utc (osTime utc 2024 12 1)
    .asStored years months (by decide)
  exact ⟨years, length, ds, sorted, bounds⟩

end Qiuqiu.Dbalter.Partitions
