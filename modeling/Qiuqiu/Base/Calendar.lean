import Mathlib.Data.Nat.Find

/-!
The Gregorian calendar. The days are numbered from the first day of the year 0 on; a
number is read back as the last year that begins before it, and the last month of
this year that does.
-/
namespace Calendar

def isLeap (year : Nat) : Bool := year % 4 == 0 && (year % 100 != 0 || year % 400 == 0)

/-- The days of the years before a year. -/
def daysBefore (year : Nat) : Nat :=
  365 * year + (year + 3) / 4 - (year + 99) / 100 + (year + 399) / 400

def monthStarts (leap : Bool) : List Nat :=
  if leap then [0, 31, 60, 91, 121, 152, 182, 213, 244, 274, 305, 335]
  else [0, 31, 59, 90, 120, 151, 181, 212, 243, 273, 304, 334]

structure Date where
  year : Nat
  month : Nat
  day : Nat
  deriving DecidableEq

def dayNumber (d : Date) : Nat :=
  daysBefore d.year + (monthStarts (isLeap d.year)).getD (d.month - 1) 0 + (d.day - 1)

/-- The year of a day. -/
def yearOf (n : Nat) : Nat := Nat.findGreatest (fun year => daysBefore year ≤ n) (n / 365)

/-- The month of a day of the year. -/
def monthOf (leap : Bool) (k : Nat) : Nat := (monthStarts leap).countP (· ≤ k)

def date (n : Nat) : Date :=
  let year := yearOf n
  let k := n - daysBefore year
  let month := monthOf (isLeap year) k
  ⟨year, month, k - (monthStarts (isLeap year)).getD (month - 1) 0 + 1⟩

theorem daysBefore_succ (year : Nat) :
    daysBefore (year + 1) = daysBefore year + if isLeap year then 366 else 365 := by
  have fours : (year + 1 + 3) / 4 = (year + 3) / 4 + if year % 4 = 0 then 1 else 0 := by
    split <;> omega
  have centuries : (year + 1 + 99) / 100 = (year + 99) / 100 + if year % 100 = 0 then 1 else 0 := by
    split <;> omega
  have cycles : (year + 1 + 399) / 400 = (year + 399) / 400 + if year % 400 = 0 then 1 else 0 := by
    split <;> omega
  have fewer : (year + 99) / 100 ≤ 365 * year + (year + 3) / 4 := by omega
  have nested : (year % 400 = 0 → year % 100 = 0) ∧ (year % 100 = 0 → year % 4 = 0) := by omega
  rw [daysBefore, daysBefore, fours, centuries, cycles]
  have leap : isLeap year = true ↔ year % 4 = 0 ∧ (year % 100 ≠ 0 ∨ year % 400 = 0) := by
    simp [isLeap]
  simp only [leap]
  generalize (year + 3) / 4 = a at fewer ⊢
  generalize (year + 99) / 100 = b at fewer ⊢
  generalize (year + 399) / 400 = c
  generalize year % 4 = r, year % 100 = s, year % 400 = t at nested ⊢
  split_ifs <;> omega

theorem daysBefore_mono {year year' : Nat} (le : year ≤ year') :
    daysBefore year ≤ daysBefore year' := by
  induction le with
  | refl => exact Nat.le_refl _
  | step _ ih =>
      rw [daysBefore_succ]
      omega

theorem le_daysBefore (year : Nat) : 365 * year ≤ daysBefore year := by
  rw [daysBefore]
  omega

/-- A day of a year, by its number in the year. -/
theorem yearOf_add {year k : Nat} (inside : k < 365) : yearOf (daysBefore year + k) = year := by
  have bound := le_daysBefore year
  refine Nat.findGreatest_eq_iff.mpr ⟨?_, fun _ => Nat.le_add_right _ _, ?_⟩
  · rw [Nat.le_div_iff_mul_le (by decide)]
    omega
  · intro later lt _ begins
    have next := daysBefore_mono (Nat.succ_le_of_lt lt)
    rw [Nat.succ_eq_add_one, daysBefore_succ] at next
    split at next <;> omega

theorem monthOf_range (leap : Bool) (k : Nat) : 1 ≤ monthOf leap k ∧ monthOf leap k ≤ 12 := by
  constructor
  · refine List.countP_pos_iff.mpr ⟨0, ?_, decide_eq_true (Nat.zero_le k)⟩
    cases leap <;> decide
  · cases leap <;> exact List.countP_le_length

theorem date_month (n : Nat) : 1 ≤ (date n).month ∧ (date n).month ≤ 12 := monthOf_range _ _

theorem monthOf_start : ∀ leap, ∀ month < 12,
    monthOf leap ((monthStarts leap).getD month 0) = month + 1 ∧
      (monthStarts leap).getD month 0 < 365 := by
  decide

/-- The first day of a month is read back. -/
theorem date_first {year month : Nat} (small : month < 12) :
    date (dayNumber ⟨year, month + 1, 1⟩) = ⟨year, month + 1, 1⟩ := by
  obtain ⟨start, inside⟩ := monthOf_start (isLeap year) month small
  have number : dayNumber ⟨year, month + 1, 1⟩ =
      daysBefore year + (monthStarts (isLeap year)).getD month 0 := rfl
  simp only [date, number, yearOf_add inside, Nat.add_sub_cancel_left, start, Nat.add_sub_cancel,
    Nat.sub_self, Nat.zero_add]

end Calendar
