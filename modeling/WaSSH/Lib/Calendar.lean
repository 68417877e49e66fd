import Mathlib

/-!
# The Gregorian calendar

The dates before and after a date, in both directions without end.

* `Leap`, `month_length`, `Date`: the rules, and a date that keeps them;
* `tomorrow`: the next date, and backwards the one before; `date_after`: so many days after the
  epoch;
* `day_count`: the days from the epoch to a date, by adding up years and months;
* **`day_count_date_after`**, **`date_after_day_count`**: each undoes the other;
* `march_start_eq`, `march_month_length`, `march_month_start`: the sums in closed form, for years
  that begin in March.
-/

namespace Calendar

/-- Every fourth year, but of the centuries only every fourth. -/
def Leap (y : ℤ) : Prop := 4 ∣ y ∧ (100 ∣ y → 400 ∣ y)

instance (y : ℤ) : Decidable (Leap y) := inferInstanceAs (Decidable (_ ∧ _))

def year_length (y : ℤ) : ℤ := if Leap y then 366 else 365

def month_length (y : ℤ) (m : ℕ) : ℕ :=
  if m = 2 then if Leap y then 29 else 28
  else if m = 4 ∨ m = 6 ∨ m = 9 ∨ m = 11 then 30 else 31

theorem month_length_pos (y : ℤ) (m : ℕ) : 1 ≤ month_length y m := by
  unfold month_length
  split_ifs <;> omega

/-- A date of the calendar. -/
@[ext] structure Date where
  year : ℤ
  month : ℕ
  day : ℕ
  month_range : 1 ≤ month ∧ month ≤ 12
  day_range : 1 ≤ day ∧ day ≤ month_length year month
  deriving DecidableEq

namespace Date

def next (d : Date) : Date :=
  if h : d.day < month_length d.year d.month then
    { d with day := d.day + 1, day_range := ⟨Nat.le_add_left 1 d.day, h⟩ }
  else if h : d.month < 12 then
    { d with
      month := d.month + 1
      day := 1
      month_range := ⟨Nat.le_add_left 1 d.month, h⟩
      day_range := ⟨le_rfl, month_length_pos _ _⟩ }
  else
    { year := d.year + 1
      month := 1
      day := 1
      month_range := by omega
      day_range := ⟨le_rfl, month_length_pos _ _⟩ }

def previous (d : Date) : Date :=
  if h : 1 < d.day then
    { d with
      day := d.day - 1
      day_range := ⟨Nat.le_sub_one_of_lt h, (Nat.sub_le _ _).trans d.day_range.2⟩ }
  else if h : 1 < d.month then
    { d with
      month := d.month - 1
      day := month_length d.year (d.month - 1)
      month_range := ⟨Nat.le_sub_one_of_lt h, (Nat.sub_le _ _).trans d.month_range.2⟩
      day_range := ⟨month_length_pos _ _, le_rfl⟩ }
  else
    { year := d.year - 1
      month := 12
      day := 31
      month_range := by omega
      day_range := by simp [month_length] }

theorem previous_next (d : Date) : d.next.previous = d := by
  obtain ⟨hm, hm'⟩ := d.month_range
  obtain ⟨hd, hd'⟩ := d.day_range
  unfold next
  split_ifs with hday hmonth
  · rw [previous, dif_pos (show 1 < d.day + 1 by omega)]
    ext <;> simp
  · rw [previous, dif_neg (lt_irrefl 1), dif_pos (show 1 < d.month + 1 by omega)]
    ext
    · rfl
    · simp
    · show month_length d.year (d.month + 1 - 1) = d.day
      rw [Nat.add_sub_cancel]
      omega
  · rw [previous, dif_neg (lt_irrefl 1), dif_neg (lt_irrefl 1)]
    have hlast : d.month = 12 := by omega
    rw [hlast] at hday hd'
    have hlength : month_length d.year 12 = 31 := by simp [month_length]
    ext
    · simp
    · exact hlast.symm
    · show 31 = d.day
      omega

theorem next_previous (d : Date) : d.previous.next = d := by
  obtain ⟨hm, hm'⟩ := d.month_range
  obtain ⟨hd, hd'⟩ := d.day_range
  unfold previous
  split_ifs with hday hmonth
  · rw [next, dif_pos (show d.day - 1 < month_length d.year d.month by omega)]
    ext
    · rfl
    · rfl
    · show d.day - 1 + 1 = d.day
      omega
  · rw [next, dif_neg (lt_irrefl _), dif_pos (show d.month - 1 < 12 by omega)]
    ext
    · rfl
    · show d.month - 1 + 1 = d.month
      omega
    · show 1 = d.day
      omega
  · have hlength : ¬ 31 < month_length (d.year - 1) 12 := by simp [month_length]
    rw [next, dif_neg hlength, dif_neg (lt_irrefl 12)]
    ext
    · simp
    · show 1 = d.month
      omega
    · show 1 = d.day
      omega

end Date

/-- The next date. -/
def tomorrow : Equiv.Perm Date where
  toFun := Date.next
  invFun := Date.previous
  left_inv := Date.previous_next
  right_inv := Date.next_previous

/-- 1970-01-01. -/
def epoch : Date where
  year := 1970
  month := 1
  day := 1
  month_range := by omega
  day_range := ⟨le_rfl, month_length_pos _ _⟩

/-- The date so many days after the epoch, or before it. -/
def date_after (n : ℤ) : Date := (tomorrow ^ n) epoch

/-! ## Counting days -/

/-- The days from the epoch to the first day of a year. -/
def year_start (y : ℤ) : ℤ :=
  ∑ i ∈ Finset.range (y - 1970).toNat, year_length (1970 + i) -
    ∑ i ∈ Finset.range (1970 - y).toNat, year_length (y + i)

/-- The days of a year before a month. -/
def month_start (y : ℤ) (m : ℕ) : ℤ := ∑ k ∈ Finset.Ico 1 m, (month_length y k : ℤ)

/-- The days from the epoch to a date. -/
def Date.day_count (d : Date) : ℤ :=
  year_start d.year + month_start d.year d.month + (d.day - 1)

theorem year_start_succ (y : ℤ) : year_start (y + 1) = year_start y + year_length y := by
  unfold year_start
  by_cases h : 1970 ≤ y
  · have hgrow : (y + 1 - 1970).toNat = (y - 1970).toNat + 1 := by omega
    have hlast : (1970 : ℤ) + (y - 1970).toNat = y := by omega
    have hnone : (1970 - y).toNat = 0 := by omega
    have hnone' : (1970 - (y + 1)).toNat = 0 := by omega
    rw [hgrow, Finset.sum_range_succ, hlast, hnone, hnone', Finset.sum_range_zero,
      Finset.sum_range_zero]
    omega
  · have hshrink : (1970 - y).toNat = (1970 - (y + 1)).toNat + 1 := by omega
    have hshift (i : ℕ) : y + ((i + 1 : ℕ) : ℤ) = y + 1 + i := by omega
    have hnone : (y - 1970).toNat = 0 := by omega
    have hnone' : (y + 1 - 1970).toNat = 0 := by omega
    rw [hshrink, Finset.sum_range_succ', hnone, hnone', Finset.sum_range_zero]
    simp only [hshift, Nat.cast_zero, add_zero]
    omega

theorem month_start_succ (y : ℤ) {m : ℕ} (h : 1 ≤ m) :
    month_start y (m + 1) = month_start y m + month_length y m :=
  Finset.sum_Ico_succ_top h _

theorem month_start_end (y : ℤ) : month_start y 13 = year_length y := by
  unfold month_start month_length year_length
  by_cases h : Leap y
  · simp only [if_pos h]
    rfl
  · simp only [if_neg h]
    rfl

theorem day_count_next (d : Date) : d.next.day_count = d.day_count + 1 := by
  obtain ⟨hm, hm'⟩ := d.month_range
  obtain ⟨hd, hd'⟩ := d.day_range
  unfold Date.next
  split_ifs with hday hmonth
  · simp only [Date.day_count]
    push_cast
    ring
  · have hlast : d.day = month_length d.year d.month := by omega
    simp only [Date.day_count, month_start_succ d.year hm, hlast]
    push_cast
    ring
  · have hlast : d.day = month_length d.year d.month := by omega
    have hdecember : d.month = 12 := by omega
    have hend : month_start d.year 12 + month_length d.year 12 = year_length d.year := by
      rw [← month_start_succ d.year (by omega : 1 ≤ 12), month_start_end]
    have hstart : month_start (d.year + 1) 1 = 0 := rfl
    simp only [Date.day_count, year_start_succ, hlast, hdecember, hstart, ← hend]
    push_cast
    ring

theorem day_count_zpow (d : Date) (n : ℤ) :
    Date.day_count ((tomorrow ^ n) d) = d.day_count + n := by
  induction n with
  | zero => simp
  | succ n ih =>
    rw [add_comm, zpow_add, zpow_one, Equiv.Perm.mul_apply]
    show Date.day_count (Date.next _) = _
    rw [day_count_next, ih]
    ring
  | pred n ih =>
    have hback := day_count_next (Date.previous ((tomorrow ^ (-n : ℤ)) d))
    rw [Date.next_previous, ih] at hback
    rw [sub_eq_add_neg, add_comm, zpow_add, zpow_neg_one, Equiv.Perm.mul_apply]
    show Date.day_count (Date.previous _) = _
    omega

/-- **The count of a date is how long after the epoch it is.** -/
theorem day_count_date_after (n : ℤ) : (date_after n).day_count = n := by
  rw [date_after, day_count_zpow]
  show 0 + n = n
  omega

/-! ## No two dates have one count -/

theorem year_start_mono : Monotone year_start :=
  monotone_int_of_le_succ fun y => by
    rw [year_start_succ, year_length]
    split_ifs <;> omega

theorem month_start_mono (y : ℤ) : Monotone (month_start y) := fun _ _ h =>
  Finset.sum_le_sum_of_subset_of_nonneg (Finset.Ico_subset_Ico le_rfl h) fun _ _ _ =>
    Int.natCast_nonneg _

theorem month_start_nonneg (y : ℤ) (m : ℕ) : 0 ≤ month_start y m :=
  Finset.sum_nonneg fun _ _ => Int.natCast_nonneg _

namespace Date

variable (d e : Date)

theorem day_count_lt_month : d.day_count < year_start d.year + month_start d.year (d.month + 1) := by
  obtain ⟨hd, hd'⟩ := d.day_range
  rw [day_count, month_start_succ d.year d.month_range.1]
  omega

theorem day_count_lt_year : d.day_count < year_start (d.year + 1) := by
  have hmonth := month_start_mono d.year (by have := d.month_range; omega : d.month + 1 ≤ 13)
  rw [month_start_end] at hmonth
  rw [year_start_succ]
  have := d.day_count_lt_month
  omega

theorem year_start_le_day_count : year_start d.year ≤ d.day_count := by
  have := month_start_nonneg d.year d.month
  have := d.day_range
  rw [day_count]
  omega

theorem year_le_of_day_count_le (h : d.day_count ≤ e.day_count) : d.year ≤ e.year := by
  by_contra hlt
  have := year_start_mono (by omega : e.year + 1 ≤ d.year)
  have := e.day_count_lt_year
  have := d.year_start_le_day_count
  omega

theorem month_le_of_day_count_le (hyear : d.year = e.year) (h : d.day_count ≤ e.day_count) :
    d.month ≤ e.month := by
  by_contra hlt
  have := month_start_mono d.year (by omega : e.month + 1 ≤ d.month)
  have hbefore := e.day_count_lt_month
  have := d.day_range
  rw [← hyear] at hbefore
  rw [day_count] at h
  omega

theorem day_count_injective : Function.Injective day_count := by
  intro d e h
  have hyear : d.year = e.year :=
    le_antisymm (year_le_of_day_count_le d e h.le) (year_le_of_day_count_le e d h.ge)
  have hmonth : d.month = e.month :=
    le_antisymm (month_le_of_day_count_le d e hyear h.le)
      (month_le_of_day_count_le e d hyear.symm h.ge)
  ext
  · exact hyear
  · exact hmonth
  · rw [day_count, day_count, hyear, hmonth] at h
    omega

end Date

/-- **A date is as long after the epoch as its count says.** -/
theorem date_after_day_count (d : Date) : date_after d.day_count = d :=
  Date.day_count_injective (day_count_date_after d.day_count)

theorem date_after_add_one (n : ℤ) : date_after (n + 1) = tomorrow (date_after n) := by
  rw [date_after, date_after, add_comm, zpow_add, zpow_one, Equiv.Perm.mul_apply]

/-! ## Years that begin in March -/

/-- The days from the epoch to the first of March. -/
def march_start (y : ℤ) : ℤ := year_start (y + 1) - 306

/-- The year of the calendar that a month of such a year is in; March is month 0. -/
def march_year (y : ℤ) (mp : ℕ) : ℤ := if mp < 10 then y else y + 1

/-- The month of the calendar. -/
def march_month (mp : ℕ) : ℕ := if mp < 10 then mp + 3 else mp - 9

/-- The leap days of the calendar as three counts. -/
theorem year_length_eq (y : ℤ) : year_length y =
    365 + (y / 4 - (y - 1) / 4) - (y / 100 - (y - 1) / 100) + (y / 400 - (y - 1) / 400) := by
  have hfour : y / 4 - (y - 1) / 4 = if 4 ∣ y then 1 else 0 := by split_ifs <;> omega
  have hhundred : y / 100 - (y - 1) / 100 = if 100 ∣ y then 1 else 0 := by split_ifs <;> omega
  have hfour_hundred : y / 400 - (y - 1) / 400 = if 400 ∣ y then 1 else 0 := by
    split_ifs <;> omega
  rw [hfour, hhundred, hfour_hundred]
  unfold year_length Leap
  split_ifs <;> omega

theorem year_start_eq (y : ℤ) :
    year_start y = 365 * (y - 1970) + (y - 1) / 4 - (y - 1) / 100 + (y - 1) / 400 - 477 := by
  induction y using Int.inductionOn' (b := 1970) with
  | zero => rfl
  | succ y _ ih =>
    rw [year_start_succ, ih, year_length_eq, add_sub_cancel_right]
    ring
  | pred y _ ih =>
    have hlast := year_start_succ (y - 1)
    rw [sub_add_cancel, ih, year_length_eq] at hlast
    omega

theorem march_start_eq (y : ℤ) : march_start y = 365 * y + y / 4 - y / 100 + y / 400 - 719468 := by
  have hyear : y + 1 - 1 = y := by omega
  rw [march_start, year_start_eq, hyear]
  ring

theorem march_month_length (y : ℤ) {mp : ℕ} (h : mp ≤ 10) :
    month_length (march_year y mp) (march_month mp) =
      (153 * (mp + 1) + 2) / 5 - (153 * mp + 2) / 5 := by
  interval_cases mp <;> rfl

/-- One month on: the next one of the calendar, and in the next year behind December. -/
theorem march_month_step (y : ℤ) {mp : ℕ} (h : mp ≤ 10) :
    year_start (march_year y (mp + 1)) + month_start (march_year y (mp + 1)) (march_month (mp + 1)) =
      year_start (march_year y mp) + month_start (march_year y mp) (march_month mp) +
        month_length (march_year y mp) (march_month mp) := by
  by_cases hdecember : mp = 9
  · subst hdecember
    have hend := month_start_succ y (by omega : 1 ≤ 12)
    rw [month_start_end] at hend
    show year_start (y + 1) + 0 = year_start y + month_start y 12 + month_length y 12
    rw [year_start_succ, hend]
    ring
  · have hyear : march_year y (mp + 1) = march_year y mp := by
      unfold march_year
      split_ifs <;> omega
    have hmonth : march_month (mp + 1) = march_month mp + 1 ∧ 1 ≤ march_month mp := by
      unfold march_month
      split_ifs <;> omega
    rw [hyear, hmonth.1, month_start_succ _ hmonth.2]
    ring

theorem march_month_start (y : ℤ) {mp : ℕ} (h : mp ≤ 11) :
    year_start (march_year y mp) + month_start (march_year y mp) (march_month mp) =
      march_start y + (153 * mp + 2) / 5 := by
  induction mp with
  | zero =>
    show year_start y + month_start y 3 = march_start y + 0
    rw [march_start, year_start_succ, month_start_succ y (by omega : 1 ≤ 2),
      month_start_succ y le_rfl]
    unfold month_length year_length
    by_cases hleap : Leap y
    · simp [hleap, month_start]
      ring
    · simp [hleap, month_start]
      ring
  | succ mp ih =>
    have hgrows : (153 * mp + 2) / 5 ≤ (153 * (mp + 1) + 2) / 5 := by omega
    rw [march_month_step y (by omega), ih (by omega), march_month_length y (by omega),
      Nat.cast_sub hgrows]
    push_cast
    ring

end Calendar
