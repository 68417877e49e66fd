import WaSSH.Core.Tzif
import WaSSH.Lib.Calendar
import WaSSH.Lib.Checked

/-!
# Dates of timestamps

A number of days since the epoch becomes a date of the calendar by divisions over eras of 400 years
that begin in March.

* `civil_from_days`: with the sums that are checked in 64 bits; `Fits`: the days whose sums fit;
* `year_of_era_spec`, `day_of_year_spec`: what the divisions of one era come to;
* `civil`: the same in numbers without a width, `civil_from_days_eq`; `civil_date`: it is the date;
* **`civil_from_days_date`**: days and dates are each other's inverse;
* `format_seconds`, `format_millis`: the texts that show a date.
-/

namespace WaSSH.Core.Time

open Checked Calendar
open Tzif (as_i64)

/-! ## The code -/

/-- `as u64`. -/
def as_u64 (z : ℤ) : ℕ := (z % 2 ^ 64).toNat

/-- `as u32`. -/
def as_u32 (n : ℕ) : ℕ := n % 2 ^ 32

/-- Days since the Unix epoch to a civil date. -/
def civil_from_days (days : ℤ) : Except Fault (ℤ × ℕ × ℕ) := do
  let z ← signed 64 (days + 719468)
  let low ← (if 0 ≤ z then pure z else signed 64 (z - 146096))
  let era := low.tdiv 146097
  let eras ← signed 64 (era * 146097)
  let doe := as_u64 (← signed 64 (z - eras))
  let years ← sub doe (doe / 1460)
  let years ← add 64 years (doe / 36524)
  let years ← sub years (doe / 146096)
  let yoe := years / 365
  let before ← signed 64 (era * 400)
  let y ← signed 64 (as_i64 yoe + before)
  let whole ← mul 64 365 yoe
  let leaps ← add 64 whole (yoe / 4)
  let leaps ← sub leaps (yoe / 100)
  let doy ← sub doe leaps
  let five ← mul 64 5 doy
  let five ← add 64 five 2
  let mp := five / 153
  let start ← mul 64 153 mp
  let start ← add 64 start 2
  let day ← sub doy (start / 5)
  let day ← add 64 day 1
  let day := as_u32 day
  let month ← (if mp < 10 then add 64 mp 3 else sub mp 9)
  let month := as_u32 month
  let year ← (if month ≤ 2 then signed 64 (y + 1) else pure y)
  pure (year, month, day)

/-- A number of at least so many digits. -/
def zero_pad (width n : ℕ) : List Char :=
  List.replicate (width - (Nat.toDigits 10 n).length) '0' ++ Nat.toDigits 10 n

/-- A year of at least four characters. -/
def year_text (year : ℤ) : List Char :=
  if year < 0 then '-' :: zero_pad 3 year.natAbs else zero_pad 4 year.natAbs

/-- `YYYY-MM-DD HH:MM` in UTC. -/
def format_seconds (seconds : ℕ) : Except Fault (List Char) := do
  let days := seconds / 86400
  let time := seconds % 86400
  let (year, month, day) ← civil_from_days (as_i64 days)
  pure (year_text year ++ '-' :: zero_pad 2 month ++ '-' :: zero_pad 2 day ++
    ' ' :: zero_pad 2 (time / 3600) ++ ':' :: zero_pad 2 (time % 3600 / 60))

/-- `MM-DD HH:MM:SS` in UTC, for dense event lists. -/
def format_millis (ms : ℕ) : Except Fault (List Char) := do
  let seconds := ms / 1000
  let (_, month, day) ← civil_from_days (as_i64 (seconds / 86400))
  let time := seconds % 86400
  pure (zero_pad 2 month ++ '-' :: zero_pad 2 day ++ ' ' :: zero_pad 2 (time / 3600) ++
    ':' :: zero_pad 2 (time % 3600 / 60) ++ ':' :: zero_pad 2 (time % 60))

/-- The days with room for the sums: of 64 bits all but the last ones. -/
def Fits (days : ℤ) : Prop := -2 ^ 63 - 573372 ≤ days ∧ days < 2 ^ 63 - 719468

instance (days : ℤ) : Decidable (Fits days) := inferInstanceAs (Decidable (_ ∧ _))

/-! ## One era -/

/-- The years of an era before a day. -/
def year_of_era (doe : ℕ) : ℕ := (doe - doe / 1460 + doe / 36524 - doe / 146096) / 365

/-- The days of the era before a year of it. -/
def year_of_era_start (yoe : ℕ) : ℕ := 365 * yoe + yoe / 4 - yoe / 100

/-- A day by its century, its leap period there and its day there. -/
theorem year_of_era_split {c q s : ℕ} (hc : c ≤ 3) (hq : q ≤ 24) (hs : s < 1461)
    (hcentury : 1461 * q + s < 36524) :
    year_of_era (36524 * c + 1461 * q + s) = 100 * c + 4 * q + min (s / 365) 3 := by
  have hcenturies : (36524 * c + 1461 * q + s) / 36524 = c := by omega
  have hlast : (36524 * c + 1461 * q + s) / 146096 = 0 := by omega
  have hperiods : (36524 * c + 1461 * q + s) / 1460 =
      25 * c + q + (24 * c + q + s) / 1460 := by omega
  rw [year_of_era, hcenturies, hlast, hperiods]
  by_cases hcarry : 24 * c + q + s < 1460
  · have hzero : (24 * c + q + s) / 1460 = 0 := by omega
    rw [hzero]
    omega
  · have hone : (24 * c + q + s) / 1460 = 1 := by omega
    rw [hone]
    omega

/-- The centuries, leap periods, years and days of a day of an era. -/
theorem year_of_era_cases {doe : ℕ} (h : doe < 146097) :
    ∃ c q t doy, c ≤ 3 ∧ q ≤ 24 ∧ t ≤ 3 ∧ doy ≤ 365 ∧
      doe = 36524 * c + 1461 * q + 365 * t + doy ∧ year_of_era doe = 100 * c + 4 * q + t ∧
      (doy = 365 → t = 3 ∧ (q = 24 → c = 3)) := by
  by_cases hend : doe = 146096
  · -- the last day of the era is the leap day of its last year
    refine ⟨3, 24, 3, 365, le_rfl, le_rfl, le_rfl, le_rfl, hend, ?_, fun _ => ⟨rfl, fun _ => rfl⟩⟩
    rw [hend]
    rfl
  · have hsplit := year_of_era_split (c := doe / 36524) (q := doe % 36524 / 1461)
      (s := doe % 36524 % 1461) (by omega) (by omega) (by omega) (by omega)
    have hdoe : 36524 * (doe / 36524) + 1461 * (doe % 36524 / 1461) + doe % 36524 % 1461 =
        doe := by omega
    rw [hdoe] at hsplit
    exact ⟨doe / 36524, doe % 36524 / 1461, min (doe % 36524 % 1461 / 365) 3,
      doe % 36524 % 1461 - 365 * min (doe % 36524 % 1461 / 365) 3, by omega, by omega, by omega,
      by omega, by omega, hsplit, by omega⟩

/-- **The year of a day**: the day is in it, and on its last place only in a leap year. -/
theorem year_of_era_spec {doe : ℕ} (h : doe < 146097) (era : ℤ) :
    year_of_era doe ≤ 399 ∧ year_of_era_start (year_of_era doe) ≤ doe ∧
      doe - year_of_era_start (year_of_era doe) ≤ 365 ∧
      (doe - year_of_era_start (year_of_era doe) = 365 → Leap (year_of_era doe + era * 400 + 1)) := by
  obtain ⟨c, q, t, doy, hc, hq, ht, hdoy, hdoe, hyear, hlast⟩ := year_of_era_cases h
  have hfour : (100 * c + 4 * q + t) / 4 = 25 * c + q := by omega
  have hhundred : (100 * c + 4 * q + t) / 100 = c := by omega
  have hstart : year_of_era_start (year_of_era doe) = 36524 * c + 1461 * q + 365 * t := by
    rw [hyear, year_of_era_start, hfour, hhundred]
    omega
  have hback : doe - year_of_era_start (year_of_era doe) = doy := by omega
  refine ⟨by omega, by omega, by omega, fun h365 => ?_⟩
  obtain ⟨rfl, hcentury⟩ := hlast (hback.symm.trans h365)
  rw [hyear]
  unfold Leap
  push_cast
  omega

/-! ## Without the machine -/

/-- The days of the era, and the days of the year that begins in March. -/
def day_of_era (days : ℤ) : ℕ := ((days + 719468) % 146097).toNat

def day_of_year (doe : ℕ) : ℕ := doe - year_of_era_start (year_of_era doe)

def march_month_of (doy : ℕ) : ℕ := (5 * doy + 2) / 153

/-- The year that begins in March. -/
def march_year_of (days : ℤ) : ℤ :=
  year_of_era (day_of_era days) + (days + 719468) / 146097 * 400

/-- `civil_from_days` in numbers without a width. -/
def civil (days : ℤ) : ℤ × ℕ × ℕ :=
  let doy := day_of_year (day_of_era days)
  let mp := march_month_of doy
  (march_year (march_year_of days) mp, march_month mp, doy - (153 * mp + 2) / 5 + 1)

/-- The division that truncates is one that rounds down. -/
theorem tdiv_era (z : ℤ) : (if 0 ≤ z then z else z - 146096).tdiv 146097 = z / 146097 := by
  split_ifs with h
  · exact Int.tdiv_eq_ediv_of_nonneg h
  · have hsign : Int.sign 146097 = 1 := rfl
    rw [Int.tdiv_eq_ediv, hsign]
    split_ifs <;> omega

theorem day_of_era_lt (days : ℤ) : day_of_era days < 146097 := by
  unfold day_of_era
  omega

theorem day_of_year_le (days : ℤ) : day_of_year (day_of_era days) ≤ 365 :=
  (year_of_era_spec (day_of_era_lt days) 0).2.2.1

theorem march_month_of_le {doy : ℕ} (h : doy ≤ 365) :
    march_month_of doy ≤ 11 ∧ (153 * march_month_of doy + 2) / 5 ≤ doy ∧
      doy < (153 * (march_month_of doy + 1) + 2) / 5 := by
  unfold march_month_of
  omega

theorem as_u32_of {n : ℕ} (h : n < 2 ^ 32) : as_u32 n = n := Nat.mod_eq_of_lt h

/-! ### Each choice of the code -/

theorem low_eq {z : ℤ} (hlow : -2 ^ 63 + 146096 ≤ z) :
    (if 0 ≤ z then pure z else signed 64 (z - 146096)) =
      Except.ok (if 0 ≤ z then z else z - 146096) := by
  split_ifs
  · rfl
  · exact signed_of (by unfold Signed; omega)

theorem month_eq {mp : ℕ} (h : mp ≤ 11) :
    (if mp < 10 then add 64 mp 3 else sub mp 9) = .ok (march_month mp) := by
  unfold march_month
  split_ifs
  · exact add_of_lt (by omega)
  · exact sub_of_le (by omega)

theorem year_eq {y : ℤ} {mp : ℕ} (h : mp ≤ 11) (hlow : -2 ^ 62 ≤ y) (hhigh : y < 2 ^ 62) :
    (if march_month mp ≤ 2 then signed 64 (y + 1) else pure y) = .ok (march_year y mp) := by
  unfold march_month march_year
  by_cases hmp : mp < 10
  · rw [if_pos hmp, if_pos hmp, if_neg (by omega)]
    rfl
  · rw [if_neg hmp, if_neg hmp, if_pos (by omega)]
    exact signed_of (by unfold Signed; omega)

/-- **No sum leaves its width.** -/
theorem civil_from_days_eq {days : ℤ} (h : Fits days) :
    civil_from_days days = .ok (civil days) := by
  obtain ⟨hlow, hhigh⟩ := h
  have hlt := day_of_era_lt days
  obtain ⟨hyoe, hstart, -, -⟩ := year_of_era_spec hlt 0
  unfold year_of_era_start at hstart
  have hdoe : as_u64 (days + 719468 - (days + 719468) / 146097 * 146097) = day_of_era days := by
    unfold as_u64 day_of_era
    omega
  have hyear : (day_of_era days - day_of_era days / 1460 + day_of_era days / 36524 -
      day_of_era days / 146096) / 365 = year_of_era (day_of_era days) := rfl
  have hday : day_of_era days - (365 * year_of_era (day_of_era days) +
      year_of_era (day_of_era days) / 4 - year_of_era (day_of_era days) / 100) =
      day_of_year (day_of_era days) := rfl
  have hdoy := day_of_year_le days
  have hmonth : (5 * day_of_year (day_of_era days) + 2) / 153 =
      march_month_of (day_of_year (day_of_era days)) := rfl
  obtain ⟨hmp, hbegin, -⟩ := march_month_of_le hdoy
  have hmarch : march_month (march_month_of (day_of_year (day_of_era days))) ≤ 12 := by
    unfold march_month
    split_ifs <;> omega
  unfold civil_from_days
  rw [signed_of (by unfold Signed; omega), ok_bind, low_eq (by omega), ok_bind, tdiv_era]
  dsimp only
  rw [signed_of (by unfold Signed; omega), ok_bind, signed_of (by unfold Signed; omega), ok_bind,
    hdoe]
  rw [sub_of_le (by omega), ok_bind, add_of_lt (by omega), ok_bind, sub_of_le (by omega), ok_bind, hyear]
  rw [signed_of (by unfold Signed; omega), ok_bind, Tzif.as_i64_eq (by omega),
    signed_of (by unfold Signed; omega), ok_bind]
  rw [mul_of_lt (by omega), ok_bind, add_of_lt (by omega), ok_bind, sub_of_le (by omega), ok_bind,
    sub_of_le (by omega), ok_bind, hday]
  rw [mul_of_lt (by omega), ok_bind, add_of_lt (by omega), ok_bind, hmonth]
  rw [mul_of_lt (by omega), ok_bind, add_of_lt (by omega), ok_bind, sub_of_le (by omega), ok_bind,
    add_of_lt (by omega), ok_bind, as_u32_of (by omega)]
  rw [month_eq hmp, ok_bind, as_u32_of (by omega), year_eq hmp (by omega) (by omega), ok_bind]
  rfl

/-- A day with no room for the sums. -/
theorem civil_from_days_overflow {days : ℤ} (h : ¬ Fits days) :
    civil_from_days days = .error .overflow := by
  unfold civil_from_days
  by_cases hz : Signed 64 (days + 719468)
  · rw [signed_of hz, ok_bind]
    unfold Fits at h
    unfold Signed at hz
    have hneg : ¬ 0 ≤ days + 719468 := by omega
    have hlow : ¬ Signed 64 (days + 719468 - 146096) := by
      unfold Signed
      omega
    rw [if_neg hneg, signed, if_neg hlow]
    rfl
  · rw [signed, if_neg hz]
    rfl

/-! ## The date -/

/-- A date as the code returns it. -/
def parts (d : Date) : ℤ × ℕ × ℕ := (d.year, d.month, d.day)

theorem parts_injective : Function.Injective parts := by
  intro d e h
  obtain ⟨hyear, hrest⟩ := Prod.mk.inj h
  obtain ⟨hmonth, hday⟩ := Prod.mk.inj hrest
  exact Date.ext hyear hmonth hday

/-- The day of the month is in the month. -/
theorem day_in_month (days : ℤ) :
    day_of_year (day_of_era days) - (153 * march_month_of (day_of_year (day_of_era days)) + 2) / 5 +
      1 ≤ month_length
        (march_year (march_year_of days) (march_month_of (day_of_year (day_of_era days))))
        (march_month (march_month_of (day_of_year (day_of_era days)))) := by
  have hdoy := day_of_year_le days
  have hleap := (year_of_era_spec (day_of_era_lt days) ((days + 719468) / 146097)).2.2.2
  obtain ⟨hmp, hbegin, hend⟩ := march_month_of_le hdoy
  change day_of_year (day_of_era days) = 365 → Leap (march_year_of days + 1) at hleap
  generalize day_of_year (day_of_era days) = doy at *
  by_cases hfebruary : march_month_of doy = 11
  · rw [hfebruary] at hbegin ⊢
    show _ ≤ month_length (march_year_of days + 1) 2
    unfold month_length
    rw [if_pos rfl]
    split_ifs with h
    · omega
    · have hshort : doy ≠ 365 := fun h365 => h (hleap h365)
      omega
  · rw [march_month_length _ (by omega)]
    omega

/-- The date of a day. -/
def civil_date (days : ℤ) : Date where
  year := (civil days).1
  month := (civil days).2.1
  day := (civil days).2.2
  month_range := by
    have hmp := (march_month_of_le (day_of_year_le days)).1
    show 1 ≤ march_month _ ∧ march_month _ ≤ 12
    unfold march_month
    split_ifs <;> omega
  day_range := ⟨Nat.le_add_left 1 _, day_in_month days⟩

/-- The eras before a year, and the years of its own era before it. -/
theorem march_start_era {yoe : ℕ} (h : yoe ≤ 399) (era : ℤ) :
    march_start (yoe + era * 400) = era * 146097 + year_of_era_start yoe - 719468 := by
  have hfour : ((yoe : ℤ) + era * 400) / 4 = yoe / 4 + era * 100 := by omega
  have hhundred : ((yoe : ℤ) + era * 400) / 100 = yoe / 100 + era * 4 := by omega
  have hfour_hundred : ((yoe : ℤ) + era * 400) / 400 = era := by omega
  rw [march_start_eq, hfour, hhundred, hfour_hundred, year_of_era_start]
  omega

theorem day_count_civil_date (days : ℤ) : (civil_date days).day_count = days := by
  obtain ⟨hmp, hbegin, -⟩ := march_month_of_le (day_of_year_le days)
  obtain ⟨hyoe, hstart, -, -⟩ := year_of_era_spec (day_of_era_lt days) 0
  have hday : (day_of_year (day_of_era days) : ℤ) =
      day_of_era days - year_of_era_start (year_of_era (day_of_era days)) :=
    Nat.cast_sub hstart
  have hera : (day_of_era days : ℤ) = (days + 719468) % 146097 := by
    unfold day_of_era
    omega
  show year_start (march_year _ _) + month_start (march_year _ _) (march_month _) + _ = days
  rw [march_month_start (march_year_of days) hmp, march_year_of, march_start_era hyoe]
  show _ + (((_ - _ + 1 : ℕ) : ℤ) - 1) = days
  omega

theorem civil_date_eq (days : ℤ) : civil_date days = date_after days := by
  rw [← date_after_day_count (civil_date days), day_count_civil_date]

theorem civil_from_days_date_after (days : ℤ) : civil_from_days days =
    if Fits days then .ok (parts (date_after days)) else .error .overflow := by
  split_ifs with h
  · rw [civil_from_days_eq h, ← civil_date_eq]
    rfl
  · exact civil_from_days_overflow h

theorem civil_from_days_ok_iff {days : ℤ} {d : Date} :
    civil_from_days days = .ok (parts d) ↔ Fits days ∧ d.day_count = days := by
  rw [civil_from_days_date_after]
  split_ifs with h
  · constructor
    · intro heq
      rw [← parts_injective (Except.ok.inj heq)]
      exact ⟨h, day_count_date_after days⟩
    · rintro ⟨-, rfl⟩
      rw [date_after_day_count]
  · exact iff_of_false (fun heq => by cases heq) fun hd => h hd.1

/-- **Days and dates**: the days whose sums have room become the date so many days after the epoch.
A date comes back from its own count and from no other, the day behind it becomes the next date, and
its month and its day are in range. -/
theorem civil_from_days_date (days : ℤ) :
    civil_from_days days = (if Fits days then .ok (parts (date_after days)) else .error .overflow) ∧
      (∀ d : Date, civil_from_days days = .ok (parts d) ↔ Fits days ∧ d.day_count = days) ∧
      (∀ d e : Date, civil_from_days days = .ok (parts d) →
        civil_from_days (days + 1) = .ok (parts e) → e = tomorrow d) ∧
      ∀ (year : ℤ) (month day : ℕ), civil_from_days days = .ok (year, month, day) →
        (1 ≤ month ∧ month ≤ 12) ∧ 1 ≤ day ∧ day ≤ month_length year month := by
  refine ⟨civil_from_days_date_after days, fun d => civil_from_days_ok_iff, fun d e hd he => ?_, ?_⟩
  · obtain ⟨-, hcount⟩ := civil_from_days_ok_iff.mp hd
    obtain ⟨-, hnext⟩ := civil_from_days_ok_iff.mp he
    rw [← date_after_day_count e, hnext, date_after_add_one, ← hcount, date_after_day_count]
  · intro year month day h
    rw [civil_from_days_date_after] at h
    split_ifs at h
    have hparts := Except.ok.inj h
    obtain ⟨rfl, hrest⟩ := Prod.mk.inj hparts
    obtain ⟨rfl, rfl⟩ := Prod.mk.inj hrest
    exact ⟨(date_after days).month_range, (date_after days).day_range⟩

theorem civil_from_days_leap_day : civil_from_days 19782 = .ok (2024, 2, 29) :=
  ((civil_from_days_date 19782).2.1 ⟨2024, 2, 29, by decide, by decide⟩).mpr
    ⟨by decide, by decide +kernel⟩

/-! ## Timestamps -/

theorem fits_of_seconds {seconds : ℕ} (h : seconds < 2 ^ 64) :
    as_i64 (seconds / 86400) = (seconds / 86400 : ℕ) ∧ Fits ((seconds / 86400 : ℕ) : ℤ) := by
  refine ⟨Tzif.as_i64_eq (by omega), ?_⟩
  unfold Fits
  omega

/-- **A timestamp** shows the date of its day and the time on it. -/
theorem format_seconds_eq {seconds : ℕ} (h : seconds < 2 ^ 64) : ∃ d : Date,
    d.day_count = (seconds / 86400 : ℕ) ∧
      format_seconds seconds = .ok (year_text d.year ++ '-' :: zero_pad 2 d.month ++
        '-' :: zero_pad 2 d.day ++ ' ' :: zero_pad 2 (seconds / 3600 % 24) ++
        ':' :: zero_pad 2 (seconds / 60 % 60)) := by
  obtain ⟨hdays, hfits⟩ := fits_of_seconds h
  refine ⟨date_after (seconds / 86400 : ℕ), day_count_date_after _, ?_⟩
  have hhour : seconds % 86400 / 3600 = seconds / 3600 % 24 := by omega
  have hminute : seconds % 86400 % 3600 / 60 = seconds / 60 % 60 := by omega
  unfold format_seconds
  dsimp only
  rw [hdays, civil_from_days_date_after, if_pos hfits, ok_bind, hhour, hminute]
  rfl

theorem format_millis_eq {ms : ℕ} (h : ms < 2 ^ 64) : ∃ d : Date,
    d.day_count = (ms / 1000 / 86400 : ℕ) ∧
      format_millis ms = .ok (zero_pad 2 d.month ++ '-' :: zero_pad 2 d.day ++
        ' ' :: zero_pad 2 (ms / 1000 / 3600 % 24) ++ ':' :: zero_pad 2 (ms / 1000 / 60 % 60) ++
        ':' :: zero_pad 2 (ms / 1000 % 60)) := by
  obtain ⟨hdays, hfits⟩ := fits_of_seconds (by omega : ms / 1000 < 2 ^ 64)
  refine ⟨date_after (ms / 1000 / 86400 : ℕ), day_count_date_after _, ?_⟩
  have hhour : ms / 1000 % 86400 / 3600 = ms / 1000 / 3600 % 24 := by omega
  have hminute : ms / 1000 % 86400 % 3600 / 60 = ms / 1000 / 60 % 60 := by omega
  have hsecond : ms / 1000 % 86400 % 60 = ms / 1000 % 60 := by omega
  unfold format_millis
  dsimp only
  rw [hdays, civil_from_days_date_after, if_pos hfits, ok_bind, hhour, hminute, hsecond]
  rfl

/-- A leap day. -/
example : format_seconds 1709164800 = .ok "2024-02-29 00:00".toList := by decide +kernel

end WaSSH.Core.Time
