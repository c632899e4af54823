/-
# Dates and days

Every day has one date, and its date leads back to it. Inside four hundred years the formula for
the year of a day grows with the day, and it is right on the first and on the last day of every
year; so it is right on all days in between. The months of a year that starts in March follow
from the day of the year, and only the last one depends on whether a leap day ends it.
-/
import OperationQueue.Instant.Calendar

namespace OperationQueue

namespace CalendarDate

/-- The days of four hundred years that lie before a year, which starts in March. -/
def yearStart (year : Int) : Int := 365 * year + year / 4 - year / 100 + year / 400

/-- The year in which a day of four hundred years lies. -/
def yearOfDay (day : Int) : Int := (day - day / 1460 + day / 36524 - day / 146096) / 365

theorem yearOfDay_mono {a b : Int} (h : a ≤ b) : yearOfDay a ≤ yearOfDay b := by
  have hleap : a - a / 1460 + a / 36524 - a / 146096 ≤ b - b / 1460 + b / 36524 - b / 146096 := by
    omega
  rw [yearOfDay, yearOfDay]
  omega

/-- The year is right on the first and on the last of its days. -/
theorem yearOfDay_ends : ∀ year < 400, yearOfDay (yearStart (year : Nat)) = year ∧
    yearOfDay (yearStart ((year : Nat) + 1) - 1) = year := by
  decide +kernel

/-- A day before a year lies in one of the years before. -/
theorem exists_year {day : Int} (hday : 0 ≤ day) {n : Nat} (h : day < yearStart n) :
    ∃ year : Nat, year < n ∧ yearStart year ≤ day ∧ day < yearStart (year + 1) := by
  induction n with
  | zero =>
      have hzero : yearStart (0 : Nat) = 0 := rfl
      omega
  | succ n ih =>
      by_cases hearlier : day < yearStart n
      · obtain ⟨year, hyear, hbounds⟩ := ih hearlier
        exact ⟨year, Nat.lt_succ_of_lt hyear, hbounds⟩
      · exact ⟨n, Nat.lt_succ_self n, Int.not_lt.1 hearlier, by exact_mod_cast h⟩

/-- The formula gives the year in whose days a day lies. -/
theorem yearOfDay_spec {day : Int} (hday : 0 ≤ day) (h : day < 146097) :
    ∃ year : Nat, year < 400 ∧ yearOfDay day = year ∧ yearStart year ≤ day ∧
      day < yearStart (year + 1) := by
  obtain ⟨year, hyear, hstart, hend⟩ := exists_year (n := 400) hday h
  obtain ⟨hfirst, hlast⟩ := yearOfDay_ends year hyear
  have hlower := yearOfDay_mono hstart
  have hupper := yearOfDay_mono (Int.le_sub_one_of_lt hend)
  exact ⟨year, hyear, by omega, hstart, hend⟩

/-- A year that starts in March is longer by a day if the next civil year has a leap day. -/
theorem yearStart_succ_sub (year era : Int) :
    yearStart (year + 1) - yearStart year = if isLeap (year + era * 400 + 1) then 366 else 365 := by
  have hleap : isLeap (year + era * 400 + 1) = true ↔
      (year + 1) % 4 = 0 ∧ ((year + 1) % 100 ≠ 0 ∨ (year + 1) % 400 = 0) := by
    simp only [isLeap, Bool.and_eq_true, Bool.or_eq_true, beq_iff_eq, bne_iff_ne]
    omega
  rw [yearStart, yearStart]
  split
  · next h =>
    have h := hleap.1 h
    omega
  · next h =>
    have h := mt hleap.2 h
    omega

/-- The date of a day: the year in which it lies, which starts in March, the month of that year,
and the day of that month. -/
structure LiesIn (days : Int) (year era dayOfYear month : Int) : Prop where
  days_eq : days = era * 146097 + yearStart year + dayOfYear - 719468
  year_bounds : 0 ≤ year ∧ year < 400
  dayOfYear_bounds : 0 ≤ dayOfYear ∧ dayOfYear < yearStart (year + 1) - yearStart year
  month_eq : month = (5 * dayOfYear + 2) / 153
  ofDays_eq : ofDays days = ⟨if month < 10 then year + era * 400 else year + era * 400 + 1,
    (if month < 10 then month + 3 else month - 9).toNat,
    (dayOfYear - (153 * month + 2) / 5 + 1).toNat⟩

theorem exists_liesIn (days : Int) :
    ∃ year era dayOfYear month, LiesIn days year era dayOfYear month := by
  have hday : 0 ≤ (days + 719468) % 146097 ∧ (days + 719468) % 146097 < 146097 := by omega
  obtain ⟨year, hlt, hyear, hstart, hend⟩ := yearOfDay_spec hday.1 hday.2
  have hfirst : yearStart year = 365 * year + (year : Int) / 4 - (year : Int) / 100 := by
    rw [yearStart]
    omega
  refine ⟨year, (days + 719468) / 146097, (days + 719468) % 146097 - yearStart year, _, ?_, ?_, ?_,
    rfl, ?_⟩
  · omega
  · omega
  · omega
  · rw [yearOfDay] at hyear
    rw [ofDays, hyear, ← hfirst]
    have hlength := yearStart_succ_sub year ((days + 719468) / 146097)
    have hmonth : 0 ≤ (5 * ((days + 719468) % 146097 - yearStart year) + 2) / 153 ∧
        (5 * ((days + 719468) % 146097 - yearStart year) + 2) / 153 < 12 := by
      split at hlength <;> omega
    rw [CalendarDate.mk.injEq]
    refine ⟨?_, rfl, rfl⟩
    generalize (5 * ((days + 719468) % 146097 - yearStart year) + 2) / 153 = month at hmonth ⊢
    by_cases hearly : month < 10
    · have hlate : ¬ month + 3 ≤ 2 := by omega
      simp only [if_pos hearly, if_neg hlate]
    · have hlate : month - 9 ≤ 2 := by omega
      simp only [if_neg hearly, if_pos hlate]

namespace LiesIn

variable {days year era dayOfYear month : Int}

theorem bounds (h : LiesIn days year era dayOfYear month) : 0 ≤ month ∧ month < 12 ∧
    (153 * month + 2) / 5 ≤ dayOfYear ∧ dayOfYear < (153 * (month + 1) + 2) / 5 := by
  obtain ⟨-, hyear, hday, hmonth, -⟩ := h
  rw [yearStart_succ_sub year era] at hday
  split at hday <;> omega

theorem toDays_eq (h : LiesIn days year era dayOfYear month) : (ofDays days).toDays = days := by
  obtain ⟨hnonneg, htwelve, hfirst, -⟩ := h.bounds
  obtain ⟨hdays, hyear, -, -, hdate⟩ := h
  have hera : (year + era * 400) / 400 = era := by omega
  have hyearOfEra : (year + era * 400) % 400 = year := by omega
  have hday : ((dayOfYear - (153 * month + 2) / 5 + 1).toNat : Int) =
      dayOfYear - (153 * month + 2) / 5 + 1 := by omega
  have hcivil : ((if month < 10 then month + 3 else month - 9).toNat + 9 : Int) % 12 = month := by
    by_cases hearly : month < 10
    · rw [if_pos hearly]
      omega
    · rw [if_neg hearly]
      omega
  have hshift : (if (if month < 10 then month + 3 else month - 9).toNat ≤ 2 then
      (if month < 10 then year + era * 400 else year + era * 400 + 1) - 1
      else if month < 10 then year + era * 400 else year + era * 400 + 1) = year + era * 400 := by
    by_cases hearly : month < 10
    · have hlate : ¬ (month + 3).toNat ≤ 2 := by omega
      simp only [if_pos hearly, if_neg hlate]
    · have hlate : (month - 9).toNat ≤ 2 := by omega
      simp only [if_neg hearly, if_pos hlate]
      omega
  rw [hdate, toDays]
  dsimp only
  rw [hshift, hera, hyearOfEra, hday, hcivil, hdays, yearStart]
  omega

theorem isValid (h : LiesIn days year era dayOfYear month) : (ofDays days).isValid = true := by
  obtain ⟨hnonneg, htwelve, hfirst, hlast⟩ := h.bounds
  obtain ⟨-, -, ⟨-, hend⟩, -, hdate⟩ := h
  rw [yearStart_succ_sub year era] at hend
  rw [hdate, CalendarDate.isValid]
  by_cases hfebruary : month = 11
  · subst hfebruary
    by_cases hleap : isLeap (year + era * 400 + 1) = true
    · rw [if_pos hleap] at hend
      simp [daysInMonth, hleap]
      omega
    · rw [if_neg hleap] at hend
      simp [daysInMonth, hleap]
      omega
  · clear hend hdate
    have hmonth : month = 0 ∨ month = 1 ∨ month = 2 ∨ month = 3 ∨ month = 4 ∨ month = 5 ∨
        month = 6 ∨ month = 7 ∨ month = 8 ∨ month = 9 ∨ month = 10 := by omega
    rcases hmonth with rfl | rfl | rfl | rfl | rfl | rfl | rfl | rfl | rfl | rfl | rfl <;>
      simp [daysInMonth] <;> omega

end LiesIn

/-- The date of a day leads back to the day. -/
theorem toDays_ofDays (days : Int) : (ofDays days).toDays = days := by
  obtain ⟨_, _, _, _, h⟩ := exists_liesIn days
  exact h.toDays_eq

/-- The date of a day exists. -/
theorem isValid_ofDays (days : Int) : (ofDays days).isValid = true := by
  obtain ⟨_, _, _, _, h⟩ := exists_liesIn days
  exact h.isValid

end CalendarDate

end OperationQueue
