import Mathlib.Data.Int.ConditionallyCompleteOrder
import Minicrond.Time.Calendar

/-! The day number of a date, and the months as intervals of day numbers. -/

namespace Minicrond.Time

def yearStart (y : ℤ) : ℤ := 365 * y + y / 4 - y / 100 + y / 400

def monthStart (k : ℤ) : ℤ := yearStart (k / 12) + (153 * (k % 12) + 2) / 5 - 719468

def dayNumberOf (year month day : ℤ) : ℤ := monthStart (12 * year + month - 3) + day - 1

def monthLength (k : ℤ) : ℤ := monthStart (k + 1) - monthStart k

def monthIndex (days : ℤ) : ℤ := 12 * yearOf days + monthOf days - 3

lemma yearStart_add_era (y era : ℤ) : yearStart (y + 400 * era) = yearStart y + 146097 * era := by
  simp only [yearStart]
  omega

lemma monthStart_of_year {m : ℤ} (y : ℤ) (h0 : 0 ≤ m) (h1 : m < 12) :
    monthStart (12 * y + m) = yearStart y + (153 * m + 2) / 5 - 719468 := by
  rw [monthStart, show (12 * y + m) / 12 = y by omega, show (12 * y + m) % 12 = m by omega]

lemma monthLength_of_year {m : ℤ} (y : ℤ) (h0 : 0 ≤ m) (h1 : m < 11) :
    monthLength (12 * y + m) = (153 * (m + 1) + 2) / 5 - (153 * m + 2) / 5 := by
  rw [monthLength, add_assoc, monthStart_of_year y h0 (by omega), monthStart_of_year y (by omega) (by omega)]
  omega

lemma monthLength_february (y : ℤ) : 28 ≤ monthLength (12 * y + 11) ∧ monthLength (12 * y + 11) ≤ 29 := by
  rw [monthLength, show 12 * y + 11 + 1 = 12 * (y + 1) + 0 by omega, monthStart_of_year _ le_rfl (by omega),
    monthStart_of_year y (by omega) (by omega)]
  simp only [yearStart]
  omega

lemma monthLength_bounds (k : ℤ) : 28 ≤ monthLength k ∧ monthLength k ≤ 31 := by
  obtain ⟨y, m, h0, h1, rfl⟩ : ∃ y m, 0 ≤ m ∧ m < 12 ∧ k = 12 * y + m :=
    ⟨k / 12, k % 12, by omega, by omega, by omega⟩
  obtain hm | rfl : m < 11 ∨ m = 11 := by omega
  · rw [monthLength_of_year y h0 hm]
    omega
  · have := monthLength_february y
    omega

lemma monthStart_lt_succ (k : ℤ) : monthStart k < monthStart (k + 1) := by
  have := (monthLength_bounds k).1
  simp only [monthLength] at this
  omega

lemma monthStart_lt_iff {j k : ℤ} : monthStart j < monthStart k ↔ j < k :=
  (strictMono_int_of_lt_succ monthStart_lt_succ).lt_iff_lt

lemma lt_next_year_aux {doe : ℤ} (h0 : 0 ≤ doe) (h1 : doe < 146096) : doe < yearStart (yearOfEra doe + 1) := by
  simp only [yearStart, yearOfEra]
  have hg : doe / 146096 = 0 := by omega
  rw [hg]
  obtain ⟨century, hf⟩ : ∃ f, f = doe / 36524 := ⟨_, rfl⟩
  obtain ⟨y, hy⟩ : ∃ y, y = (doe - doe / 1460 + century - 0) / 365 := ⟨_, rfl⟩
  rw [← hf, ← hy]
  have hcentury : century = 0 ∨ century = 1 ∨ century = 2 ∨ century = 3 := by omega
  have hd : y / 100 = century := by rcases hcentury with rfl | rfl | rfl | rfl <;> omega
  -- The next year begins a century, or it is in the same one.
  have hlast : y + 1 = 100 * century + 100 ∨ (y + 1) / 100 = century ∧ (y + 1) / 400 = 0 := by
    rcases hcentury with rfl | rfl | rfl | rfl <;> omega
  obtain ⟨e, he⟩ : ∃ e, e = doe / 1460 := ⟨_, rfl⟩
  obtain ⟨c, hc⟩ : ∃ c, c = (y + 1) / 4 := ⟨_, rfl⟩
  have hec : e = c ∨ e + 1 = c := by rcases hcentury with rfl | rfl | rfl | rfl <;> omega
  rcases hlast with hy' | ⟨h100, h400⟩
  · rw [hy'] at hc ⊢
    rcases hcentury with rfl | rfl | rfl | rfl <;> omega
  · rw [h100, h400, ← hc]
    rcases hcentury with rfl | rfl | rfl | rfl <;> rcases hec with h | h <;> omega

lemma lt_next_year {doe : ℤ} (h0 : 0 ≤ doe) (h1 : doe < 146097) : doe < yearStart (yearOfEra doe + 1) := by
  rcases (show doe ≤ 146096 by omega).lt_or_eq with h | rfl
  · exact lt_next_year_aux h0 h
  · decide

section

variable (days : ℤ)

lemma monthOf_bounds : 1 ≤ monthOf days ∧ monthOf days ≤ 12 := by
  have := monthOfYear_bounds days
  simp only [monthOf]
  split_ifs <;> omega

lemma monthIndex_eq : monthIndex days =
    12 * (yearOfEra (dayOfEra days) + 400 * ((days + 719468) / 146097)) +
      monthOfYear (dayOfYear (dayOfEra days)) := by
  have := monthOfYear_bounds days
  simp only [monthIndex, yearOf, monthOf]
  split_ifs <;> omega

lemma dayOfYear_eq : dayOfYear (dayOfEra days) =
    days + 719468 - yearStart (yearOfEra (dayOfEra days) + 400 * ((days + 719468) / 146097)) := by
  have := yearOfEra_bounds (dayOfEra_bounds days).1 (dayOfEra_bounds days).2
  rw [yearStart_add_era]
  simp only [dayOfYear, yearStart]
  simp only [dayOfEra] at *
  omega

lemma monthStart_monthIndex : monthStart (monthIndex days) = days - dayOf days + 1 := by
  obtain ⟨h0, h1⟩ := monthOfYear_bounds days
  rw [monthIndex_eq, monthStart_of_year _ h0 (by omega), dayOf, dayOfYear_eq]
  omega

lemma dayOf_pos : 1 ≤ dayOf days := by
  have := dayOfYear_bounds (dayOfEra_bounds days).1 (dayOfEra_bounds days).2
  simp only [dayOf, monthOfYear]
  omega

lemma monthStart_le : monthStart (monthIndex days) ≤ days := by
  have := dayOf_pos days
  rw [monthStart_monthIndex]
  omega

lemma lt_monthStart_succ : days < monthStart (monthIndex days + 1) := by
  obtain ⟨h0, h1⟩ := monthOfYear_bounds days
  have hdoy := dayOfYear_eq days
  rw [monthIndex_eq]
  obtain hm | hm : monthOfYear (dayOfYear (dayOfEra days)) < 11 ∨
      monthOfYear (dayOfYear (dayOfEra days)) = 11 := by
    omega
  · rw [add_assoc, monthStart_of_year _ (by omega) (by omega)]
    simp only [monthOfYear] at hm ⊢
    omega
  · -- After February the year is over.
    have hnext := lt_next_year (dayOfEra_bounds days).1 (dayOfEra_bounds days).2
    have hera := yearStart_add_era (yearOfEra (dayOfEra days) + 1) ((days + 719468) / 146097)
    rw [hm, show ∀ y : ℤ, 12 * y + 11 + 1 = 12 * (y + 1) + 0 by intro y; omega,
      monthStart_of_year _ le_rfl (by omega), add_right_comm, hera]
    simp only [dayOfEra] at hnext ⊢
    omega

end

variable {days k : ℤ}

lemma monthIndex_of_mem (h0 : monthStart k ≤ days) (h1 : days < monthStart (k + 1)) : monthIndex days = k := by
  have hk := monthStart_lt_iff.mp ((monthStart_le days).trans_lt h1)
  have hk' := monthStart_lt_iff.mp (h0.trans_lt (lt_monthStart_succ days))
  omega

section

variable {year month day : ℤ} (h1 : 1 ≤ month) (h12 : month ≤ 12) (hday : 1 ≤ day)
  (hlast : day ≤ monthLength (12 * year + month - 3))

include h1 h12 hday hlast

lemma date_dayNumberOf :
    yearOf (dayNumberOf year month day) = year ∧ monthOf (dayNumberOf year month day) = month ∧
      dayOf (dayNumberOf year month day) = day := by
  have hindex : monthIndex (dayNumberOf year month day) = 12 * year + month - 3 := by
    apply monthIndex_of_mem
    · simp only [dayNumberOf]
      omega
    · simp only [dayNumberOf, monthLength] at *
      omega
  have hday' := monthStart_monthIndex (dayNumberOf year month day)
  have hmonth := monthOf_bounds (dayNumberOf year month day)
  rw [hindex] at hday'
  simp only [monthIndex] at hindex
  refine ⟨by omega, by omega, ?_⟩
  simp only [dayNumberOf] at hday' ⊢
  omega

end

lemma dayNumberOf_date (days : ℤ) : dayNumberOf (yearOf days) (monthOf days) (dayOf days) = days := by
  have := monthStart_monthIndex days
  simp only [monthIndex] at this
  rw [dayNumberOf, this]
  omega

lemma dayOf_le (days : ℤ) : dayOf days ≤ monthLength (monthIndex days) := by
  have := monthStart_monthIndex days
  have := lt_monthStart_succ days
  simp only [monthLength]
  omega

lemma dayOfEra_add_era (days era : ℤ) : dayOfEra (days + 146097 * era) = dayOfEra days := by
  simp only [dayOfEra]
  omega

lemma monthOf_add_era (days era : ℤ) : monthOf (days + 146097 * era) = monthOf days := by
  simp only [monthOf, dayOfEra_add_era]

lemma dayOf_add_era (days era : ℤ) : dayOf (days + 146097 * era) = dayOf days := by
  simp only [dayOf, dayOfEra_add_era]

end Minicrond.Time
