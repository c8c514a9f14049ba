import Minicrond.Time.Instant

/-! The proleptic Gregorian calendar of a wall clock, as `Time.Date`, `Time.Hour`, `Time.Minute`
and `Time.Weekday` report it. A wall clock reading counts nanoseconds from 1970-01-01 00:00. -/

namespace Minicrond.Time

structure Civil where
  year : ℤ
  month : ℤ
  day : ℤ
  hour : ℤ
  minute : ℤ
  weekday : ℤ
deriving DecidableEq, Repr

def dayOfEra (days : ℤ) : ℤ := (days + 719468) % 146097

def yearOfEra (doe : ℤ) : ℤ := (doe - doe / 1460 + doe / 36524 - doe / 146096) / 365

def dayOfYear (doe : ℤ) : ℤ := doe - (365 * yearOfEra doe + yearOfEra doe / 4 - yearOfEra doe / 100)

def monthOfYear (doy : ℤ) : ℤ := (5 * doy + 2) / 153

def monthOf (days : ℤ) : ℤ :=
  let mp := monthOfYear (dayOfYear (dayOfEra days))
  if mp < 10 then mp + 3 else mp - 9

def dayOf (days : ℤ) : ℤ :=
  let doy := dayOfYear (dayOfEra days)
  doy - (153 * monthOfYear doy + 2) / 5 + 1

def yearOf (days : ℤ) : ℤ :=
  yearOfEra (dayOfEra days) + (days + 719468) / 146097 * 400 + if monthOf days ≤ 2 then 1 else 0

def dayNumber (wall : ℤ) : ℤ := wall / (24 * hour)

def minuteOfDay (wall : ℤ) : ℤ := wall / minute % 1440

def civil (wall : ℤ) : Civil where
  year := yearOf (dayNumber wall)
  month := monthOf (dayNumber wall)
  day := dayOf (dayNumber wall)
  hour := minuteOfDay wall / 60
  minute := minuteOfDay wall % 60
  weekday := (dayNumber wall + 4) % 7

lemma yearOfEra_bounds {doe : ℤ} (h0 : 0 ≤ doe) (h1 : doe < 146097) : 0 ≤ yearOfEra doe ∧ yearOfEra doe < 400 := by
  simp only [yearOfEra]
  omega

lemma dayOfYear_bounds_aux {doe : ℤ} (h0 : 0 ≤ doe) (h1 : doe < 146096) :
    0 ≤ dayOfYear doe ∧ dayOfYear doe ≤ 365 := by
  simp only [dayOfYear, yearOfEra]
  have hg : doe / 146096 = 0 := by omega
  rw [hg]
  obtain ⟨century, hf⟩ : ∃ f, f = doe / 36524 := ⟨_, rfl⟩
  obtain ⟨y, hy⟩ : ∃ y, y = (doe - doe / 1460 + century - 0) / 365 := ⟨_, rfl⟩
  rw [← hf, ← hy]
  have hcentury : century = 0 ∨ century = 1 ∨ century = 2 ∨ century = 3 := by omega
  have hd : y / 100 = century := by rcases hcentury with rfl | rfl | rfl | rfl <;> omega
  obtain ⟨e, he⟩ : ∃ e, e = doe / 1460 := ⟨_, rfl⟩
  obtain ⟨c, hc⟩ : ∃ c, c = y / 4 := ⟨_, rfl⟩
  rw [hd, ← hc]
  -- The four-year cycles counted from the start of the era and from the century differ by at most one.
  have hec : e = c ∨ e = c + 1 := by rcases hcentury with rfl | rfl | rfl | rfl <;> omega
  rcases hcentury with rfl | rfl | rfl | rfl <;> rcases hec with h | h <;> omega

lemma dayOfYear_bounds {doe : ℤ} (h0 : 0 ≤ doe) (h1 : doe < 146097) : 0 ≤ dayOfYear doe ∧ dayOfYear doe ≤ 365 := by
  rcases (show doe ≤ 146096 by omega).lt_or_eq with h | rfl
  · exact dayOfYear_bounds_aux h0 h
  · decide

lemma dayOfEra_bounds (days : ℤ) : 0 ≤ dayOfEra days ∧ dayOfEra days < 146097 := by
  simp only [dayOfEra]
  omega

lemma monthOfYear_bounds (days : ℤ) :
    0 ≤ monthOfYear (dayOfYear (dayOfEra days)) ∧ monthOfYear (dayOfYear (dayOfEra days)) ≤ 11 := by
  obtain ⟨h0, h1⟩ := dayOfYear_bounds (dayOfEra_bounds days).1 (dayOfEra_bounds days).2
  simp only [monthOfYear]
  omega

lemma date_injective {a b : ℤ} (hy : yearOf a = yearOf b) (hm : monthOf a = monthOf b) (hd : dayOf a = dayOf b) :
    a = b := by
  have ha := monthOfYear_bounds a
  have hb := monthOfYear_bounds b
  have hya := yearOfEra_bounds (dayOfEra_bounds a).1 (dayOfEra_bounds a).2
  have hyb := yearOfEra_bounds (dayOfEra_bounds b).1 (dayOfEra_bounds b).2
  have hmonth : monthOfYear (dayOfYear (dayOfEra a)) = monthOfYear (dayOfYear (dayOfEra b)) := by
    simp only [monthOf] at hm
    split_ifs at hm <;> omega
  have hdoy : dayOfYear (dayOfEra a) = dayOfYear (dayOfEra b) := by
    simp only [dayOf] at hd
    rw [hmonth] at hd
    omega
  have hyears : yearOfEra (dayOfEra a) = yearOfEra (dayOfEra b) ∧
      (a + 719468) / 146097 = (b + 719468) / 146097 := by
    simp only [yearOf] at hy
    rw [hm] at hy
    omega
  have hdoe : dayOfEra a = dayOfEra b := by
    simp only [dayOfYear] at hdoy
    rw [hyears.1] at hdoy
    omega
  simp only [dayOfEra] at hdoe
  omega

lemma same_minute_iff (v w : ℤ) :
    ((civil v).year = (civil w).year ∧ (civil v).month = (civil w).month ∧ (civil v).day = (civil w).day ∧
      (civil v).hour = (civil w).hour ∧ (civil v).minute = (civil w).minute) ↔ v / minute = w / minute := by
  simp only [civil]
  constructor
  · rintro ⟨hy, hm, hd, hh, hmin⟩
    have hday := date_injective hy hm hd
    have hv : v / minute / 1440 = dayNumber v := by simp only [dayNumber, hour, minute]; omega
    have hw : w / minute / 1440 = dayNumber w := by simp only [dayNumber, hour, minute]; omega
    simp only [minuteOfDay] at hh hmin
    omega
  · intro h
    have hday : dayNumber v = dayNumber w := by
      simp only [dayNumber, hour]
      simp only [minute] at h
      omega
    have hmod : minuteOfDay v = minuteOfDay w := by rw [minuteOfDay, minuteOfDay, h]
    rw [hday, hmod]
    exact ⟨rfl, rfl, rfl, rfl, rfl⟩

end Minicrond.Time
