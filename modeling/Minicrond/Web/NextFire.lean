import Minicrond.Library.BoundedLoop
import Minicrond.Time.Dates
import Minicrond.Time.Zone
import Minicrond.Web.Schedule

/-! The next fire time that the editor shows for a schedule. -/

namespace Minicrond.Web

open Minicrond.Library Minicrond.Time

structure TzParts where
  year : ℤ
  month : ℤ
  day : ℤ
  hour : ℤ
  minute : ℤ

def civilMs (ms : ℤ) : Civil := civil (ms * 1000000)

def dateUTC (year month day hour minute : ℤ) : ℤ :=
  let fullYear := if 0 ≤ year ∧ year ≤ 99 then 1900 + year else year
  (dayNumberOf fullYear (month + 1) day * 1440 + hour * 60 + minute) * 60000

/-- The parts of the time that a zone shows. A year before the first one is shown by its number in its era. -/
def wallParts (tz : Zone) (ms : ℤ) : TzParts :=
  let c := civil (tz.wall (ms * 1000000))
  { year := if c.year ≤ 0 then 1 - c.year else c.year
    month := c.month
    day := c.day
    hour := c.hour
    minute := c.minute }

def TzParts.toUTC (p : TzParts) : ℤ := dateUTC p.year (p.month - 1) p.day p.hour p.minute

def wallToMs (tz : Zone) (p : TzParts) : ℤ :=
  let pass (instant : ℤ) := p.toUTC - ((wallParts tz instant).toUTC - instant)
  pass (pass p.toUTC)

def daysInMonth (year month : ℤ) : ℤ := (civilMs (dateUTC year month 0 0 0)).day

def dayOfWeek (year month day : ℤ) : ℤ := (civilMs (dateUTC year (month - 1) day 0 0)).weekday

section

variable (fields : CronFields) (domRestricted dowRestricted : Bool)

def matchesDay (year month day : ℤ) : Bool :=
  let domOk := decide (day ∈ fields.dom)
  let dowOk := decide (dayOfWeek year month day ∈ fields.dow)
  if domRestricted && dowRestricted then domOk || dowOk
  else if domRestricted then domOk
  else if dowRestricted then dowOk
  else true

namespace TzParts

variable (p : TzParts)

def carryMinute : TzParts := if 59 < p.minute then { p with minute := 0, hour := p.hour + 1 } else p

def carryHour : TzParts := if 23 < p.hour then { p with hour := 0, day := p.day + 1 } else p

def carryDay : TzParts :=
  if daysInMonth p.year p.month < p.day then { p with day := 1, month := p.month + 1 } else p

def carryMonth : TzParts := if 12 < p.month then { p with month := 1, year := p.year + 1 } else p

def carry : TzParts := p.carryMinute.carryHour.carryDay.carryMonth

def nextMonth : TzParts := { p with month := p.month + 1, day := 1, hour := 0, minute := 0 }

def nextDay : TzParts := { p with day := p.day + 1, hour := 0, minute := 0 }

def nextHour : TzParts := { p with hour := p.hour + 1, minute := 0 }

def nextMinute : TzParts := { p with minute := p.minute + 1 }

end TzParts

def searchRound (p : TzParts) : TzParts ⊕ TzParts :=
  let p := p.carry
  if p.month ∉ fields.month then .inl p.nextMonth
  else if !matchesDay fields domRestricted dowRestricted p.year p.month p.day then .inl p.nextDay
  else if p.hour ∉ fields.hour then .inl p.nextHour
  else if p.minute ∉ fields.minute then .inl p.nextMinute
  else .inr p

end

def maxSteps : ℕ := 200000

/-- The next fire time after an instant, in milliseconds. The zone is missing where its name is not supported. -/
def nextFire (expr : Text) (afterMs : ℤ) (tz : Option Zone) : Option ℚ :=
  match parseSchedule expr, tz with
  | some (.every ms), some _ => toDouble (afterMs + ms)
  | some (.cron fields domRestricted dowRestricted), some tz =>
    (boundedLoop (searchRound fields domRestricted dowRestricted) maxSteps (wallParts tz afterMs).nextMinute).map
      fun p => (wallToMs tz p : ℚ)
  | _, _ => none

lemma civilMs_eq (ms : ℤ) : civilMs ms =
    { year := yearOf (ms / 60000 / 1440), month := monthOf (ms / 60000 / 1440), day := dayOf (ms / 60000 / 1440),
      hour :=
        ms / 60000 % 1440 / 60, minute := ms / 60000 % 1440 % 60, weekday := (ms / 60000 / 1440 + 4) % 7 } := by
  have hday : Time.dayNumber (ms * 1000000) = ms / 60000 / 1440 := by simp only [Time.dayNumber, Time.hour]; omega
  have hminute : minuteOfDay (ms * 1000000) = ms / 60000 % 1440 := by simp only [minuteOfDay, Time.minute]; omega
  simp only [civilMs, civil, hday, hminute]

namespace Reading

variable (R : Reading)

def fires : Set ℤ :=
  {t | 60000 ∣ t ∧ R.Date (civilMs t).month (civilMs t).day (civilMs t).weekday ∧
    (civilMs t).hour ∈ R.hour ∧ (civilMs t).minute ∈ R.minute}

def Right (after : ℤ) : Option ℚ → Prop
  | some q => ∃ t : ℤ, q = t ∧ LeastAfter R.fires after t
  | none => ∀ t ∈ R.fires, t ≤ after

def On (n : ℤ) : Prop := R.Date (monthOf n) (dayOf n) ((n + 4) % 7)

def minutes : Set ℤ := {k | R.On (k / 1440) ∧ k % 1440 / 60 ∈ R.hour ∧ k % 1440 % 60 ∈ R.minute}

variable {R}

lemma mem_fires {k : ℤ} : k * 60000 ∈ R.fires ↔ k ∈ R.minutes := by
  have hk : k * 60000 / 60000 = k := by omega
  simp only [fires, civilMs_eq, hk, minutes, Set.mem_ofPred_eq, On]
  exact and_iff_right (Dvd.intro_left k rfl)

end Reading

lemma civilMs_date (year month day : ℤ) (hour minute : ℤ) (h0 : 0 ≤ hour * 60 + minute)
    (h1 : hour * 60 + minute < 1440) (hyear : 100 ≤ year) :
    (civilMs (dateUTC year month day hour minute)).day = dayOf (dayNumberOf year (month + 1) day) ∧
      (civilMs (dateUTC year month day hour minute)).weekday = (dayNumberOf year (month + 1) day + 4) % 7 := by
  rw [dateUTC, if_neg (by omega), civilMs_eq]
  have hdays : (dayNumberOf year (month + 1) day * 1440 + hour * 60 + minute) * 60000 / 60000 / 1440 =
      dayNumberOf year (month + 1) day := by omega
  simp only [hdays, and_self]

lemma daysInMonth_eq {year : ℤ} (hyear : 100 ≤ year) (month : ℤ) :
    daysInMonth year month = monthLength (12 * year + month - 3) := by
  rw [daysInMonth, (civilMs_date year month 0 0 0 (by omega) (by omega) hyear).1]
  have hlength := monthLength_bounds (12 * year + month - 3)
  have hnext : dayNumberOf year (month + 1) 0 = monthStart (12 * year + month - 3 + 1) - 1 := by
    rw [dayNumberOf, show 12 * year + (month + 1) - 3 = 12 * year + month - 3 + 1 by omega]
    omega
  have hindex : monthIndex (dayNumberOf year (month + 1) 0) = 12 * year + month - 3 := by
    simp only [monthLength] at hlength
    apply monthIndex_of_mem <;> omega
  have hday := monthStart_monthIndex (dayNumberOf year (month + 1) 0)
  rw [hindex] at hday
  simp only [monthLength] at hlength ⊢
  omega

lemma dayOfWeek_eq {year : ℤ} (hyear : 100 ≤ year) (month day : ℤ) :
    dayOfWeek year month day = (dayNumberOf year month day + 4) % 7 := by
  rw [dayOfWeek, (civilMs_date year (month - 1) day 0 0 (by omega) (by omega) hyear).2, sub_add_cancel]

namespace TzParts

def dayNumber (p : TzParts) : ℤ := dayNumberOf p.year p.month p.day

def place (p : TzParts) : ℤ := p.dayNumber * 1440 + p.hour * 60 + p.minute

def monthIndex (p : TzParts) : ℤ := 12 * p.year + p.month - 3

structure Timed (p : TzParts) : Prop where
  hour_nonneg : 0 ≤ p.hour
  hour_le : p.hour ≤ 23
  minute_nonneg : 0 ≤ p.minute
  minute_le : p.minute ≤ 59

structure Normal (p : TzParts) : Prop extends Timed p where
  year_ge : 100 ≤ p.year
  month_pos : 1 ≤ p.month
  month_le : p.month ≤ 12
  day_pos : 1 ≤ p.day
  day_le : p.day ≤ monthLength p.monthIndex

def Carries (p : TzParts) : Prop := p.carry.Normal ∧ p.carry.place = p.place

variable {p : TzParts}

lemma daysInMonth_parts (hyear : 100 ≤ p.year) : daysInMonth p.year p.month = monthLength p.monthIndex :=
  daysInMonth_eq hyear p.month

lemma carryMonth_normal (hyear : 100 ≤ p.year) (hpos : 1 ≤ p.month) (hle : p.month ≤ 13) (hday : 1 ≤ p.day)
    (hlast : p.day ≤ monthLength p.monthIndex) (ht : p.Timed) :
    p.carryMonth.Normal ∧ p.carryMonth.place = p.place := by
  by_cases hover : 12 < p.month
  · rw [carryMonth, if_pos hover]
    have hindex : 12 * (p.year + 1) + 1 - 3 = p.monthIndex := by simp only [monthIndex]; omega
    constructor
    · refine ⟨⟨ht.1, ht.2, ht.3, ht.4⟩, ?_, le_rfl, ?_, hday, ?_⟩
      · exact hyear.trans (by simp only; omega)
      · simp only; omega
      · simpa only [monthIndex, hindex] using hlast
    · simp only [place, dayNumber, dayNumberOf, hindex]
      rfl
  · rw [carryMonth, if_neg hover]
    exact ⟨⟨ht, hyear, hpos, by omega, hday, hlast⟩, rfl⟩

lemma carryDay_normal (hyear : 100 ≤ p.year) (hpos : 1 ≤ p.month) (hle : p.month ≤ 12) (hday : 1 ≤ p.day)
    (hlast : p.day ≤ monthLength p.monthIndex + 1) (ht : p.Timed) :
    p.carryDay.carryMonth.Normal ∧ p.carryDay.carryMonth.place = p.place := by
  by_cases hover : monthLength p.monthIndex < p.day
  · have hnext : 12 * p.year + (p.month + 1) - 3 = p.monthIndex + 1 := by simp only [monthIndex]; omega
    rw [carryDay, daysInMonth_parts hyear, if_pos hover]
    have hlength := monthLength_bounds (p.monthIndex + 1)
    obtain ⟨hnormal, hplace⟩ := carryMonth_normal (p := { p with day := 1, month := p.month + 1 }) hyear
      (by simp only; omega) (by simp only; omega) le_rfl
      (by change 1 ≤ monthLength (12 * p.year + (p.month + 1) - 3); rw [hnext]; omega) ⟨ht.1, ht.2, ht.3, ht.4⟩
    refine ⟨hnormal, hplace.trans ?_⟩
    simp only [place, dayNumber, dayNumberOf, hnext]
    simp only [monthLength] at hover hlast
    change (_ + 1 - 1) * 1440 + _ + _ = (monthStart p.monthIndex + _ - 1) * 1440 + _ + _
    omega
  · rw [carryDay, daysInMonth_parts hyear, if_neg hover]
    exact carryMonth_normal hyear hpos (by omega) hday (by omega) ht

lemma carryHour_normal (hyear : 100 ≤ p.year) (hpos : 1 ≤ p.month) (hle : p.month ≤ 12) (hday : 1 ≤ p.day)
    (hlast : p.day ≤ monthLength p.monthIndex) (hhour : 0 ≤ p.hour) (hlate : p.hour ≤ 24) (hminute : 0 ≤ p.minute)
    (hm : p.minute ≤ 59) :
    p.carryHour.carryDay.carryMonth.Normal ∧ p.carryHour.carryDay.carryMonth.place = p.place := by
  by_cases hover : 23 < p.hour
  · rw [carryHour, if_pos hover]
    obtain ⟨hnormal, hplace⟩ := carryDay_normal (p := { p with hour := 0, day := p.day + 1 }) hyear hpos hle
      (by simp only; omega) (by simpa only [monthIndex, add_le_add_iff_right] using hlast)
      ⟨le_rfl, by simp only; omega, hminute, hm⟩
    refine ⟨hnormal, hplace.trans ?_⟩
    simp only [place, dayNumber, dayNumberOf]
    omega
  · rw [carryHour, if_neg hover]
    exact carryDay_normal hyear hpos hle hday (by omega) ⟨hhour, by omega, hminute, hm⟩

lemma Timed.hour_succ (h : p.Timed) : 0 ≤ p.hour + 1 ∧ p.hour + 1 ≤ 24 := by
  have hhour := h.hour_nonneg
  have hlate := h.hour_le
  omega

lemma Normal.nextMinute (h : p.Normal) : p.nextMinute.Carries := by
  simp only [Carries, carry]
  by_cases hover : p.minute = 59
  · have hcarry : p.nextMinute.carryMinute = { p with minute := 0, hour := p.hour + 1 } := by
      rw [carryMinute, if_pos (by simp only [TzParts.nextMinute]; omega)]
      rfl
    have hhour := h.hour_succ
    rw [hcarry]
    obtain ⟨hnormal, hplace⟩ :=
      carryHour_normal (p := { p with minute := 0, hour := p.hour + 1 }) h.year_ge h.month_pos
      h.month_le h.day_pos h.day_le hhour.1 hhour.2 le_rfl (show (0 : ℤ) ≤ 59 by omega)
    refine ⟨hnormal, hplace.trans ?_⟩
    simp only [place, dayNumber, TzParts.nextMinute]
    omega
  · have hle := h.minute_le
    have hnonneg := h.minute_nonneg
    have hcarry : p.nextMinute.carryMinute = p.nextMinute := by
      rw [carryMinute, if_neg (by simp only [TzParts.nextMinute]; omega)]
    have hlate : p.hour ≤ 24 := h.hour_le.trans (by omega)
    have hminute : 0 ≤ p.minute + 1 ∧ p.minute + 1 ≤ 59 := by omega
    rw [hcarry]
    exact carryHour_normal h.year_ge h.month_pos h.month_le h.day_pos h.day_le h.hour_nonneg hlate hminute.1
      hminute.2

lemma Normal.nextHour (h : p.Normal) : p.nextHour.Carries := by
  have hhour := h.hour_succ
  exact carryHour_normal (p := p.nextHour) h.year_ge h.month_pos h.month_le h.day_pos h.day_le hhour.1 hhour.2
    le_rfl (show (0 : ℤ) ≤ 59 by omega)

lemma midnight_carryHour (hhour : p.hour = 0) (hminute : p.minute = 0) : p.carryMinute.carryHour = p := by
  rw [carryMinute, if_neg (by omega), carryHour, if_neg (by omega)]

lemma midnight_timed (hhour : p.hour = 0) (hminute : p.minute = 0) : p.Timed := by
  constructor <;> omega

lemma Normal.nextDay (h : p.Normal) : p.nextDay.Carries := by
  have hday := h.day_pos
  have hlast := h.day_le
  rw [Carries, carry, midnight_carryHour rfl rfl]
  exact carryDay_normal h.year_ge h.month_pos h.month_le (by simp only [TzParts.nextDay]; omega)
    (by simpa only [monthIndex, TzParts.nextDay, add_le_add_iff_right] using hlast) (midnight_timed rfl rfl)

lemma Normal.nextMonth (h : p.Normal) : p.nextMonth.Carries := by
  have hpos := h.month_pos
  have hle := h.month_le
  have hlength := (monthLength_bounds p.nextMonth.monthIndex).1
  rw [Carries, carry, midnight_carryHour rfl rfl]
  have hcarry : p.nextMonth.carryDay = p.nextMonth := by
    rw [carryDay, daysInMonth_parts (p := p.nextMonth) h.year_ge]
    exact if_neg (by change ¬ _ < 1; omega)
  rw [hcarry]
  exact carryMonth_normal h.year_ge (by simp only [TzParts.nextMonth]; omega)
    (by simp only [TzParts.nextMonth]; omega)
    le_rfl (by change 1 ≤ _; omega) (midnight_timed rfl rfl)

end TzParts

end Minicrond.Web
