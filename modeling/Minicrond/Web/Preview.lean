import Minicrond.Web.NextFire
import Mathlib.Tactic.IntervalCases

/-! The next fire time shown for a five-field expression in UTC, compared with what the expression means. -/

namespace Minicrond.Web

open Minicrond.Library Minicrond.Time

namespace Reading

inductive Move (R : Reading) (k : ℤ) : ℤ → Prop
  | date {n : ℤ} (hlater : k / 1440 < n) (hskip : ∀ m, k / 1440 ≤ m → m < n → ¬ R.On m) : Move R k (n * 1440)
  | hour (hdate : R.On (k / 1440)) (hhour : k % 1440 / 60 ∉ R.hour) : Move R k ((k / 60 + 1) * 60)
  | minute (hdate : R.On (k / 1440)) (hminute : k % 1440 % 60 ∉ R.minute) : Move R k (k + 1)

variable {R : Reading} {k k' : ℤ}

lemma Move.lt (h : R.Move k k') : k < k' := by
  cases h <;> omega

lemma Move.skip (h : R.Move k k') {t : ℤ} (ht : t ∈ R.minutes) (hle : k ≤ t) : k' ≤ t := by
  obtain ⟨hdate, hhour, hminute⟩ := ht
  by_contra hlt
  cases h with
  | @date n hlater hskip => exact hskip (t / 1440) (by omega) (by omega) hdate
  | hour _ hout =>
    have hsame : t % 1440 / 60 = k % 1440 / 60 := by omega
    exact hout (hsame ▸ hhour)
  | minute _ hout =>
    obtain rfl : t = k := by omega
    exact hout hminute

/-! ## Enough rounds -/

lemma minutes_sub_era (h : k ∈ R.minutes) : k - 146097 * 1440 ∈ R.minutes := by
  have hday : (k - 146097 * 1440) / 1440 = k / 1440 + 146097 * (-1) := by omega
  have htime : (k - 146097 * 1440) % 1440 = k % 1440 := by omega
  have hweekday : (k / 1440 + 146097 * (-1) + 4) % 7 = (k / 1440 + 4) % 7 := by omega
  simp only [minutes, On, Set.mem_ofPred_eq, hday, htime, monthOf_add_era, dayOf_add_era, hweekday] at h ⊢
  exact h

lemma least_near {start target : ℤ} (h : IsLeast {t | t ∈ R.minutes ∧ start ≤ t} target) :
    target < start + 146097 * 1440 := by
  by_contra hfar
  have := h.2 ⟨minutes_sub_era h.1.1, by omega⟩
  omega

/-- A bound on the rounds: one for each day before the target's, and one for each minute left of the first day and
of the target's. -/
def rounds (target k : ℤ) : ℕ :=
  if target / 1440 = k / 1440 then (1440 - k % 1440).toNat
  else (target / 1440 - k / 1440 + 1440 + if k % 1440 = 0 then 0 else 1440 - k % 1440).toNat

variable {target : ℤ}

lemma Move.rounds_lt (h : R.Move k k') (hhour : ∃ v ∈ R.hour, 0 ≤ v ∧ v ≤ 23)
    (hminute : ∃ v ∈ R.minute, 0 ≤ v ∧ v ≤ 59) (hleast : ∀ t ∈ R.minutes, k ≤ t → target ≤ t) (hle : k' ≤ target) :
    rounds target k' < rounds target k := by
  have hlt := h.lt
  -- A day of the reading that begins with the search has a minute of the reading.
  have hmidnight : R.On (k / 1440) → k % 1440 = 0 → target / 1440 = k / 1440 := by
    intro hdate hzero
    obtain ⟨hours, hhours, h0, h23⟩ := hhour
    obtain ⟨mins, hmins, hm0, hm59⟩ := hminute
    have hday : (k + hours * 60 + mins) / 1440 = k / 1440 := by omega
    have htime : (k + hours * 60 + mins) % 1440 = hours * 60 + mins := by omega
    have hmem : k + hours * 60 + mins ∈ R.minutes := by
      refine ⟨hday ▸ hdate, ?_, ?_⟩
      · rwa [htime, show (hours * 60 + mins) / 60 = hours by omega]
      · rwa [htime, show (hours * 60 + mins) % 60 = mins by omega]
    have := hleast _ hmem (by omega)
    omega
  simp only [rounds]
  cases h with
  | date hlater hskip => split_ifs <;> omega
  | hour hdate | minute hdate =>
    have := hmidnight hdate
    split_ifs <;> omega

end Reading

/-! ## What a round does -/

namespace TzParts

variable {p : TzParts}

lemma nextMinute_place (p : TzParts) : p.nextMinute.place = p.place + 1 := by
  simp only [place, dayNumber, nextMinute]
  omega

lemma Normal.place_day (h : p.Normal) : p.place / 1440 = p.dayNumber := by
  have := h.hour_nonneg
  have := h.hour_le
  have := h.minute_nonneg
  have := h.minute_le
  simp only [place]
  omega

lemma Normal.place_time (h : p.Normal) : p.place % 1440 = p.hour * 60 + p.minute := by
  have := h.hour_nonneg
  have := h.hour_le
  have := h.minute_nonneg
  have := h.minute_le
  simp only [place]
  omega

lemma Normal.place_hour (h : p.Normal) : p.place % 1440 / 60 = p.hour := by
  have := h.minute_nonneg
  have := h.minute_le
  rw [h.place_time]
  omega

lemma Normal.place_minute (h : p.Normal) : p.place % 1440 % 60 = p.minute := by
  have := h.minute_nonneg
  have := h.minute_le
  rw [h.place_time]
  omega

lemma Normal.date (h : p.Normal) :
    yearOf p.dayNumber = p.year ∧ monthOf p.dayNumber = p.month ∧ dayOf p.dayNumber = p.day :=
  date_dayNumberOf h.month_pos h.month_le h.day_pos h.day_le

lemma Normal.month_of_day (h : p.Normal) {n : ℤ} (hle : p.dayNumber ≤ n) (hlt : n < p.nextMonth.dayNumber) :
    monthOf n = p.month := by
  have hpos := h.day_pos
  have hindex : Time.monthIndex n = p.monthIndex := by
    apply monthIndex_of_mem
    · simp only [dayNumber, dayNumberOf, TzParts.monthIndex] at *
      omega
    · simp only [dayNumber, dayNumberOf, TzParts.nextMonth] at hlt
      rw [TzParts.monthIndex, show 12 * p.year + p.month - 3 + 1 = 12 * p.year + (p.month + 1) - 3 by omega]
      omega
  have hmonth := monthOf_bounds n
  have h1 := h.month_pos
  have h12 := h.month_le
  simp only [Time.monthIndex, TzParts.monthIndex] at hindex
  omega

lemma Normal.dayNumber_lt_nextMonth (h : p.Normal) : p.dayNumber < p.nextMonth.dayNumber := by
  have hlast := h.day_le
  simp only [monthLength, TzParts.monthIndex] at hlast
  simp only [dayNumber, dayNumberOf, TzParts.nextMonth]
  rw [show 12 * p.year + (p.month + 1) - 3 = 12 * p.year + p.month - 3 + 1 by omega]
  omega

end TzParts

section

variable {f : CronFields} {domRestricted dowRestricted : Bool} {p p' : TzParts} {R : Reading}

lemma matchesDay_iff (h : p.Normal) :
    (f.reading domRestricted dowRestricted).On p.dayNumber ↔
      p.month ∈ f.month ∧ matchesDay f domRestricted dowRestricted p.year p.month p.day = true := by
  obtain ⟨-, hmonth, hday⟩ := h.date
  have hweekday : dayOfWeek p.year p.month p.day = (p.dayNumber + 4) % 7 := dayOfWeek_eq h.year_ge p.month p.day
  simp only [Reading.On, Reading.Date, CronFields.reading, hmonth, hday, matchesDay, hweekday, Set.mem_ofPred_eq]
  cases domRestricted <;> cases dowRestricted <;> simp

lemma searchRound_found (hp : p.Carries) (h : searchRound f domRestricted dowRestricted p = .inr p') :
    p'.Normal ∧ p'.place = p.place ∧ p.place ∈ (f.reading domRestricted dowRestricted).minutes := by
  obtain ⟨hnormal, hplace⟩ := hp
  simp only [searchRound, ite_not] at h
  split_ifs at h with hmonth hday hhour hminute
  obtain rfl := Sum.inr.inj h
  refine ⟨hnormal, hplace, ?_⟩
  rw [← hplace]
  refine ⟨?_, ?_, ?_⟩
  · rw [hnormal.place_day]
    exact (matchesDay_iff hnormal).mpr ⟨hmonth, by simpa using hday⟩
  · rw [hnormal.place_hour]
    exact hhour
  · rw [hnormal.place_minute]
    exact hminute

lemma Reading.Move.nextMonth (h : p.Normal) (hmonth : p.month ∉ R.month) :
    R.Move p.place p.nextMonth.place := by
  have hto : p.nextMonth.place = p.nextMonth.dayNumber * 1440 := by
    simp only [TzParts.place, TzParts.nextMonth]
    omega
  rw [hto]
  apply Reading.Move.date
  · rw [h.place_day]
    exact h.dayNumber_lt_nextMonth
  · intro n hn hlt hon
    rw [h.place_day] at hn
    exact hmonth (h.month_of_day hn hlt ▸ hon.1)

lemma Reading.Move.nextDay (h : p.Normal) (hdate : ¬ R.On p.dayNumber) :
    R.Move p.place p.nextDay.place := by
  have hto : p.nextDay.place = (p.dayNumber + 1) * 1440 := by
    simp only [TzParts.place, TzParts.dayNumber, dayNumberOf, TzParts.nextDay]
    omega
  rw [hto]
  apply Reading.Move.date
  · rw [h.place_day]
    omega
  · intro n hn hlt hon
    rw [h.place_day] at hn
    obtain rfl : n = p.dayNumber := by omega
    exact hdate hon

lemma Reading.Move.nextHour (h : p.Normal) (hdate : R.On p.dayNumber) (hhour : p.hour ∉ R.hour) :
    R.Move p.place p.nextHour.place := by
  have hto : p.nextHour.place = (p.place / 60 + 1) * 60 := by
    have := h.minute_nonneg
    have := h.minute_le
    simp only [TzParts.place, TzParts.dayNumber, TzParts.nextHour]
    omega
  rw [hto]
  apply Reading.Move.hour
  · rwa [h.place_day]
  · rwa [h.place_hour]

lemma Reading.Move.nextMinute (h : p.Normal) (hdate : R.On p.dayNumber) (hminute : p.minute ∉ R.minute) :
    R.Move p.place p.nextMinute.place := by
  rw [p.nextMinute_place]
  apply Reading.Move.minute
  · rwa [h.place_day]
  · rwa [h.place_minute]

lemma searchRound_moved (hp : p.Carries) (h : searchRound f domRestricted dowRestricted p = .inl p') :
    p'.Carries ∧ (f.reading domRestricted dowRestricted).Move p.place p'.place := by
  obtain ⟨hnormal, hplace⟩ := hp
  rw [← hplace]
  simp only [searchRound] at h
  generalize p.carry = q at hnormal h ⊢
  have hon := @matchesDay_iff f domRestricted dowRestricted q hnormal
  split_ifs at h with hmonth hday hhour hminute
  · obtain rfl := Sum.inl.inj h
    exact ⟨hnormal.nextDay, .nextDay hnormal fun hdate => by simp [(hon.mp hdate).2] at hday⟩
  · obtain rfl := Sum.inl.inj h
    exact ⟨hnormal.nextMinute, .nextMinute hnormal (hon.mpr ⟨hmonth, by simpa using hday⟩) hminute⟩
  · obtain rfl := Sum.inl.inj h
    exact ⟨hnormal.nextHour, .nextHour hnormal (hon.mpr ⟨hmonth, by simpa using hday⟩) hhour⟩
  · obtain rfl := Sum.inl.inj h
    exact ⟨hnormal.nextMonth, .nextMonth hnormal hmonth⟩

end

/-! ## In UTC -/

def dated : Set ℤ := Set.Ico (dayNumberOf 100 1 1 * 86400000) (dayNumberOf 270000 1 1 * 86400000)

lemma year_of_dated {ms : ℤ} (h : ms ∈ dated) : 100 ≤ yearOf (ms / 60000 / 1440) := by
  have hstart : monthStart (12 * 100 + 1 - 3) ≤ ms / 60000 / 1440 := by
    have hlow := h.1
    simp only [dayNumberOf] at hlow
    omega
  have hindex := monthStart_lt_iff.mp (hstart.trans_lt (lt_monthStart_succ _))
  have hmonth := monthOf_bounds (ms / 60000 / 1440)
  simp only [monthIndex] at hindex
  omega

lemma wallParts_utc {ms : ℤ} (h : 100 ≤ yearOf (ms / 60000 / 1440)) :
    (wallParts .utc ms).Normal ∧ (wallParts .utc ms).place = ms / 60000 := by
  have hparts : wallParts .utc ms =
      { year := yearOf (ms / 60000 / 1440), month := monthOf (ms / 60000 / 1440), day := dayOf (ms / 60000 / 1440),
        hour := ms / 60000 % 1440 / 60, minute := ms / 60000 % 1440 % 60 } := by
    have hcivil := civilMs_eq ms
    simp only [civilMs] at hcivil
    simp only [wallParts, Zone.wall_utc, hcivil, if_neg (show ¬ yearOf (ms / 60000 / 1440) ≤ 0 by omega)]
  have hmonth := monthOf_bounds (ms / 60000 / 1440)
  rw [hparts]
  constructor
  · refine ⟨⟨?_, ?_, ?_, ?_⟩, h, hmonth.1, hmonth.2, dayOf_pos _, dayOf_le _⟩ <;> simp only <;> omega
  · simp only [TzParts.place, TzParts.dayNumber, dayNumberOf_date]
    omega

lemma toUTC_eq {p : TzParts} (hyear : 100 ≤ p.year) : p.toUTC = p.place * 60000 := by
  rw [TzParts.toUTC, dateUTC, if_neg (by omega), sub_add_cancel]
  rfl

lemma wallToMs_utc {p : TzParts} (h : p.Normal) : wallToMs .utc p = p.place * 60000 := by
  have hplace : p.place * 60000 / 60000 = p.place := by omega
  have hyear : 100 ≤ yearOf (p.place * 60000 / 60000 / 1440) := by
    rw [hplace, h.place_day, h.date.1]
    exact h.year_ge
  obtain ⟨hnormal, hback⟩ := wallParts_utc hyear
  have hpass : (wallParts .utc (p.place * 60000)).toUTC = p.place * 60000 := by
    rw [toUTC_eq hnormal.year_ge, hback, hplace]
  simp only [wallToMs, toUTC_eq h.year_ge, hpass, sub_self, sub_zero]

section

variable {f : CronFields} {domRestricted dowRestricted : Bool}

lemma searchRound_seeks (start : ℤ) :
    Seeks (searchRound f domRestricted dowRestricted) (f.reading domRestricted dowRestricted).fires
      (fun p => p.Carries ∧ start ≤ p.place) (fun p => p.place * 60000) (wallToMs .utc) where
  found p r hp hround := by
    obtain ⟨hnormal, hplace, hmem⟩ := searchRound_found hp.1 hround
    rw [wallToMs_utc hnormal, hplace]
    exact ⟨rfl, Reading.mem_fires.mpr hmem⟩
  moved p p' hp hround := by
    obtain ⟨hcarries, hmove⟩ := searchRound_moved hp.1 hround
    have hlt := hmove.lt
    refine ⟨⟨hcarries, hp.2.trans hlt.le⟩, by omega, ?_⟩
    intro t ht hle
    obtain ⟨k, rfl⟩ : ∃ k, t = k * 60000 := ⟨t / 60000, by have := ht.1; omega⟩
    have := hmove.skip (Reading.mem_fires.mp ht) (by omega)
    omega

variable {R : Reading} {after : ℤ}

lemma leastAfter_iff {t : ℤ} :
    LeastAfter R.fires after t ↔ IsLeast {t | t ∈ R.fires ∧ (after / 60000 + 1) * 60000 ≤ t} t := by
  have hafter : ∀ u ∈ R.fires, after < u ↔ (after / 60000 + 1) * 60000 ≤ u := by
    intro u hu
    have := hu.1
    omega
  rw [LeastAfter]
  have hsets : {u | u ∈ R.fires ∧ after < u} = {t | t ∈ R.fires ∧ (after / 60000 + 1) * 60000 ≤ t} := by
    ext u
    exact and_congr_right (hafter u)
  rw [hsets]

lemma search_finds (hhour : ∃ v ∈ (f.reading domRestricted dowRestricted).hour, 0 ≤ v ∧ v ≤ 23)
    (hminute : ∃ v ∈ (f.reading domRestricted dowRestricted).minute, 0 ≤ v ∧ v ≤ 59) {p : TzParts} (hp : p.Carries)
    {t : ℤ} (ht : t ∈ (f.reading domRestricted dowRestricted).minutes) (hle : p.place ≤ t) :
    ∃ r, boundedLoop (searchRound f domRestricted dowRestricted) maxSteps p = some r := by
  obtain ⟨target, htarget, -⟩ := LeastAfter.exists_of_mem ht (show p.place - 1 < t by omega)
  have hleast : ∀ u ∈ (f.reading domRestricted dowRestricted).minutes, p.place ≤ u → target ≤ u := by
    intro u hu hplace
    exact htarget.le_of_mem hu (by omega)
  have hplace : p.place ≤ target := by
    have := htarget.lt
    omega
  have hnear := Reading.least_near ⟨⟨htarget.mem, hplace⟩, fun u hu => hleast u hu.1 hu.2⟩
  have hlower : ∀ q q', (q.Carries ∧ p.place ≤ q.place) → searchRound f domRestricted dowRestricted q = .inl q' →
      q'.place * 60000 ≤ target * 60000 → Reading.rounds target q'.place < Reading.rounds target q.place := by
    intro q q' hq hround hle'
    obtain ⟨-, hmove⟩ := searchRound_moved hq.1 hround
    exact hmove.rounds_lt hhour hminute (fun u hu hqu => hleast u hu (hq.2.trans hqu)) (by omega)
  apply (searchRound_seeks p.place).finds (Reading.mem_fires.mpr htarget.mem) hlower ⟨hp, le_rfl⟩ (by omega)
  simp only [Reading.rounds, maxSteps]
  split_ifs <;> omega

lemma nextFire_cron {expr : Text} (h : parseSchedule expr = some (.cron f domRestricted dowRestricted)) (after : ℤ)
    (tz : Zone) : nextFire expr after (some tz) =
      (boundedLoop (searchRound f domRestricted dowRestricted) maxSteps (wallParts tz after).nextMinute).map
        fun p => (wallToMs tz p : ℚ) := by
  unfold nextFire
  rw [h]

lemma nextFire_misread {expr : Text} (h : parseSchedule expr = some (.cron f domRestricted dowRestricted))
    (hafter : after ∈ dated) : (misread expr).Right after (nextFire expr after (some .utc)) := by
  obtain ⟨hreading, hminutes, hhours⟩ := parseSchedule_reading h
  obtain ⟨hnormal, hplace⟩ := wallParts_utc (year_of_dated hafter)
  have hstart := hnormal.nextMinute
  have hnext := (TzParts.nextMinute_place (wallParts .utc after)).trans (congrArg (· + 1) hplace)
  rw [← hreading] at hminutes hhours ⊢
  have hresult := nextFire_cron h after .utc
  cases hloop : boundedLoop (searchRound f domRestricted dowRestricted) maxSteps
    (wallParts .utc after).nextMinute with
  | some r =>
    have hleast := (searchRound_seeks _).least ⟨hstart, le_rfl⟩ hloop
    rw [hnext] at hleast
    rw [hresult, hloop]
    exact ⟨wallToMs .utc r, rfl, leastAfter_iff.mpr hleast⟩
  | none =>
    rw [hresult, hloop]
    intro t ht
    by_contra hlt
    obtain ⟨k, rfl⟩ : ∃ k, t = k * 60000 := ⟨t / 60000, by have := ht.1; omega⟩
    have hhour : ∃ v ∈ (f.reading domRestricted dowRestricted).hour, 0 ≤ v ∧ v ≤ 23 := by
      obtain ⟨v, hv⟩ := List.exists_mem_of_ne_nil _ hhours.ne_nil
      exact ⟨v, hv, hhours.bounds v hv⟩
    have hminute : ∃ v ∈ (f.reading domRestricted dowRestricted).minute, 0 ≤ v ∧ v ≤ 59 := by
      obtain ⟨v, hv⟩ := List.exists_mem_of_ne_nil _ hminutes.ne_nil
      exact ⟨v, hv, hminutes.bounds v hv⟩
    obtain ⟨r, hr⟩ := search_finds hhour hminute hstart (Reading.mem_fires.mp ht) (by rw [hnext]; omega)
    exact nomatch hloop.symm.trans hr

end

/-! ## The shown and the meant times -/

lemma fieldValues_star (value : Text → Option ℤ) (min max : ℤ) :
    fieldValues value min max star = Set.Icc min max := by
  have hparts : star.splitOn comma = [star] := by decide
  have hbody : bodyOf star = star := by decide
  have hstep : stepOf star = some 1 := by decide
  ext v
  simp only [fieldValues, hparts, List.mem_singleton, exists_eq_left, partValues, boundsOf, hbody, hstep, if_true,
    Set.mem_ofPred_eq, Option.some.injEq, Prod.mk.injEq, Set.mem_Icc]
  constructor
  · rintro ⟨step, lo, hi, rfl, ⟨rfl, rfl⟩, hlo, hhi, -⟩
    exact ⟨hlo, hhi⟩
  · rintro ⟨hlo, hhi⟩
    exact ⟨1, min, max, rfl, ⟨rfl, rfl⟩, hlo, hhi, one_dvd _⟩

def longestMonth (month : ℤ) : ℤ :=
  if month = 2 then 29 else if month = 4 ∨ month = 6 ∨ month = 9 ∨ month = 11 then 30 else 31

lemma monthLength_le_longest {month : ℤ} (year : ℤ) (h1 : 1 ≤ month) (h12 : month ≤ 12) :
    monthLength (12 * year + month - 3) ≤ longestMonth month := by
  -- the years of the month numbers begin in March
  obtain rfl | rfl | h3 : month = 1 ∨ month = 2 ∨ 3 ≤ month := by omega
  · rw [show 12 * year + 1 - 3 = 12 * (year - 1) + 10 by omega, monthLength_of_year _ (by omega) (by omega)]
    decide
  · rw [show 12 * year + 2 - 3 = 12 * (year - 1) + 11 by omega]
    exact (monthLength_february _).2
  · rw [add_sub_assoc, monthLength_of_year year (by omega) (by omega), longestMonth]
    split_ifs <;> omega

lemma exists_year : ∀ (month : Fin 12) (weekday : Fin 7), ∃ year : Fin 28,
    (monthStart (12 * (2000 + year) + (month + 1) - 3) + 4) % 7 = weekday ∧
      longestMonth (month + 1) ≤ monthLength (12 * (2000 + year) + (month + 1) - 3) := by
  decide +kernel

lemma exists_day {month day weekday : ℤ} (h1 : 1 ≤ month) (h12 : month ≤ 12) (hday : 1 ≤ day)
    (hlast : day ≤ longestMonth month) (h0 : 0 ≤ weekday) (h6 : weekday ≤ 6) :
    ∃ n, monthOf n = month ∧ dayOf n = day ∧ (n + 4) % 7 = weekday ∧ dayNumberOf 100 1 1 < n ∧
      n < dayNumberOf 270000 1 1 := by
  obtain ⟨year, hweekday, hlongest⟩ := exists_year ⟨(month - 1).toNat, by omega⟩
    ⟨((weekday - (day - 1)) % 7).toNat, by omega⟩
  have hmonth : ((month - 1).toNat : ℤ) + 1 = month := by omega
  simp only [hmonth] at hweekday hlongest
  obtain ⟨y, hy⟩ : ∃ y : ℤ, y = 2000 + year := ⟨_, rfl⟩
  rw [← hy] at hweekday hlongest
  obtain ⟨-, hm, hd⟩ := date_dayNumberOf h1 h12 hday (hlast.trans hlongest)
  have hlow : monthStart (12 * 100 + 1 - 3) < monthStart (12 * y + month - 3) := monthStart_lt_iff.mpr (by omega)
  have hhigh : monthStart (12 * y + month - 3 + 1) < monthStart (12 * 270000 + 1 - 3) :=
    monthStart_lt_iff.mpr (by have := year.isLt; omega)
  refine ⟨dayNumberOf y month day, hm, hd, ?_, ?_, ?_⟩ <;> simp only [dayNumberOf, monthLength] at * <;> omega

namespace Reading

variable {R R' : Reading}

def SameDates (R R' : Reading) : Prop :=
  ∀ month day weekday, 1 ≤ month → month ≤ 12 → 1 ≤ day → day ≤ longestMonth month → 0 ≤ weekday → weekday ≤ 6 →
    (R.Date month day weekday ↔ R'.Date month day weekday)

lemma SameDates.on_iff (h : R.SameDates R') (n : ℤ) : R.On n ↔ R'.On n := by
  have hmonth := monthOf_bounds n
  have hlast := (dayOf_le n).trans (monthLength_le_longest (yearOf n) hmonth.1 hmonth.2)
  exact h _ _ _ hmonth.1 hmonth.2 (dayOf_pos n) hlast (by omega) (by omega)

lemma SameDates.fires_eq (h : R.SameDates R') (hhour : R.hour = R'.hour) (hminute : R.minute = R'.minute) :
    R.fires = R'.fires := by
  ext t
  have hon := h.on_iff (t / 60000 / 1440)
  simp only [On] at hon
  simp only [fires, civilMs_eq, Set.mem_ofPred_eq, hon, hhour, hminute]

lemma Right.congr (h : R.fires = R'.fires) {after : ℤ} {result : Option ℚ} (hr : R.Right after result) :
    R'.Right after result := by
  cases result with
  | none => exact fun t ht => hr t (h ▸ ht)
  | some q =>
    obtain ⟨t, hq, ht⟩ := hr
    exact ⟨t, hq, h ▸ ht⟩

lemma Right.mem_of_mem {t : ℤ} {result : Option ℚ} (h : R.Right (t - 1) result) (h' : R'.Right (t - 1) result)
    (ht : t ∈ R.fires) : t ∈ R'.fires := by
  cases result with
  | none =>
    have := h t ht
    omega
  | some q =>
    obtain ⟨u, hq, hu⟩ := h
    obtain ⟨u', hq', hu'⟩ := h'
    obtain rfl : u = u' := by exact_mod_cast hq.symm.trans hq'
    obtain rfl : u = t := by
      have := hu.lt
      have := hu.le_of_mem ht (by omega)
      omega
    exact hu'.mem

end Reading

section

variable {expr : Text} {f : CronFields} {domRestricted dowRestricted : Bool}

lemma sameDates_of_right (h : parseSchedule expr = some (.cron f domRestricted dowRestricted))
    (hright : ∀ after ∈ dated, (meant expr).Right after (nextFire expr after (some .utc))) :
    (meant expr).SameDates (misread expr) := by
  intro month day weekday h1 h12 hday hlast h0 h6
  obtain ⟨n, hm, hd, hw, hlow, hhigh⟩ := exists_day h1 h12 hday hlast h0 h6
  obtain ⟨-, hminutes, hhours⟩ := parseSchedule_reading h
  obtain ⟨hour, hhour⟩ := List.exists_mem_of_ne_nil _ hhours.ne_nil
  obtain ⟨minute, hminute⟩ := List.exists_mem_of_ne_nil _ hminutes.ne_nil
  have hhour' := hhours.bounds hour hhour
  have hminute' := hminutes.bounds minute hminute
  rw [hhours.mem] at hhour
  rw [hminutes.mem] at hminute
  obtain ⟨k, hk⟩ : ∃ k, k = n * 1440 + hour * 60 + minute := ⟨_, rfl⟩
  have hmem : ∀ R : Reading, R.hour = (misread expr).hour → R.minute = (misread expr).minute →
      (k * 60000 ∈ R.fires ↔ R.Date month day weekday) := by
    intro R hRhour hRminute
    rw [Reading.mem_fires, Reading.minutes, Set.mem_ofPred_eq, show k / 1440 = n by omega,
      show k % 1440 / 60 = hour by omega, show k % 1440 % 60 = minute by omega, Reading.On, hm, hd, hw, hRhour,
        hRminute]
    exact and_iff_left ⟨hhour, hminute⟩
  have hafter : k * 60000 - 1 ∈ dated := by
    constructor <;> omega
  have hmeant := hright _ hafter
  have hmisread := nextFire_misread h hafter
  rw [← hmem (meant expr) rfl rfl, ← hmem (misread expr) rfl rfl]
  exact ⟨hmeant.mem_of_mem hmisread, hmisread.mem_of_mem hmeant⟩

end

/-- The editor shows the next fire time of a five-field expression if and only if month names counted from 0 and a
7 that is no day of the week make no difference to its dates. -/
theorem nextFire_right_iff {expr : Text} {f : CronFields} {domRestricted dowRestricted : Bool}
    (h : parseSchedule expr = some (.cron f domRestricted dowRestricted)) :
    (∀ after ∈ dated, (meant expr).Right after (nextFire expr after (some .utc))) ↔
      (meant expr).SameDates (misread expr) := by
  constructor
  · exact sameDates_of_right h
  · intro hsame after hafter
    exact (nextFire_misread h hafter).congr (hsame.fires_eq rfl rfl).symm

theorem nextFire_right_iff_monthly :
    parseSchedule (text "30 2 1,15 * *") =
        some (.cron ⟨[30], [2], [1, 15], [1, 2, 3, 4, 5, 6, 7, 8, 9, 10, 11, 12], [0, 1, 2, 3, 4, 5, 6, 7]⟩ true
        false) ∧ ∀ after ∈ dated, (meant (text "30 2 1,15 * *")).Right after
      (nextFire (text "30 2 1,15 * *") after (some .utc)) := by
  have hparse : parseSchedule (text "30 2 1,15 * *") = some (.cron
      ⟨[30], [2], [1, 15], [1, 2, 3, 4, 5, 6, 7, 8, 9, 10, 11, 12], [0, 1, 2, 3, 4, 5, 6, 7]⟩ true false) := by
    decide +kernel
  refine ⟨hparse, (nextFire_right_iff hparse).mpr ?_⟩
  intro month day weekday _ _ _ _ _ _
  have hmonth : fieldAt (text "30 2 1,15 * *") 3 = star := by decide +kernel
  have hdow : fieldAt (text "30 2 1,15 * *") 4 = star := by decide +kernel
  simp only [Reading.Date, meant, misread, readingOf, hmonth, hdow, fieldValues_star, ne_eq, not_true_eq_false,
    decide_false, Bool.and_false, Bool.false_eq_true, if_false, false_imp_iff]

lemma nextFire_seven {after : ℤ} (hafter : after ∈ dated) :
    nextFire (text "0 0 * * 7") after (some .utc) = none := by
  have hparse : parseSchedule (text "0 0 * * 7") = some
      (.cron ⟨[0], [0], [1, 2, 3, 4, 5, 6, 7, 8, 9, 10, 11, 12, 13, 14, 15, 16, 17, 18, 19, 20, 21, 22, 23, 24, 25,
        26, 27, 28, 29, 30, 31], [1, 2, 3, 4, 5, 6, 7, 8, 9, 10, 11, 12], [7]⟩
      false true) := by
    decide +kernel
  have hright := nextFire_misread hparse hafter
  rw [← (parseSchedule_reading hparse).1] at hright
  generalize nextFire (text "0 0 * * 7") after (some .utc) = result at hright ⊢
  cases result with
  | none => rfl
  | some q =>
    obtain ⟨t, -, ht⟩ := hright
    have hweekday : (civilMs t).weekday ∈ [7] := ht.mem.2.1.2.2 rfl
    rw [civilMs_eq, List.mem_singleton] at hweekday
    simp only at hweekday
    omega

theorem nextFire_not_meant :
    nextFire (text "0 0 * * 7") 1767225600000 (some .utc) = none ∧
      1767484800000 ∈ (meant (text "0 0 * * 7")).fires ∧
      nextFire (text "0 0 1 feb *") 1768435200000 (some .utc) = some 1798761600000 ∧
      1798761600000 ∉ (meant (text "0 0 1 feb *")).fires := by
  refine ⟨nextFire_seven ⟨by decide +kernel, by decide +kernel⟩, ?_, by decide +kernel, ?_⟩
  · have hsunday : civilMs 1767484800000 = ⟨2026, 1, 4, 0, 0, 0⟩ := by decide +kernel
    have hfields : fieldsOf (Text.trim (text "0 0 * * 7")).toLowerCase = ["0", "0", "*", "*", "7"].map text := by
      decide +kernel
    have hzero : ∀ max, (0 : ℤ) ∈ fieldValues (valueOf 0 []) 0 max (text "0") := fun max =>
      ⟨text "0", by decide, 1, 0, 0, by decide, rfl, le_rfl, le_rfl, one_dvd _⟩
    simp only [Reading.fires, Set.mem_ofPred_eq, hsunday, meant, readingOf, fieldAt, hfields]
    refine ⟨by decide, ⟨?_, ?_⟩, hzero 23, hzero 59⟩
    · exact (fieldValues_star _ 1 12).symm ▸ ⟨by decide, by decide⟩
    · exact ⟨fun h => absurd h (by decide), fun _ => ⟨7,
        ⟨text "7", by decide, 1, 7, 7, by decide, by decide, le_rfl, le_rfl, by decide⟩, rfl⟩⟩
  · have hjanuary : civilMs 1798761600000 = ⟨2027, 1, 1, 0, 0, 5⟩ := by decide +kernel
    have hnames : fieldAt (text "0 0 1 feb *") 3 = text "feb" := by decide +kernel
    rintro ⟨-, ⟨⟨part, hpart, step, lo, hi, -, hbounds, hlo, -⟩, -⟩, -⟩
    rw [hnames, show (text "feb").splitOn comma = [text "feb"] by decide, List.mem_singleton] at hpart
    rw [hpart, show boundsOf (valueOf 1 monthNames) 1 12 (text "feb") = some (2, 2) by decide] at hbounds
    obtain ⟨rfl, -⟩ := Prod.mk.inj (Option.some.inj hbounds)
    rw [hjanuary] at hlo
    exact absurd hlo (by decide)

end Minicrond.Web
