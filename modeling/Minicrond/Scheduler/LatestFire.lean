import Minicrond.Scheduler.Overdue

/-! When the backward search of `latestFire` finds the latest missed occurrence within its bounds. -/

namespace Minicrond.Scheduler

open Minicrond.Library Minicrond.Time

def CompiledSchedule.nthFire (c : CompiledSchedule) (anchor : ℤ) (last : Option ℤ) : ℕ → ℤ → Except ScheduleError ℤ
  | 0, t => .ok t
  | n + 1, t =>
    match c.nextFireDistinct t anchor last with
    | .error e => .error e
    | .ok next => CompiledSchedule.nthFire c anchor last n next

def Succeeds (c : CompiledSchedule) (anchor : ℤ) (last : Option ℤ) : Prop :=
  ∀ t, last.getD anchor ≤ t → ∃ x, c.nextFireDistinct t anchor last = .ok x

def searchWindow (k : ℕ) : ℤ := hour * 8 ^ k

def Quiet (c : CompiledSchedule) (anchor : ℤ) (last : Option ℤ) (now first : ℤ) (k : ℕ) : Prop :=
  CompiledSchedule.reachesFirst now first (searchWindow k) = false ∧
    ∀ x, c.nextFireDistinct (CompiledSchedule.windowStart now first (searchWindow k)) anchor last = .ok x → now < x

def Fits (c : CompiledSchedule) (anchor : ℤ) (last : Option ℤ) (now first : ℤ) (k : ℕ) : Prop :=
  ∀ x, c.nthFire anchor last maxCatchUpWindow (CompiledSchedule.windowStart now first (searchWindow k)) = .ok x →
    now < x

def WindowsFit (c : CompiledSchedule) (anchor : ℤ) (last : Option ℤ) (now first : ℤ) : Prop :=
  ∀ k < 8, (∀ j < k, Quiet c anchor last now first j) → Fits c anchor last now first k

section

variable {c : CompiledSchedule} {anchor now first : ℤ} {last : Option ℤ} {n k : ℕ}

lemma le_nthFire (hc : c.cron.Advances) {n : ℕ} {t x : ℤ} (h : c.nthFire anchor last n t = .ok x) : t + n ≤ x := by
  induction n generalizing t with
  | zero =>
    rw [CompiledSchedule.nthFire, Except.ok.injEq] at h
    omega
  | succ n ih =>
    rw [CompiledSchedule.nthFire] at h
    cases hn : c.nextFireDistinct t anchor last with
    | error e => simp [hn] at h
    | ok next =>
      simp only [hn] at h
      have := lt_nextFireDistinct hc hn
      have := ih h
      omega

lemma scanWindow_ok_iff (hc : c.cron.Advances) (hs : Succeeds c anchor last) (window : ℤ) (left : ℕ)
    (best : Option ℤ) {cursor : ℤ} (hb : last.getD anchor ≤ cursor) (hle : cursor ≤ now) :
    (∃ r, c.scanWindow .background anchor last now window left cursor best = .ok r) ↔
      ∀ x, c.nthFire anchor last left cursor = .ok x → now < x := by
  induction left generalizing cursor best with
  | zero => simp [CompiledSchedule.scanWindow, CompiledSchedule.nthFire, hle]
  | succ left ih =>
    obtain ⟨next, hn⟩ := hs cursor hb
    have hlt := lt_nextFireDistinct hc hn
    simp only [CompiledSchedule.scanWindow, CatchUpContext.background, Bool.false_eq_true, and_false, if_false,
      CompiledSchedule.nthFire, hn]
    split_ifs with hpast
    · refine iff_of_true ⟨best, rfl⟩ fun x hx => ?_
      have := le_nthFire hc hx
      omega
    · exact ih _ (by omega) (by omega)

lemma scanWindow_crowded (hc : c.cron.Advances) {window cursor x : ℤ} {left : ℕ} {best : Option ℤ}
    (hx : c.nthFire anchor last left cursor = .ok x) (hle : x ≤ now) :
    c.scanWindow .background anchor last now window left cursor best = .error (.crowded c.raw window) := by
  induction left generalizing cursor best with
  | zero => rfl
  | succ left ih =>
    rw [CompiledSchedule.nthFire] at hx
    cases hn : c.nextFireDistinct cursor anchor last with
    | error e => simp [hn] at hx
    | ok next =>
      simp only [hn] at hx
      have := le_nthFire hc hx
      simp only [CompiledSchedule.scanWindow, CatchUpContext.background, Bool.false_eq_true, and_false, if_false,
        hn, if_neg (show ¬ now < next by omega)]
      exact ih hx

lemma scanWindow_none_iff (hc : c.cron.Advances) (hs : Succeeds c anchor last) (window : ℤ) (left : ℕ) {cursor : ℤ}
    (hb : last.getD anchor ≤ cursor) :
    c.scanWindow .background anchor last now window (left + 1) cursor none = .ok none ↔
      ∀ x, c.nextFireDistinct cursor anchor last = .ok x → now < x := by
  obtain ⟨next, hn⟩ := hs cursor hb
  simp only [CompiledSchedule.scanWindow, CatchUpContext.background, Bool.false_eq_true, and_false, if_false, hn,
    Except.ok.injEq, forall_eq']
  split_ifs with hpast
  · exact iff_of_true rfl hpast
  · refine iff_of_false (fun h => ?_) hpast
    rcases scanWindow_value h hc with hr | ⟨_, _, hr, _⟩ <;> cases hr

lemma searchWindow_succ : ∀ k < 7, wrap (searchWindow k * 8) = searchWindow (k + 1) := by decide

lemma searchWindow_nonneg (k : ℕ) : 0 ≤ searchWindow k :=
  Int.mul_nonneg (by decide) (Int.pow_nonneg (by decide))

lemma reachesFirst_last (first : ℤ) : CompiledSchedule.reachesFirst now first (searchWindow 7) = true := by
  rw [CompiledSchedule.reachesFirst, Bool.or_eq_true]
  exact .inr (by decide)

lemma windowStart_mem {first window : ℤ} (hw : 0 ≤ window) (hlt : first < now) :
    first ≤ CompiledSchedule.windowStart now first window ∧
      CompiledSchedule.windowStart now first window ≤ now := by
  cases hr : CompiledSchedule.reachesFirst now first window with
  | true =>
    rw [windowStart_first hr]
    omega
  | false =>
    have := first_lt_windowStart hlt hr
    refine ⟨this.le, ?_⟩
    rw [CompiledSchedule.windowStart, hr]
    simp only [Bool.false_eq_true, if_false]
    omega

lemma latestLoop_crowded (hc : c.cron.Advances) (h : ¬ Fits c anchor last now first k) :
    c.latestLoop .background anchor last now first (n + 1) (searchWindow k) =
      .error (.crowded c.raw (searchWindow k)) := by
  simp only [Fits] at h
  push Not at h
  obtain ⟨x, hx, hle⟩ := h
  rw [CompiledSchedule.latestLoop, scanWindow_crowded hc hx hle]

lemma latestLoop_quiet (hc : c.cron.Advances) (hs : Succeeds c anchor last) (hb : last.getD anchor ≤ first)
    (hlt : first < now) (h : Quiet c anchor last now first k) :
    c.latestLoop .background anchor last now first (n + 1) (searchWindow k) =
      c.latestLoop .background anchor last now first n (wrap (searchWindow k * 8)) := by
  have hlow := (windowStart_mem (searchWindow_nonneg k) hlt).1
  have hscan := (scanWindow_none_iff hc hs (searchWindow k) 99999 (hb.trans hlow)).mpr h.2
  rw [CompiledSchedule.latestLoop, h.1]
  simp only [Bool.false_eq_true, if_false]
  rw [show maxCatchUpWindow = 99999 + 1 from rfl, hscan]

lemma latestLoop_found (hc : c.cron.Advances) (hs : Succeeds c anchor last)
    (hb : last.getD anchor ≤ first) (hlt : first < now) (hf : Fits c anchor last now first k)
    (hq : ¬ Quiet c anchor last now first k) :
    ∃ x, c.latestLoop .background anchor last now first (n + 1) (searchWindow k) = .ok x := by
  obtain ⟨hlow, hhigh⟩ := windowStart_mem (searchWindow_nonneg k) hlt
  rw [CompiledSchedule.latestLoop]
  cases hr : CompiledSchedule.reachesFirst now first (searchWindow k) with
  | true =>
    obtain ⟨r, hscan⟩ := (scanWindow_ok_iff hc hs (searchWindow k) _ (some first) (hb.trans hlow) hhigh).mpr hf
    simp only [if_true, hscan]
    rcases scanWindow_value hscan hc with rfl | ⟨_, _, rfl, _⟩ <;> exact ⟨_, rfl⟩
  | false =>
    obtain ⟨r, hscan⟩ := (scanWindow_ok_iff hc hs (searchWindow k) _ none (hb.trans hlow) hhigh).mpr hf
    cases r with
    | none => exact (hq ⟨hr, (scanWindow_none_iff hc hs (searchWindow k) 99999 (hb.trans hlow)).mp hscan⟩).elim
    | some x =>
      simp only [Bool.false_eq_true, if_false, hscan]
      exact ⟨x, rfl⟩

lemma Quiet.fits (hc : c.cron.Advances) {k : ℕ} (h : Quiet c anchor last now first k) :
    Fits c anchor last now first k := by
  intro x hx
  rw [show maxCatchUpWindow = 99999 + 1 from rfl, CompiledSchedule.nthFire] at hx
  cases hn : c.nextFireDistinct (CompiledSchedule.windowStart now first (searchWindow k)) anchor last with
  | error e => simp [hn] at hx
  | ok next =>
    simp only [hn] at hx
    have := h.2 next hn
    have := le_nthFire hc hx
    omega

lemma not_quiet_last (first : ℤ) : ¬ Quiet c anchor last now first 7 := by
  rintro ⟨h, _⟩
  simp [reachesFirst_last] at h

lemma latestLoop_ok_iff (hc : c.cron.Advances) (hs : Succeeds c anchor last) (hk : k + n = 7)
    (hb : last.getD anchor ≤ first) (hlt : first < now) :
    (∃ x, c.latestLoop .background anchor last now first (n + 1) (searchWindow k) = .ok x) ↔
      ∀ m, k ≤ m → m < 8 → (∀ j, k ≤ j → j < m → Quiet c anchor last now first j) →
      Fits c anchor last now first m := by
  induction n generalizing k with
  | zero =>
    obtain rfl : k = 7 := by omega
    by_cases hf : Fits c anchor last now first 7
    · refine iff_of_true (latestLoop_found hc hs hb hlt hf (not_quiet_last first)) fun m hm hm' _ => ?_
      obtain rfl : m = 7 := by omega
      exact hf
    · rw [latestLoop_crowded hc hf]
      exact iff_of_false (by simp) fun h => hf (h 7 le_rfl (by omega) fun j _ _ => by omega)
  | succ n ih =>
    by_cases hq : Quiet c anchor last now first k
    · rw [latestLoop_quiet hc hs hb hlt hq, searchWindow_succ k (by omega), ih (by omega)]
      constructor
      · intro h m hm hm' hall
        rcases hm.lt_or_eq with hlt' | rfl
        · exact h m hlt' hm' fun j hj => hall j (by omega)
        · exact hq.fits hc
      · intro h m hm hm' hall
        refine h m (by omega) hm' fun j hj hjm => ?_
        rcases hj.lt_or_eq with hlt' | rfl
        · exact hall j hlt' hjm
        · exact hq
    · by_cases hf : Fits c anchor last now first k
      · refine iff_of_true (latestLoop_found hc hs hb hlt hf hq) fun m hm _ hall => ?_
        rcases hm.lt_or_eq with hlt' | rfl
        · exact (hq (hall k le_rfl hlt')).elim
        · exact hf
      · rw [latestLoop_crowded hc hf]
        exact iff_of_false (by simp) fun h => hf (h k le_rfl (by omega) fun j _ _ => by omega)

lemma countLoop_ok (hc : c.cron.Advances) (hs : Succeeds c anchor last) {latest cursor : ℤ} {left count : ℕ}
    (hb : last.getD anchor ≤ cursor) :
    ∃ p, c.countLoop .background anchor last now latest left count cursor = .ok p := by
  induction left generalizing count cursor with
  | zero => exact ⟨_, rfl⟩
  | succ left ih =>
    simp only [CompiledSchedule.countLoop, CatchUpContext.background, Bool.false_eq_true, and_false, if_false]
    split_ifs
    · exact ⟨_, rfl⟩
    · exact ⟨_, rfl⟩
    · obtain ⟨next, hn⟩ := hs cursor hb
      have := lt_nextFireDistinct hc hn
      simp only [hn]
      exact ih (by omega)

lemma overdueCron_ok (hc : c.cron.Advances) (hs : Succeeds c anchor last) {first latest : ℤ}
    (hb : last.getD anchor ≤ first) (h : c.latestFire .background anchor last now first = .ok latest)
    (wantCount : Bool) :
    ∃ o, c.overdueCron .background anchor last now first wantCount = .ok o ∧ o.latest = latest := by
  simp only [CompiledSchedule.overdueCron]
  rw [h]
  dsimp only
  split_ifs
  · exact ⟨_, rfl, rfl⟩
  · exact ⟨_, rfl, rfl⟩
  · obtain ⟨p, hp⟩ : ∃ p, c.countLoop .background anchor last now latest maxCatchUpCount 0 first = .ok p :=
      countLoop_ok hc hs hb
    rw [hp]
    exact ⟨_, rfl, rfl⟩

end

theorem latestFire_returns_iff {c : CompiledSchedule} {anchor first now : ℤ} {last : Option ℤ}
    (hi : c.interval = 0) (hc : c.cron.Advances) (hs : Succeeds c anchor last)
    (hf : c.nextFireDistinct (last.getD anchor) anchor last = .ok first) (hlt : first < now) :
    (∃ latest, c.latestFire .background anchor last now first = .ok latest ∧
      (∀ O, Enumerates c anchor last O → IsGreatest (O ∩ Set.Ioc (last.getD anchor) now) latest) ∧
      ∀ wantCount, ∃ o, c.overdue .background anchor last now wantCount = .ok o ∧ o.latest = latest) ↔
    WindowsFit c anchor last now first := by
  have hb := (lt_nextFireDistinct hc hf).le
  have hloop := latestLoop_ok_iff (n := 7) (k := 0) hc hs rfl hb hlt
  have hstart : searchWindow 0 = hour := by decide
  rw [hstart] at hloop
  constructor
  · rintro ⟨latest, hl, _⟩ m hm hall
    exact hloop.mp ⟨latest, hl⟩ m (Nat.zero_le m) hm fun j _ hj => hall j hj
  · intro h
    obtain ⟨latest, hl⟩ := hloop.mpr fun m _ hm hall => h m hm fun j hj => hall j (Nat.zero_le j) hj
    refine ⟨latest, hl, fun O hO => latestLoop_greatest hO (hO.next _ _ le_rfl hf) hlt hl, fun wantCount => ?_⟩
    obtain ⟨o, ho, hlatest⟩ := overdueCron_ok hc hs hb hl wantCount
    refine ⟨o, ?_, hlatest⟩
    simp only [CompiledSchedule.overdue, hf, if_neg (not_le.mpr hlt), hi, lt_irrefl, if_false]
    exact ho

def firstQuarter : CronSpec :=
  ⟨2 ^ 63 + (2 ^ 60 - 1), 2 ^ 63 + (2 ^ 24 - 1), 2 ^ 63 + (2 ^ 32 - 2), 2 + 2 ^ 2 + 2 ^ 3, 2 ^ 63 + 127⟩

noncomputable def firstQuarterUtc : CompiledSchedule := ⟨"* * * 1-3 *", 0, Zone.utc, firstQuarter.schedule⟩

lemma firstQuarter_matchesAt {w : ℤ} (hm : firstQuarter.month.testBit (monthOf (dayNumber w)).toNat = true)
    (hd : firstQuarter.dom.testBit (dayOf (dayNumber w)).toNat = true) : firstQuarter.matchesAt w = true := by
  have hhour : ∀ k < 24, firstQuarter.hour.testBit k = true := by decide
  have hminute : ∀ k < 60, firstQuarter.minute.testBit k = true := by decide
  have hdow : ∀ k < 7, firstQuarter.dow.testBit k = true := by decide
  have h1 : (minuteOfDay w / 60).toNat < 24 := by simp only [minuteOfDay]; omega
  have h2 : (minuteOfDay w % 60).toNat < 60 := by simp only [minuteOfDay]; omega
  have h3 : ((dayNumber w + 4) % 7).toNat < 7 := by omega
  simp only [CronSpec.matchesAt, CronSpec.dayMatches, civil, hm, hd, hhour _ h1, hminute _ h2, hdow _ h3,
    Bool.or_true, Bool.and_true, ite_self]

lemma firstQuarter_of_day {w : ℤ} (hl : 20454 ≤ dayNumber w) (hu : dayNumber w < 20544) :
    firstQuarter.matchesAt w = true := by
  have hdays : ∀ k < 90, firstQuarter.month.testBit (monthOf (20454 + (k : ℕ))).toNat = true ∧
      firstQuarter.dom.testBit (dayOf (20454 + (k : ℕ))).toNat = true := by decide +kernel
  have h := hdays (dayNumber w - 20454).toNat (by omega)
  rw [show 20454 + ((dayNumber w - 20454).toNat : ℤ) = dayNumber w by omega] at h
  exact firstQuarter_matchesAt h.1 h.2

lemma not_firstQuarter_of_day {w : ℤ} (hl : 20546 ≤ dayNumber w) (hu : dayNumber w ≤ 20568) :
    firstQuarter.matchesAt w = false := by
  have hdays : ∀ k < 23, firstQuarter.month.testBit (monthOf (20546 + (k : ℕ))).toNat = false := by decide +kernel
  have h := hdays (dayNumber w - 20546).toNat (by omega)
  rw [show 20546 + ((dayNumber w - 20546).toNat : ℤ) = dayNumber w by omega] at h
  simp only [CronSpec.matchesAt, civil, h, Bool.false_and]

lemma firstQuarterUtc_next {anchor t x : ℤ} :
    firstQuarterUtc.nextFireDistinct t anchor none = .ok x ↔
      LeastAfter {u | firstQuarter.Matching Zone.utc u} t x := by
  rw [← CronSpec.schedule_implements firstQuarter Zone.utc t x, CompiledSchedule.nextFireDistinct,
    CompiledSchedule.nextFire, if_neg (show ¬ 0 < firstQuarterUtc.interval from lt_irrefl 0),
    nextCron_fixed (show firstQuarterUtc.loc = Zone.fixed 0 from rfl)]
  change _ ↔ firstQuarterUtc.cron.next firstQuarterUtc.loc t = some x
  cases firstQuarterUtc.cron.next firstQuarterUtc.loc t <;> simp

lemma firstQuarterUtc_succeeds (anchor : ℤ) : Succeeds firstQuarterUtc anchor none := by
  intro t _
  let day : ℤ := 20454 + 146097 * (t.toNat + 1)
  have hday : dayNumber (day * (24 * hour)) = day := Int.mul_ediv_cancel _ (by decide)
  have hera : dayOfEra day = dayOfEra 20454 := by
    simp only [dayOfEra, day]
    omega
  have hmatch : firstQuarter.Matching Zone.utc (day * (24 * hour)) := by
    rw [CronSpec.Matching, Zone.wall_utc]
    refine ⟨⟨day * 1440, by simp only [hour, minute]; omega⟩, ?_⟩
    apply firstQuarter_matchesAt <;> rw [hday]
    · rw [monthOf, hera]
      decide +kernel
    · rw [dayOf, hera]
      decide +kernel
  obtain ⟨x, hx, _⟩ := LeastAfter.exists_of_mem (S := {u | firstQuarter.Matching Zone.utc u}) hmatch
    (show t < day * (24 * hour) by
      simp only [day]
      simp only [hour]
      omega)
  exact ⟨x, firstQuarterUtc_next.mpr hx⟩

lemma firstQuarterUtc_minute {anchor a : ℤ} (hl : 20454 * 1440 ≤ a + 1) (hu : a + 1 < 20544 * 1440) :
    firstQuarterUtc.nextFireDistinct (a * minute) anchor none = .ok ((a + 1) * minute) := by
  have hmatch : firstQuarter.matchesAt (Zone.utc.wall ((a + 1 + (0 : ℕ)) * minute)) = true := by
    apply firstQuarter_of_day <;> rw [Zone.wall_utc] <;> simp only [dayNumber, hour, minute] <;> omega
  have hnext := (CronSpec.schedule_implements firstQuarter).next_eq Zone.utc_wholeMinutes (t := a * minute)
    (by simp only [minute]; omega) (by simp only [minute]; omega) (by simp) hmatch
  rw [firstQuarterUtc_next, ← CronSpec.schedule_implements, hnext]
  simp

lemma firstQuarterUtc_nthFire {anchor a : ℤ} {n : ℕ} (hl : 20454 * 1440 ≤ a) (hu : a + n < 20544 * 1440) :
    firstQuarterUtc.nthFire anchor none n (a * minute) = .ok ((a + n) * minute) := by
  induction n generalizing a with
  | zero => simp [CompiledSchedule.nthFire]
  | succ n ih =>
    have hnext : firstQuarterUtc.nextFireDistinct (a * minute) anchor none = .ok ((a + 1) * minute) :=
      firstQuarterUtc_minute (by omega) (by omega)
    simp only [CompiledSchedule.nthFire, hnext]
    rw [ih (by omega) (by omega)]
    congr 2
    omega

lemma firstQuarterUtc_quiet {anchor first : ℤ} {k : ℕ}
    (hreach : CompiledSchedule.reachesFirst (29617920 * minute) first (searchWindow k) = false)
    (hstart : 20546 * (24 * hour) ≤ CompiledSchedule.windowStart (29617920 * minute) first (searchWindow k)) :
    Quiet firstQuarterUtc anchor none (29617920 * minute) first k := by
  refine ⟨hreach, fun x hx => ?_⟩
  have hleast := firstQuarterUtc_next.mp hx
  by_contra hle
  have hlt := hleast.lt
  have hmatch : firstQuarter.matchesAt (Zone.utc.wall x) = true := hleast.mem.2
  rw [Zone.wall_utc, not_firstQuarter_of_day] at hmatch
  · simp at hmatch
  · simp only [dayNumber, hour] at *
    omega
  · simp only [dayNumber, hour]
    simp only [minute] at hle
    omega

lemma firstQuarterUtc_le_nthFire {anchor t x : ℤ} {n : ℕ} (ht : minute ∣ t)
    (h : firstQuarterUtc.nthFire anchor none n t = .ok x) : t + n * minute ≤ x := by
  induction n generalizing t with
  | zero =>
    rw [CompiledSchedule.nthFire, Except.ok.injEq] at h
    omega
  | succ n ih =>
    rw [CompiledSchedule.nthFire] at h
    cases hn : firstQuarterUtc.nextFireDistinct t anchor none with
    | error e => simp [hn] at h
    | ok next =>
      have hleast := firstQuarterUtc_next.mp hn
      have hdvd : minute ∣ Zone.utc.wall next := hleast.mem.1
      rw [Zone.wall_utc] at hdvd
      have hlater := ih hdvd (by simpa [hn] using h)
      have hlt := hleast.lt
      simp only [minute] at *
      omega

/-- The daemon was down from ten minutes before the end of March to April 25: the first four windows are empty. -/
theorem latestFire_returns_after_outage :
    ∃ latest, firstQuarterUtc.latestFire .background (29583349 * minute) none (29617920 * minute)
        (29583350 * minute) = .ok latest ∧
      (∀ O, Enumerates firstQuarterUtc (29583349 * minute) none O →
        IsGreatest (O ∩ Set.Ioc (29583349 * minute) (29617920 * minute)) latest) ∧
      ∀ wantCount, ∃ o, firstQuarterUtc.overdue .background (29583349 * minute) none (29617920 * minute)
        wantCount = .ok o ∧ o.latest = latest := by
  have hadv := (CronSpec.schedule_implements firstQuarter).advances
  have hfirst : firstQuarterUtc.nextFireDistinct (29583349 * minute) (29583349 * minute) none =
      .ok (29583350 * minute) := firstQuarterUtc_minute (by omega) (by omega)
  refine (latestFire_returns_iff rfl hadv (firstQuarterUtc_succeeds _) hfirst (by decide)).mpr fun k hk _ => ?_
  have hempty : ∀ k < 4,
      CompiledSchedule.reachesFirst (29617920 * minute) (29583350 * minute) (searchWindow k) = false ∧
      20546 * (24 * hour) ≤
        CompiledSchedule.windowStart (29617920 * minute) (29583350 * minute) (searchWindow k) := by
    decide
  have hwhole : ∀ k < 8, 4 ≤ k →
      CompiledSchedule.windowStart (29617920 * minute) (29583350 * minute)
        (searchWindow k) = 29583350 * minute := by
    decide
  by_cases hlow : k < 4
  · exact (firstQuarterUtc_quiet (hempty k hlow).1 (hempty k hlow).2).fits hadv
  · intro x hx
    rw [hwhole k hk (by omega)] at hx
    have := firstQuarterUtc_le_nthFire (Dvd.intro_left _ rfl) hx
    simp only [maxCatchUpWindow] at this
    simp only [minute] at *
    omega

/-- The first months of 2026 are missed while the daemon is down until April 25: the window that reaches back to
them holds more than 100000 occurrences. -/
theorem latestFire_gives_up :
    firstQuarter.schedule.Implements firstQuarter ∧
      Succeeds firstQuarterUtc (29453759 * minute) none ∧
      firstQuarterUtc.nextFireDistinct (29453759 * minute) (29453759 * minute) none = .ok (29453760 * minute) ∧
      firstQuarterUtc.latestFire .background (29453759 * minute) none (29617920 * minute) (29453760 * minute) =
        .error (.crowded "* * * 1-3 *" (4096 * hour)) ∧
      firstQuarterUtc.overdue .background (29453759 * minute) none (29617920 * minute) true =
        .error (.crowded "* * * 1-3 *" (4096 * hour)) := by
  have hadv := (CronSpec.schedule_implements firstQuarter).advances
  have hs := firstQuarterUtc_succeeds (29453759 * minute)
  have hfirst : firstQuarterUtc.nextFireDistinct (29453759 * minute) (29453759 * minute) none =
      .ok (29453760 * minute) := firstQuarterUtc_minute (by omega) (by omega)
  have hcrowded : ¬ Fits firstQuarterUtc (29453759 * minute) none (29617920 * minute) (29453760 * minute) 4 := by
    intro h
    have hstart : CompiledSchedule.windowStart (29617920 * minute) (29453760 * minute) (searchWindow 4) =
        29453760 * minute := windowStart_first (by decide)
    have := h (29553760 * minute) (by rw [hstart]; exact firstQuarterUtc_nthFire (by omega) (by decide))
    revert this
    decide
  have hlatest : firstQuarterUtc.latestFire .background (29453759 * minute) none (29617920 * minute)
      (29453760 * minute) = .error (.crowded "* * * 1-3 *" (4096 * hour)) := by
    have hempty : ∀ k < 4,
        CompiledSchedule.reachesFirst (29617920 * minute) (29453760 * minute) (searchWindow k) = false ∧
        20546 * (24 * hour) ≤
          CompiledSchedule.windowStart (29617920 * minute) (29453760 * minute) (searchWindow k) := by
      decide
    have hquiet (k : ℕ) (hk : k < 4) (n : ℕ) := latestLoop_quiet (n := n) hadv hs (by decide) (by decide)
      (firstQuarterUtc_quiet (hempty k hk).1 (hempty k hk).2)
    rw [CompiledSchedule.latestFire, show hour = searchWindow 0 from rfl, hquiet 0 (by omega),
      searchWindow_succ 0 (by omega), hquiet 1 (by omega), searchWindow_succ 1 (by omega), hquiet 2 (by omega),
      searchWindow_succ 2 (by omega), hquiet 3 (by omega), searchWindow_succ 3 (by omega),
        latestLoop_crowded hadv hcrowded]
    rfl
  refine ⟨CronSpec.schedule_implements _, hs, hfirst, hlatest, ?_⟩
  simp only [CompiledSchedule.overdue, Option.getD_none, hfirst]
  rw [if_neg (by decide), if_neg (show ¬ 0 < firstQuarterUtc.interval from lt_irrefl 0),
    CompiledSchedule.overdueCron, hlatest]

end Minicrond.Scheduler
