import Minicrond.Scheduler.Schedule

/-! The next fire comes strictly after its argument, whatever the zone does in between. -/

namespace Minicrond.Scheduler

open Minicrond.Library Minicrond.Time

variable {c : CompiledSchedule} {after anchor x y : ℤ} {last : Option ℤ}

lemma periods_of_range (hi : 0 < c.interval) (hle : anchor ≤ after)
    (hrange : sub after anchor / c.interval < maxInt64 / c.interval) :
    sub after anchor = after - anchor ∧ 0 ≤ sub after anchor / c.interval ∧
      (sub after anchor / c.interval + 1) * c.interval ≤ maxInt64 := by
  refine ⟨?_, Int.ediv_nonneg (sub_nonneg hle) hi.le, ?_⟩
  · apply sub_eq hle
    by_contra hfar
    have hmax : sub after anchor = maxInt64 := by
      simp only [sub, minInt64, maxInt64] at *
      omega
    rw [hmax] at hrange
    exact hrange.false
  · have hquot : sub after anchor / c.interval + 1 ≤ maxInt64 / c.interval := hrange
    exact (Int.mul_le_mul_of_nonneg_right hquot hi.le).trans (Int.ediv_mul_le _ hi.ne')

lemma nextEvery_of_range (hi : 0 < c.interval) (hle : anchor ≤ after)
    (hrange : sub after anchor / c.interval < maxInt64 / c.interval) :
    c.nextEvery after anchor = .ok (anchor + ((after - anchor) / c.interval + 1) * c.interval) := by
  obtain ⟨hexact, hpos, hmul⟩ := periods_of_range hi hle hrange
  have hlow : 0 ≤ (sub after anchor / c.interval + 1) * c.interval := Int.mul_nonneg (by omega) hi.le
  have hwrap : wrap ((sub after anchor / c.interval + 1) * c.interval) =
      ((after - anchor) / c.interval + 1) * c.interval := by
    rw [wrap_eq (by simp only [minInt64]; omega) hmul, hexact]
  have hadvance := (grid_least hi hle).lt
  simp only [CompiledSchedule.nextEvery, hwrap]
  rw [if_neg (by omega), if_neg (by omega), if_pos hadvance]

lemma nextEvery_least (hi : 0 < c.interval) (h : c.nextEvery after anchor = .ok x) :
    LeastAfter (grid anchor c.interval) after x := by
  by_cases hbefore : after < anchor
  · rw [CompiledSchedule.nextEvery, if_pos hbefore, Except.ok.injEq] at h
    exact h ▸ grid_least_before hi hbefore
  · by_cases hrange : sub after anchor / c.interval < maxInt64 / c.interval
    · rw [nextEvery_of_range hi (by omega) hrange, Except.ok.injEq] at h
      exact h ▸ grid_least hi (by omega)
    · rw [CompiledSchedule.nextEvery, if_neg hbefore, if_pos (by omega)] at h
      cases h

lemma nextEvery_eq (hi : 0 < c.interval) (hmax : c.interval ≤ maxInt64)
    (h : LeastAfter (grid anchor c.interval) after x) :
    c.nextEvery after anchor = if x - anchor ≤ maxInt64 then .ok x else .error (.intervalRange c.raw) := by
  by_cases hbefore : after < anchor
  · obtain rfl := h.unique (grid_least_before hi hbefore)
    rw [CompiledSchedule.nextEvery, if_pos hbefore, if_pos (by omega)]
  · have hle : anchor ≤ after := by omega
    obtain rfl := h.unique (grid_least hi hle)
    by_cases hrange : sub after anchor / c.interval < maxInt64 / c.interval
    · obtain ⟨hexact, _, hmul⟩ := periods_of_range hi hle hrange
      rw [hexact] at hmul
      rw [nextEvery_of_range hi hle hrange, if_pos (by omega)]
    · -- The saturated distance is at most the true one, so the true quotient is out of range too.
      have hquot : maxInt64 / c.interval ≤ (after - anchor) / c.interval :=
        (not_lt.mp hrange).trans (Int.ediv_le_ediv hi (sub_le hle))
      have hfar : maxInt64 < ((after - anchor) / c.interval + 1) * c.interval :=
        (Int.lt_ediv_add_one_mul_self maxInt64 hi).trans_le (Int.mul_le_mul_of_nonneg_right (by omega) hi.le)
      rw [CompiledSchedule.nextEvery, if_neg hbefore, if_pos (not_lt.mp hrange), if_neg (by omega)]

/-- An `@every` schedule fires at the least later multiple of the interval after the anchor, unless that is no
64-bit duration after the anchor, and none of its sums and products overflows. -/
theorem nextFire_every_least {c : CompiledSchedule} (hi : 1 ≤ c.interval) (hmax : c.interval ≤ maxInt64)
    (after anchor : ℤ) :
    ∃ x, LeastAfter (grid anchor c.interval) after x ∧
      c.nextFire after anchor = (if x - anchor ≤ maxInt64 then .ok x else .error (.intervalRange c.raw)) ∧
      (anchor ≤ after → sub after anchor / c.interval < maxInt64 / c.interval →
        ∀ v ∈ [sub after anchor / c.interval + 1, (sub after anchor / c.interval + 1) * c.interval],
          minInt64 ≤ v ∧ v ≤ maxInt64) := by
  have hleast : ∃ x, LeastAfter (grid anchor c.interval) after x := by
    rcases lt_or_ge after anchor with hbefore | hle
    · exact ⟨_, grid_least_before hi hbefore⟩
    · exact ⟨_, grid_least hi hle⟩
  obtain ⟨x, hx⟩ := hleast
  refine ⟨x, hx, ?_, fun hle hrange => ?_⟩
  · rw [CompiledSchedule.nextFire, if_pos (by omega)]
    exact nextEvery_eq hi hmax hx
  · obtain ⟨_, hpos, hmul⟩ := periods_of_range hi hle hrange
    have hsum : sub after anchor / c.interval + 1 ≤ (sub after anchor / c.interval + 1) * c.interval :=
      le_mul_of_one_le_right (by omega) hi
    simp only [List.forall_mem_cons, List.not_mem_nil, false_implies, implies_true, and_true, minInt64]
    omega

theorem nextFire_every_least_last_duration :
    ∃ c : CompiledSchedule, c.interval = 1 ∧ c.nextFire (maxInt64 - 1) 0 = .ok maxInt64 ∧
      (∃ x, LeastAfter (grid 0 1) (maxInt64 - 1) x ∧
        c.nextFire (maxInt64 - 1) 0 = (if x - 0 ≤ maxInt64 then .ok x else .error (.intervalRange c.raw))) ∧
      c.nextFire maxInt64 0 = .error (.intervalRange c.raw) := by
  refine ⟨⟨"@every 1ns", 1, Zone.utc, CronSpec.schedule ⟨1, 1, 2, 2, 2 ^ 63 + 127⟩⟩, rfl, rfl, ?_, rfl⟩
  obtain ⟨x, hx, heq, _⟩ := nextFire_every_least
    (c := ⟨"@every 1ns", 1, Zone.utc, CronSpec.schedule ⟨1, 1, 2, 2, 2 ^ 63 + 127⟩⟩) le_rfl (by decide)
      (maxInt64 - 1) 0
  exact ⟨x, hx, heq⟩

lemma second_dvd_foldEnd {Z : Zone} {t e : ℤ} (h : secondFoldEnd Z t = some e) : second ∣ e := by
  obtain ⟨b, hb, rfl, _⟩ := secondFoldEnd_eq_some.mp h
  have hmem := StepFunction.start_mem hb
  exact Int.dvd_add (Z.second_dvd_break b hmem) (Zone.second_dvd_drop hmem)

lemma lt_next_foldEnd (hc : c.cron.Advances) {Z : Zone} {t e : ℤ} (hf : secondFoldEnd Z t = some e)
    (hn : c.cron.next Z (e - second) = some x) : t < x := by
  obtain ⟨i, hi⟩ := second_dvd_foldEnd hf
  obtain ⟨_, _, _, ht⟩ := secondFoldEnd_eq_some.mp hf
  obtain ⟨hlt, j, hj⟩ := hc _ _ _ hn
  simp only [second] at *
  omega

lemma skipFolds_le (hc : c.cron.Advances) {n : ℕ} (h : c.skipFolds n x = .ok y) : x ≤ y := by
  induction n generalizing x with
  | zero =>
    rw [CompiledSchedule.skipFolds, Except.ok.injEq] at h
    exact h.le
  | succ n ih =>
    rw [CompiledSchedule.skipFolds] at h
    cases hf : secondFoldEnd c.loc x with
    | none =>
      simp only [hf, Except.ok.injEq] at h
      exact h.le
    | some e =>
      simp only [hf] at h
      cases hn : c.cron.next c.loc (e - second) with
      | none => simp [hn] at h
      | some z =>
        simp only [hn] at h
        exact (lt_next_foldEnd hc hf hn).le.trans (ih h)

lemma coalesceGap_eq (c : CompiledSchedule) (after x : ℤ) :
    c.coalesceGap after x = x ∨ c.loc.FirstForward after (c.coalesceGap after x) := by
  simp only [CompiledSchedule.coalesceGap]
  have hspec := forwardTransition_spec c.loc after x
  cases ht : forwardTransition c.loc after x with
  | none => exact .inl rfl
  | some p =>
    rw [ht] at hspec
    dsimp only
    split_ifs
    · exact .inr hspec.1
    · exact .inl rfl

lemma lt_coalesceGap (h : after < x) : after < c.coalesceGap after x := by
  rcases coalesceGap_eq c after x with he | he
  · rwa [he]
  · exact he.lt

lemma coalesceGap_clear (h : ∀ e, c.loc.Forward e → after < e → x < e) : c.coalesceGap after x = x := by
  simp only [CompiledSchedule.coalesceGap]
  have hspec := forwardTransition_spec c.loc after x
  cases ht : forwardTransition c.loc after x with
  | none => rfl
  | some p =>
    rw [ht] at hspec
    have := h _ hspec.1.mem hspec.1.lt
    have := hspec.2.1
    omega

lemma lt_next_searchFrom (hc : c.cron.Advances) (h : c.cron.next c.loc (c.searchFrom after) = some x) :
    after < x := by
  simp only [CompiledSchedule.searchFrom] at h
  cases hf : secondFoldEnd c.loc after with
  | none =>
    simp only [hf] at h
    exact (hc _ _ _ h).1
  | some e =>
    simp only [hf] at h
    exact lt_next_foldEnd hc hf h

lemma lt_nextCron (hc : c.cron.Advances) (h : c.nextCron after = .ok x) : after < x := by
  simp only [CompiledSchedule.nextCron] at h
  cases hn : c.cron.next c.loc (c.searchFrom after) with
  | none => simp [hn] at h
  | some y =>
    cases hs : c.skipFolds 4 y with
    | error e => simp [hn, hs] at h
    | ok z =>
      simp only [hn, hs, Except.ok.injEq] at h
      have := lt_next_searchFrom hc hn
      have := skipFolds_le hc hs
      exact h ▸ lt_coalesceGap (by omega)

lemma nextCron_fixed {seconds : ℤ} (hl : c.loc = Zone.fixed seconds) :
    c.nextCron after =
      match c.cron.next c.loc after with
      | none => .error (.noFuture c.raw)
      | some x => .ok x := by
  have hfold (t : ℤ) : secondFoldEnd c.loc t = none := by
    rw [hl]
    rfl
  have hgap (x : ℤ) : c.coalesceGap after x = x :=
    coalesceGap_clear fun e he => (Zone.notMem_fixed seconds e (hl ▸ he.1)).elim
  have hskip (x : ℤ) : c.skipFolds 4 x = .ok x := by
    rw [CompiledSchedule.skipFolds, hfold]
  rw [CompiledSchedule.nextCron, CompiledSchedule.searchFrom, hfold]
  dsimp only
  cases c.cron.next c.loc after with
  | none => rfl
  | some x => simp only [hskip, hgap]

lemma lt_nextFire (hc : c.cron.Advances) (h : c.nextFire after anchor = .ok x) : after < x := by
  simp only [CompiledSchedule.nextFire] at h
  split_ifs at h with hi
  · exact (nextEvery_least hi h).lt
  · exact lt_nextCron hc h

lemma nextFireDistinct_eq (h : c.nextFireDistinct after anchor last = .ok x) :
    c.nextFire after anchor = .ok x ∨
      (c.interval ≤ 0 ∧ ∃ y, c.nextFire after anchor = .ok y ∧ c.nextFire y anchor = .ok x) := by
  simp only [CompiledSchedule.nextFireDistinct] at h
  cases hn : c.nextFire after anchor with
  | error e => simp [hn] at h
  | ok y =>
    simp only [hn] at h
    cases last with
    | none => exact .inl h
    | some l =>
      dsimp only at h
      split_ifs at h with hi hsame
      · exact .inl h
      · exact .inr ⟨by omega, y, rfl, h⟩
      · exact .inl h

lemma lt_nextFireDistinct (hc : c.cron.Advances)
    (h : c.nextFireDistinct after anchor last = .ok x) : after < x := by
  rcases nextFireDistinct_eq h with h | ⟨_, y, hy, hx⟩
  · exact lt_nextFire hc h
  · exact (lt_nextFire hc hy).trans (lt_nextFire hc hx)

lemma nextFireDistinct_grid (hi : 0 < c.interval)
    (h : c.nextFireDistinct after anchor last = .ok x) : LeastAfter (grid anchor c.interval) after x := by
  rcases nextFireDistinct_eq h with h | ⟨hle, _⟩
  · rw [CompiledSchedule.nextFire, if_pos hi] at h
    exact nextEvery_least hi h
  · omega

def Fires (c : CompiledSchedule) (anchor x : ℤ) : Prop :=
  if 0 < c.interval then x ∈ grid anchor c.interval else ∃ t, c.nextFire t anchor = .ok x

section CatchUp

variable {ctx : CatchUpContext} {now : ℤ} {last : Option ℤ} {first window : ℤ}

lemma windowStart_first (h : CompiledSchedule.reachesFirst now first window = true) :
    CompiledSchedule.windowStart now first window = first := by
  rw [CompiledSchedule.windowStart, if_pos h]

lemma first_lt_windowStart (hlt : first < now)
    (h : CompiledSchedule.reachesFirst now first window = false) :
    first < CompiledSchedule.windowStart now first window := by
  have hsub := sub_le hlt.le
  rw [CompiledSchedule.windowStart, h]
  simp only [CompiledSchedule.reachesFirst] at h
  simp only [Bool.or_eq_false_iff, decide_eq_false_iff_not] at h
  simp only [Bool.false_eq_true, if_false]
  omega

lemma fires_nextFireDistinct {t : ℤ} (h : c.nextFireDistinct t anchor last = .ok x) : Fires c anchor x := by
  rw [Fires]
  split_ifs with hi
  · exact (nextFireDistinct_grid hi h).mem
  · rcases nextFireDistinct_eq h with hn | ⟨_, y, _, hn⟩
    · exact ⟨t, hn⟩
    · exact ⟨y, hn⟩

lemma scanWindow_value {window cursor : ℤ} {left : ℕ} {best r : Option ℤ}
    (h : c.scanWindow ctx anchor last now window left cursor best = .ok r) (hc : c.cron.Advances) :
    r = best ∨ ∃ t x, r = some x ∧ cursor ≤ t ∧ x ≤ now ∧ c.nextFireDistinct t anchor last = .ok x := by
  induction left generalizing cursor best with
  | zero => simp [CompiledSchedule.scanWindow] at h
  | succ left ih =>
    simp only [CompiledSchedule.scanWindow] at h
    split_ifs at h
    cases hn : c.nextFireDistinct cursor anchor last with
    | error e => simp [hn] at h
    | ok next =>
      simp only [hn] at h
      split_ifs at h
      · exact .inl (Except.ok.inj h).symm
      · have hlt := lt_nextFireDistinct hc hn
        rcases ih h with rfl | ⟨t, x, hr, ht, hle, hx⟩
        · exact .inr ⟨cursor, next, rfl, le_rfl, by omega, hn⟩
        · exact .inr ⟨t, x, hr, hlt.le.trans ht, hle, hx⟩

lemma latestLoop_value (hc : c.cron.Advances) {fuel : ℕ} (hlt : first < now)
    (h : c.latestLoop ctx anchor last now first fuel window = .ok x) :
    x = first ∨ ∃ t, first ≤ t ∧ x ≤ now ∧ c.nextFireDistinct t anchor last = .ok x := by
  induction fuel generalizing window with
  | zero => simp [CompiledSchedule.latestLoop] at h
  | succ fuel ih =>
    rw [CompiledSchedule.latestLoop] at h
    have hstart : first ≤ CompiledSchedule.windowStart now first window := by
      cases hr : CompiledSchedule.reachesFirst now first window with
      | true => exact (windowStart_first hr).ge
      | false => exact (first_lt_windowStart hlt hr).le
    cases hs : c.scanWindow ctx anchor last now window maxCatchUpWindow
        (CompiledSchedule.windowStart now first window)
        (if CompiledSchedule.reachesFirst now first window then some first else none) with
    | error e => simp [hs] at h
    | ok r =>
      rcases scanWindow_value hs hc with rfl | ⟨t, y, rfl, ht, hle, hy⟩
      · split_ifs at hs h with hr
        · simp only [hs, Except.ok.injEq] at h
          exact .inl h.symm
        · simp only [hs] at h
          exact ih h
      · simp only [hs, Except.ok.injEq] at h
        exact .inr ⟨t, hstart.trans ht, h ▸ hle, h ▸ hy⟩

lemma overdueEvery_latest (hi : 0 < c.interval) {first : ℤ} (hlt : first < now) :
    (c.overdueEvery now first).latest = first + sub now first / c.interval * c.interval := by
  have hlow : 0 ≤ sub now first / c.interval * c.interval :=
    Int.mul_nonneg (Int.ediv_nonneg (sub_nonneg hlt.le) hi.le) hi.le
  have hmax : sub now first / c.interval * c.interval ≤ maxInt64 :=
    (Int.ediv_mul_le _ hi.ne').trans (sub_le_max now first)
  simp only [CompiledSchedule.overdueEvery]
  rw [wrap_eq (by simp only [minInt64]; omega) hmax]

lemma le_overdueEvery_latest (hi : 0 < c.interval) {first : ℤ} (hlt : first < now) :
    first ≤ (c.overdueEvery now first).latest := by
  have := Int.mul_nonneg (Int.ediv_nonneg (sub_nonneg hlt.le) hi.le) hi.le
  rw [overdueEvery_latest hi hlt]
  omega

lemma overdueEvery_latest_mem (hi : 0 < c.interval) {first : ℤ} (hf : first ∈ grid anchor c.interval)
    (hlt : first < now) : (c.overdueEvery now first).latest ∈ grid anchor c.interval := by
  have hpos : 0 ≤ sub now first / c.interval := Int.ediv_nonneg (sub_nonneg hlt.le) hi.le
  rw [overdueEvery_latest hi hlt]
  obtain ⟨k, hk, rfl⟩ := hf
  refine ⟨k + sub now (anchor + k * c.interval) / c.interval, by omega, ?_⟩
  rw [Int.add_mul]
  omega

lemma overdue_value (hc : c.cron.Advances) {wantCount : Bool} {o : OverdueFires}
    (h : c.overdue ctx anchor last now wantCount = .ok o) (ho : o.count ≠ 0) :
    c.nextFireDistinct (last.getD anchor) anchor last = .ok o.first ∧ o.first ≤ o.latest ∧
      Fires c anchor o.latest := by
  rw [CompiledSchedule.overdue] at h
  cases hn : c.nextFireDistinct (last.getD anchor) anchor last with
  | error e => simp [hn] at h
  | ok first =>
    have hfires := fires_nextFireDistinct hn
    simp only [hn] at h
    split_ifs at h with hle hevery
    · rw [Except.ok.injEq] at h
      exact (ho (h ▸ rfl)).elim
    · rw [Except.ok.injEq] at h
      subst h
      have hlt : first < now := by omega
      have hmem := overdueEvery_latest_mem hevery (nextFireDistinct_grid hevery hn).mem hlt
      exact ⟨rfl, le_overdueEvery_latest hevery hlt, by rwa [Fires, if_pos hevery]⟩
    · rw [CompiledSchedule.overdueCron] at h
      cases hl : c.latestFire ctx anchor last now first with
      | error e => simp [hl] at h
      | ok latest =>
        have hlatest : first ≤ latest ∧ Fires c anchor latest := by
          rcases latestLoop_value hc (by omega) hl with rfl | ⟨t, ht, _, hx⟩
          · exact ⟨le_rfl, hfires⟩
          · have := lt_nextFireDistinct hc hx
            exact ⟨by omega, fires_nextFireDistinct hx⟩
        simp only [hl] at h
        split_ifs at h
        · rw [Except.ok.injEq] at h
          exact h ▸ ⟨rfl, hlatest⟩
        · rw [Except.ok.injEq] at h
          exact h ▸ ⟨rfl, hlatest⟩
        · cases hcount : c.countLoop ctx anchor last now latest maxCatchUpCount 0 first with
          | error e => simp [hcount] at h
          | ok p =>
            simp only [hcount, Except.ok.injEq] at h
            exact h ▸ ⟨rfl, hlatest⟩

end CatchUp

end Minicrond.Scheduler
