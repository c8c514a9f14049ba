import Mathlib.Data.List.Chain
import Minicrond.Scheduler.NextFire

/-! A cron schedule walked fire by fire: which wall clock minutes the fires show. -/

namespace Minicrond.Scheduler

open Minicrond.Library Minicrond.Time

def CrossesMinute (Z : Zone) (e : ℤ) : Prop := e + Z.prior e ≤ truncateMinute (e + Z.value e)

structure Settled (s : CronSpec) (Z : Zone) (after : ℤ) : Prop where
  uncrowded : ¬ s.Crowded Z after
  crosses : ∀ e, Z.FirstForward after e → CrossesMinute Z e

section

variable {c : CompiledSchedule} {s : CronSpec} {after u e : ℤ}

lemma regular_fresh (hz : c.loc.Separated) (h : s.Regular c.loc u) {t : ℤ} (ht : t < u) :
    c.loc.wall t / minute < c.loc.wall u / minute := by
  obtain ⟨hm, hr⟩ := (CronSpec.regular_iff hz).mp h
  have hlt : c.loc.wall t < c.loc.wall u := StepFunction.reading_lt hz hr ht
  obtain ⟨k, hk⟩ := hm.1
  simp only [minute] at *
  omega

lemma gap_fresh (hz : c.loc.Separated) (he : c.loc.Forward e) (hm : CrossesMinute c.loc e) {t : ℤ} (ht : t < e) :
    c.loc.wall t / minute < c.loc.wall e / minute := by
  have hlt : c.loc.wall t < e + c.loc.prior e := StepFunction.reading_lt_prior hz he.1 ht
  have hwall : c.loc.wall e = e + c.loc.value e := rfl
  simp only [CrossesMinute, truncateMinute] at hm
  simp only [minute] at *
  omega

lemma nextCron_fresh (hc : c.cron.Implements s) (hz : c.loc.Separated) (hs : Settled s c.loc after)
    (h : c.nextCron after = .ok u) : after < u ∧ ∀ t, t < u → c.loc.wall t / minute < c.loc.wall u / minute := by
  cases nextCron_outcome hc hz after with
  | none error heq => simp [heq] at h
  | crowded y _ hcrowd => exact (hs.uncrowded hcrowd).elim
  | found v heq _ hv =>
    rw [heq, Except.ok.injEq] at h
    have hregular := And.intro hv.lt fun t => regular_fresh (t := t) hz hv.mem
    cases coalesceGap_cases hc after v with
    | clear hgap | pass _ hgap => exact (hgap.symm.trans h) ▸ hregular
    | fire e hgap he => exact (hgap.symm.trans h) ▸ ⟨he.lt, fun t => gap_fresh hz he.mem (hs.crosses e he)⟩

lemma nextFireDistinct_eq_nextCron (hi : c.interval = 0) (hc : c.cron.Implements s) (hz : c.loc.Separated)
    {anchor : ℤ} {last : Option ℤ} (hs : Settled s c.loc after) (hl : ∀ l, last = some l → l ≤ after) :
    c.nextFireDistinct after anchor last = c.nextCron after := by
  have hinterval : ¬ 0 < c.interval := by omega
  simp only [CompiledSchedule.nextFireDistinct, CompiledSchedule.nextFire, if_neg hinterval]
  cases hn : c.nextCron after with
  | error e => rfl
  | ok v =>
    cases last with
    | none => rfl
    | some l =>
      obtain ⟨hlt, hfresh⟩ := nextCron_fresh hc hz hs hn
      have hdiffer : ¬ sameWallMinute c.loc l v = true := by
        rw [sameWallMinute_iff]
        exact (hfresh l ((hl l rfl).trans_lt hlt)).ne
      exact if_neg hdiffer

lemma nextFireDistinct_fresh (hi : c.interval = 0) (hc : c.cron.Implements s) (hz : c.loc.Separated) {anchor : ℤ}
    (hs : Settled s c.loc after) (h : c.nextFireDistinct after anchor (some after) = .ok u) :
    after < u ∧ c.loc.wall after / minute < c.loc.wall u / minute := by
  rw [nextFireDistinct_eq_nextCron hi hc hz hs fun l hl => (Option.some.inj hl).ge] at h
  obtain ⟨hlt, hfresh⟩ := nextCron_fresh hc hz hs h
  exact ⟨hlt, hfresh after hlt⟩

end

def WalkStep (c : CompiledSchedule) (anchor f g : ℤ) : Prop := c.nextFireDistinct f anchor (some f) = .ok g

theorem walk_minutes_distinct {c : CompiledSchedule} {s : CronSpec} {anchor : ℤ} {fires : List ℤ}
    (hi : c.interval = 0) (hc : c.cron.Implements s) (hz : c.loc.Separated)
    (hwalk : fires.IsChain fun f g => Settled s c.loc f ∧ WalkStep c anchor f g) :
    fires.Pairwise fun f g => f < g ∧ sameWallMinute c.loc f g = false := by
  let later := fun f g : ℤ => f < g ∧ c.loc.wall f / minute < c.loc.wall g / minute
  have htrans : IsTrans ℤ later := ⟨fun _ _ _ h h' => ⟨h.1.trans h'.1, h.2.trans h'.2⟩⟩
  have hlater : fires.IsChain later := hwalk.imp fun f g h => nextFireDistinct_fresh hi hc hz h.1 h.2
  refine hlater.pairwise.imp ?_
  rintro f g ⟨hlt, hminute⟩
  refine ⟨hlt, ?_⟩
  rw [Bool.eq_false_iff, ne_eq, sameWallMinute_iff]
  exact hminute.ne

def fiveFolds : Zone := .ofTransitions 0 [(7200, -360), (7620, -720), (8040, -1080), (8460, -1440), (8880, -1800)]

def lastMinutes : CronSpec := ⟨2 ^ 58 + 2 ^ 59, 6, 2 ^ 63 + (2 ^ 32 - 2), 2 ^ 63 + (2 ^ 13 - 2), 2 ^ 63 + 127⟩

noncomputable def lastMinutesFolded : CompiledSchedule := ⟨"58,59 1,2 * * *", 0, fiveFolds, lastMinutes.schedule⟩

lemma fiveFolds_wholeMinutes : fiveFolds.WholeMinutes := by
  intro t
  obtain ⟨o, ho, h⟩ := Zone.ofTransitions_value 0 _ t
  rw [fiveFolds, h]
  revert o
  simp [second, minute]

lemma fiveFolds_not_forward {e : ℤ} : ¬ fiveFolds.Forward e := by
  rintro ⟨he, hup⟩
  have h : ∀ e ∈ [7200 * second, 7620 * second, 8040 * second, 8460 * second, 8880 * second],
      ¬ fiveFolds.prior e < fiveFolds.value e := by decide +kernel
  exact h e he hup

lemma lastMinutesFolded_next {t a : ℤ} {n : ℕ} (hl : (a - 1) * minute ≤ t) (hu : t < (a + n) * minute)
    (hn : ∀ k < n, lastMinutes.matchesAt (fiveFolds.wall ((a + k) * minute)) = false)
    (hm : lastMinutes.matchesAt (fiveFolds.wall ((a + n) * minute)) = true) :
    lastMinutesFolded.cron.next lastMinutesFolded.loc t = some ((a + n) * minute) :=
  (CronSpec.schedule_implements lastMinutes).next_eq fiveFolds_wholeMinutes hl hu hn hm

lemma lastMinutesFolded_skip {n k : ℕ} {y e a x : ℤ} (hf : secondFoldEnd fiveFolds y = some e)
    (hl : (a - 1) * minute ≤ e - second) (hu : e - second < (a + k) * minute)
    (hn : ∀ i < k, lastMinutes.matchesAt (fiveFolds.wall ((a + i) * minute)) = false)
    (hm : lastMinutes.matchesAt (fiveFolds.wall ((a + k) * minute)) = true) (hx : (a + k) * minute = x) :
    lastMinutesFolded.skipFolds (n + 1) y = lastMinutesFolded.skipFolds n x := by
  rw [CompiledSchedule.skipFolds, show secondFoldEnd lastMinutesFolded.loc y = some e from hf]
  simp only [lastMinutesFolded_next hl hu hn hm, hx]

lemma lastMinutesFolded_exhausts : lastMinutesFolded.skipFolds 4 (124 * minute) = .ok (148 * minute) := by
  rw [lastMinutesFolded_skip (e := 126 * minute) (a := 126) (k := 4) (x := 130 * minute),
    lastMinutesFolded_skip (e := 133 * minute) (a := 133) (k := 3) (x := 136 * minute),
    lastMinutesFolded_skip (e := 140 * minute) (a := 140) (k := 2) (x := 142 * minute),
    lastMinutesFolded_skip (e := 147 * minute) (a := 147) (k := 1) (x := 148 * minute)]
  · rfl
  all_goals decide +kernel

lemma lastMinutesFolded_step {t a x y : ℤ} {n : ℕ} (hf : secondFoldEnd fiveFolds t = none)
    (hl : (a - 1) * minute ≤ t) (hu : t < (a + n) * minute)
    (hn : ∀ k < n, lastMinutes.matchesAt (fiveFolds.wall ((a + k) * minute)) = false)
    (hm : lastMinutes.matchesAt (fiveFolds.wall ((a + n) * minute)) = true) (hx : (a + n) * minute = x)
    (hskip : lastMinutesFolded.skipFolds 4 x = .ok y) (hdiffer : sameWallMinute fiveFolds t y = false) :
    WalkStep lastMinutesFolded 0 t y := by
  have hfrom : lastMinutesFolded.searchFrom t = t := by
    rw [CompiledSchedule.searchFrom, show secondFoldEnd lastMinutesFolded.loc t = none from hf]
  have hclear : lastMinutesFolded.coalesceGap t y = y :=
    coalesceGap_clear fun e he => (fiveFolds_not_forward he).elim
  have hnext : lastMinutesFolded.nextCron t = .ok y := by
    simp only [CompiledSchedule.nextCron, hfrom, lastMinutesFolded_next hl hu hn hm, hx, hskip, hclear]
  have hinterval : ¬ 0 < lastMinutesFolded.interval := lt_irrefl 0
  have hloc : sameWallMinute lastMinutesFolded.loc t y = false := hdiffer
  simp [WalkStep, CompiledSchedule.nextFireDistinct, CompiledSchedule.nextFire, hinterval, hnext, hloc]

lemma lastMinutesFolded_first : WalkStep lastMinutesFolded 0 (118 * minute) (119 * minute) := by
  have hskip : lastMinutesFolded.skipFolds 4 (119 * minute) = .ok (119 * minute) :=
    skipFolds_fresh (secondFoldEnd_eq_none.mp (by decide +kernel))
  apply lastMinutesFolded_step (a := 119) (n := 0) (x := 119 * minute)
  case hskip => exact hskip
  all_goals decide +kernel

lemma fiveFolds_separated : fiveFolds.Separated := by
  rw [fiveFolds]
  decide +kernel

lemma lastMinutesFolded_settled : Settled lastMinutes fiveFolds (118 * minute) where
  uncrowded := by
    rintro ⟨folds, hlen, _, hall⟩
    obtain ⟨b, hb⟩ := List.exists_mem_of_length_pos (by omega : 0 < folds.length)
    obtain ⟨hlt, hmem, m, hbm, _, _, hbefore⟩ := hall b hb
    have hregular : lastMinutes.Regular fiveFolds (119 * minute) :=
      (CronSpec.regular_iff fiveFolds_separated).mpr ⟨by decide +kernel,
        secondFoldEnd_eq_none.mp (by decide +kernel)⟩
    have hm := hbefore _ hregular (by decide)
    have hfold : ∀ b ∈ [7200 * second, 7620 * second, 8040 * second, 8460 * second, 8880 * second],
        120 * minute ≤ b := by decide
    have := hfold b hmem
    simp only [minute] at *
    omega
  crosses e he := (fiveFolds_not_forward he.mem).elim

theorem walk_minutes_distinct_two_fires :
    [118 * minute, 119 * minute].Pairwise fun f g => f < g ∧ sameWallMinute fiveFolds f g = false :=
  walk_minutes_distinct (c := lastMinutesFolded) rfl (CronSpec.schedule_implements lastMinutes) fiveFolds_separated
    (List.isChain_cons_cons.mpr ⟨⟨lastMinutesFolded_settled, lastMinutesFolded_first⟩, List.isChain_singleton _⟩)

theorem walk_repeats_minute :
    fiveFolds.Separated ∧ lastMinutes.schedule.Implements lastMinutes ∧
      [118 * minute, 119 * minute, 148 * minute].IsChain (WalkStep lastMinutesFolded 0) ∧
      sameWallMinute fiveFolds (118 * minute) (148 * minute) = true := by
  have hlast : WalkStep lastMinutesFolded 0 (119 * minute) (148 * minute) := by
    apply lastMinutesFolded_step (a := 120) (n := 4) (x := 124 * minute)
    case hskip => exact lastMinutesFolded_exhausts
    all_goals decide +kernel
  refine ⟨fiveFolds_separated, CronSpec.schedule_implements _, ?_, by decide +kernel⟩
  exact List.isChain_cons_cons.mpr ⟨lastMinutesFolded_first,
    List.isChain_cons_cons.mpr ⟨hlast, List.isChain_singleton _⟩⟩

end Minicrond.Scheduler
