import Minicrond.Scheduler.Schedule

/-! The occurrence set of a cron schedule in a zone, and the candidates `nextFire` passes through
on its way over the folds of that zone. -/

namespace Minicrond.Time.CronSpec

open Minicrond.Library

variable (s : CronSpec) (Z : Zone)

def Regular (t : ℤ) : Prop := s.Matching Z t ∧ ∀ u, u < t → Z.wall u ≠ Z.wall t

def GapFire (t : ℤ) : Prop :=
  Z.Forward t ∧ ∃ w, t + Z.prior t ≤ w ∧ w < t + Z.value t ∧ Time.minute ∣ w ∧ s.matchesAt w = true

def Occurrence (t : ℤ) : Prop := s.Regular Z t ∨ s.GapFire Z t

def WindowMatch (t : ℤ) : Prop :=
  ∃ w, truncateMinute t + Z.prior t - Time.minute < w ∧ w < truncateMinute t + Z.value t ∧ Time.minute ∣ w ∧
    s.matchesAt w = true

def Shadows (after b : ℤ) : Prop :=
  after < b ∧ b ∈ Z.breaks ∧
    ∃ m, b ≤ m ∧ m < b + Z.drop b ∧ s.Matching Z m ∧ ∀ u, s.Regular Z u → after < u → m < u

def Crowded (after : ℤ) : Prop :=
  ∃ folds : List ℤ, folds.length = 5 ∧ folds.Pairwise (· < ·) ∧ ∀ b ∈ folds, s.Shadows Z after b

variable {s Z} {t u b : ℤ}

lemma regular_iff (hz : Z.Separated) : s.Regular Z t ↔ s.Matching Z t ∧ ¬ Z.Repeated t := by
  rw [Regular, ← StepFunction.first_reading_iff hz]
  rfl

lemma Matching.of_wall_eq (h : s.Matching Z t) (he : Z.wall u = Z.wall t) : s.Matching Z u := by
  simp only [Matching] at *
  rw [he]
  exact h

end Minicrond.Time.CronSpec

namespace Minicrond.Scheduler

open Minicrond.Library Minicrond.Time

lemma fold_end_lt {Z : Zone} {b g : ℤ} (hz : Z.Separated) (hb : b ∈ Z.breaks) (hg : g ∈ Z.breaks) (h : b < g) :
    b + Z.drop b < g := by
  have hgap := (hz b hb g hg h).1
  have := le_abs_self (Z.drop b)
  omega

lemma start_eq_of_mem_fold {Z : Zone} {b u : ℤ} (hz : Z.Separated) (hb : b ∈ Z.breaks) (hbu : b ≤ u)
    (hu : u < b + Z.drop b) : Z.start u = some b := by
  obtain ⟨r, hr, hle⟩ := StepFunction.exists_start hb hbu
  have hru := StepFunction.start_le hr
  rcases hle.lt_or_eq with hlt | rfl
  · have := fold_end_lt hz hb (StepFunction.start_mem hr) hlt
    omega
  · exact hr

/-- `c` is reached by the fold search from `after`: it precedes the next regular occurrence, and if it
is still repeated then its fold and no forward transition lies between. -/
structure Candidate (s : CronSpec) (Z : Zone) (after c : ℤ) : Prop where
  matching : s.Matching Z c
  lt : after < c
  bound : ∀ u, s.Regular Z u → after < u → c ≤ u
  fold : ∀ b, Z.start c = some b → c < b + Z.drop b → after < b ∧ ∀ g, Z.Forward g → after < g → c < g

section

variable {c : CompiledSchedule} {s : CronSpec} {after x e n : ℤ}

lemma first_copy_le (hc : c.cron.Implements s) (hz : c.loc.Separated) {b : ℤ} (hn : c.cron.next c.loc x = some n)
    (hb : c.loc.start n = some b) (hlt : n < b + c.loc.drop b) : n - c.loc.drop b ≤ x := by
  have hleast := (hc c.loc x n).mp hn
  obtain ⟨_, hread⟩ := StepFunction.reading_first_copy hz hb hlt
  have hle := StepFunction.start_le hb
  by_contra hx
  have := hleast.le_of_mem (CronSpec.Matching.of_wall_eq hleast.mem hread) (by omega)
  omega

lemma forward_before_fold (hc : c.cron.Implements s) (hz : c.loc.Separated) {b g : ℤ}
    (hn : c.cron.next c.loc x = some n) (hb : c.loc.start n = some b) (hlt : n < b + c.loc.drop b)
    (hg : c.loc.Forward g) (hgn : g ≤ n) : g ≤ x := by
  have hcopy := first_copy_le hc hz hn hb hlt
  have hle := StepFunction.start_le hb
  have hgb := StepFunction.le_start hb hg.1 hgn
  have hne : g ≠ b := by
    rintro rfl
    have := hg.2
    simp only [StepFunction.drop] at hlt
    omega
  have hgap := (hz g hg.1 b (StepFunction.start_mem hb) (by omega)).2
  have := le_abs_self (c.loc.drop b)
  omega

lemma resume (hc : c.cron.Implements s) (hz : c.loc.Separated) {b : ℤ} (hb : c.loc.start x = some b)
    (hx : x < b + c.loc.drop b) (hn : c.cron.next c.loc (b + c.loc.drop b - second) = some n) :
    b + c.loc.drop b ≤ n ∧ (∀ u, s.Regular c.loc u → x < u → n ≤ u) ∧
      ∀ b', c.loc.start n = some b' → n < b' + c.loc.drop b' →
        b < b' ∧ ∀ g, c.loc.Forward g → x < g → n < g := by
  have hmem := StepFunction.start_mem hb
  have hle := StepFunction.start_le hb
  have hleast := (hc c.loc _ n).mp hn
  have hge : b + c.loc.drop b ≤ n := by
    obtain ⟨i, hi⟩ := Zone.second_dvd_of_wall hleast.mem.1
    obtain ⟨j, hj⟩ := Zone.second_dvd_drop hmem
    obtain ⟨k, hk⟩ := c.loc.second_dvd_break b hmem
    have := hleast.lt
    simp only [second] at *
    omega
  refine ⟨hge, ?_, ?_⟩
  · intro u hu hxu
    obtain ⟨hm, hrep⟩ := (CronSpec.regular_iff hz).mp hu
    have hpast : b + c.loc.drop b ≤ u := by
      by_contra hlt
      exact hrep ⟨b, start_eq_of_mem_fold hz hmem (by omega) (by omega), by omega⟩
    exact hleast.le_of_mem hm (by simp only [second]; omega)
  · intro b' hb' hlt
    have hbb : b < b' := by
      rcases (StepFunction.le_start hb' hmem (by omega)).lt_or_eq with h | rfl
      · exact h
      · omega
    refine ⟨hbb, ?_⟩
    intro g hg hxg
    by_contra hgn
    have hgx := forward_before_fold hc hz hn hb' hlt hg (by omega)
    have hbg := fold_end_lt hz hmem hg.1 (by omega)
    simp only [second] at hgx
    omega

lemma candidate_first (hc : c.cron.Implements s) (hz : c.loc.Separated)
    (hn : c.cron.next c.loc (c.searchFrom after) = some n) : Candidate s c.loc after n := by
  simp only [CompiledSchedule.searchFrom] at hn
  cases hf : secondFoldEnd c.loc after with
  | none =>
    simp only [hf] at hn
    have hleast := (hc c.loc _ n).mp hn
    have hrep := secondFoldEnd_eq_none.mp hf
    refine ⟨hleast.mem, hleast.lt, fun u hu hlt => hleast.le_of_mem hu.1 hlt, ?_⟩
    intro b hb hlt
    constructor
    · by_contra hab
      exact hrep ⟨b, start_eq_of_mem_fold hz (StepFunction.start_mem hb) (by omega) (hleast.lt.trans hlt),
        hleast.lt.trans hlt⟩
    · intro g hg hag
      by_contra hgn
      have := forward_before_fold hc hz hn hb hlt hg (by omega)
      omega
  | some e =>
    simp only [hf] at hn
    obtain ⟨b, hb, rfl, hlt⟩ := secondFoldEnd_eq_some.mp hf
    obtain ⟨hge, hbound, hfold⟩ := resume hc hz hb hlt hn
    refine ⟨((hc c.loc _ n).mp hn).mem, by omega, hbound, ?_⟩
    intro b' hb' hlt'
    obtain ⟨hbb, hforward⟩ := hfold b' hb' hlt'
    have := fold_end_lt hz (StepFunction.start_mem hb) (StepFunction.start_mem hb') hbb
    exact ⟨by omega, hforward⟩

lemma candidate_next (hc : c.cron.Implements s) (hz : c.loc.Separated) {b : ℤ} (h : Candidate s c.loc after x)
    (hb : c.loc.start x = some b) (hx : x < b + c.loc.drop b)
    (hn : c.cron.next c.loc (b + c.loc.drop b - second) = some n) : Candidate s c.loc after n := by
  obtain ⟨hge, hbound, hfold⟩ := resume hc hz hb hx hn
  obtain ⟨hab, hforward⟩ := h.fold b hb hx
  have hlt := h.lt
  refine ⟨((hc c.loc _ n).mp hn).mem, by omega, ?_, ?_⟩
  · intro u hu hlt
    have hne : u ≠ x := by
      rintro rfl
      exact ((CronSpec.regular_iff hz).mp hu).2 ⟨b, hb, hx⟩
    have := h.bound u hu hlt
    exact hbound u hu (by omega)
  · intro b' hb' hlt
    obtain ⟨hbb, hforward'⟩ := hfold b' hb' hlt
    exact ⟨hab.trans hbb, fun g hg hag => hforward' g hg (hforward g hg hag)⟩

end

end Minicrond.Scheduler
