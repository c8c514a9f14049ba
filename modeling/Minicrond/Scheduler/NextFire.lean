import Minicrond.Scheduler.Occurrences
import Minicrond.Scheduler.Progress

/-! `nextFire` against the occurrence set of a cron schedule: when it finds the next occurrence. -/

namespace Minicrond.Scheduler

open Minicrond.Library Minicrond.Time

section

variable {c : CompiledSchedule} {s : CronSpec} {after x y : ℤ} {n : ℕ}

lemma Candidate.regular (hz : c.loc.Separated) (h : Candidate s c.loc after x) (hr : ¬ c.loc.Repeated x) :
    LeastAfter {u | s.Regular c.loc u} after x :=
  ⟨⟨(CronSpec.regular_iff hz).mpr ⟨h.matching, hr⟩, h.lt⟩, fun u hu => h.bound u hu.1 hu.2⟩

lemma Candidate.shadows (hz : c.loc.Separated) {b : ℤ} (h : Candidate s c.loc after x)
    (hb : c.loc.start x = some b) (hx : x < b + c.loc.drop b) : s.Shadows c.loc after b := by
  refine ⟨(h.fold b hb hx).1, StepFunction.start_mem hb, x, StepFunction.start_le hb, hx, h.matching, ?_⟩
  intro u hu hlt
  rcases (h.bound u hu hlt).lt_or_eq with hne | rfl
  · exact hne
  · exact (((CronSpec.regular_iff hz).mp hu).2 ⟨b, hb, hx⟩).elim

lemma skipFolds_repeated {b : ℤ} (hb : c.loc.start x = some b) (hx : x < b + c.loc.drop b) :
    c.skipFolds (n + 1) x =
      match c.cron.next c.loc (b + c.loc.drop b - second) with
      | none => .error (.noFuture c.raw)
      | some y => c.skipFolds n y := by
  have hf := secondFoldEnd_eq_some.mpr ⟨b, hb, rfl, hx⟩
  cases hy : c.cron.next c.loc (b + c.loc.drop b - second) with
  | none => simp only [CompiledSchedule.skipFolds, hf, hy]
  | some y => simp only [CompiledSchedule.skipFolds, hf, hy]

lemma skipFolds_fresh (hx : ¬ c.loc.Repeated x) : c.skipFolds n x = .ok x := by
  cases n with
  | zero => rfl
  | succ n => rw [CompiledSchedule.skipFolds, secondFoldEnd_eq_none.mpr hx]

lemma skipFolds_succ (hs : c.skipFolds (n + 1) x = .ok y) :
    (¬ c.loc.Repeated x ∧ x = y) ∨ ∃ b z, c.loc.start x = some b ∧ x < b + c.loc.drop b ∧
      c.cron.next c.loc (b + c.loc.drop b - second) = some z ∧ c.skipFolds n z = .ok y := by
  by_cases hr : c.loc.Repeated x
  · obtain ⟨b, hb, hx⟩ := hr
    rw [skipFolds_repeated hb hx] at hs
    cases hn : c.cron.next c.loc (b + c.loc.drop b - second) with
    | none => simp [hn] at hs
    | some z => exact .inr ⟨b, z, hb, hx, hn, by simpa only [hn] using hs⟩
  · rw [skipFolds_fresh hr, Except.ok.injEq] at hs
    exact .inl ⟨hr, hs⟩

lemma skipFolds_ok (hc : c.cron.Implements s) (hz : c.loc.Separated) (h : Candidate s c.loc after x)
    (hs : c.skipFolds n x = .ok y) : Candidate s c.loc after y := by
  induction n generalizing x with
  | zero =>
    rw [CompiledSchedule.skipFolds, Except.ok.injEq] at hs
    exact hs ▸ h
  | succ n ih =>
    rcases skipFolds_succ hs with ⟨_, rfl⟩ | ⟨b, z, hb, hx, hn, hs⟩
    · exact h
    · exact ih (candidate_next hc hz h hb hx hn) hs

lemma skipFolds_error (hc : c.cron.Implements s) (hz : c.loc.Separated) {e : ScheduleError}
    (h : Candidate s c.loc after x) (hs : c.skipFolds n x = .error e) :
    ∀ u, s.Regular c.loc u → u ≤ after := by
  induction n generalizing x with
  | zero => simp [CompiledSchedule.skipFolds] at hs
  | succ n ih =>
    by_cases hr : c.loc.Repeated x
    · obtain ⟨b, hb, hx⟩ := hr
      rw [skipFolds_repeated hb hx] at hs
      cases hn : c.cron.next c.loc (b + c.loc.drop b - second) with
      | none =>
        intro u hu
        by_contra hlt
        have hmem := StepFunction.start_mem hb
        have hlast := hc.none hn u hu.1
        have hle := StepFunction.start_le hb
        have hxu := h.bound u hu (by omega)
        refine ((CronSpec.regular_iff hz).mp hu).2 ⟨b, ?_, by simp only [second] at hlast; omega⟩
        exact start_eq_of_mem_fold hz hmem (by omega) (by simp only [second] at hlast; omega)
      | some z =>
        simp only [hn] at hs
        exact ih (candidate_next hc hz h hb hx hn) hs
    · rw [skipFolds_fresh hr] at hs
      simp at hs

lemma skipFolds_exhausted (hc : c.cron.Implements s) (hz : c.loc.Separated)
    (h : Candidate s c.loc after x) (hs : c.skipFolds n x = .ok y) (hy : c.loc.Repeated y) :
    ∃ (b : ℤ) (folds : List ℤ), c.loc.start x = some b ∧ folds.length = n + 1 ∧ folds.Pairwise (· < ·) ∧
      ∀ r ∈ folds, b ≤ r ∧ s.Shadows c.loc after r := by
  induction n generalizing x with
  | zero =>
    rw [CompiledSchedule.skipFolds, Except.ok.injEq] at hs
    subst hs
    obtain ⟨b, hb, hx⟩ := hy
    exact ⟨b, [b], hb, rfl, List.pairwise_singleton _ _, by simpa using h.shadows hz hb hx⟩
  | succ n ih =>
    rcases skipFolds_succ hs with ⟨hfresh, rfl⟩ | ⟨b, z, hb, hx, hn, hs⟩
    · exact (hfresh hy).elim
    · obtain ⟨b', folds, hb', hlen, hsorted, hall⟩ := ih (candidate_next hc hz h hb hx hn) hs
      have hrep : c.loc.Repeated z := by
        by_contra hfresh
        rw [skipFolds_fresh hfresh, Except.ok.injEq] at hs
        exact hfresh (hs ▸ hy)
      obtain ⟨b'', hb'', hlt⟩ := hrep
      obtain rfl : b'' = b' := Option.some.inj (hb''.symm.trans hb')
      have hbb := ((resume hc hz hb hx hn).2.2 b'' hb'' hlt).1
      refine ⟨b, b :: folds, hb, by simp [hlen], ?_, ?_⟩
      · exact List.pairwise_cons.mpr ⟨fun r hr => hbb.trans_le (hall r hr).1, hsorted⟩
      · intro r hr
        rcases List.mem_cons.mp hr with rfl | hr
        · exact ⟨le_rfl, h.shadows hz hb hx⟩
        · exact ⟨hbb.le.trans (hall r hr).1, (hall r hr).2⟩

lemma skipFolds_of_shadows (hc : c.cron.Implements s) (hz : c.loc.Separated) {r : ℤ} {folds : List ℤ}
    (h : Candidate s c.loc after x) (hlen : folds.length = n) (hsorted : (r :: folds).Pairwise (· < ·))
    (hall : ∀ b ∈ folds, s.Shadows c.loc after b)
    (hr : r ∈ c.loc.breaks)
    (hx : ∃ m, x ≤ m ∧ r ≤ m ∧ m < r + c.loc.drop r ∧ ∀ u, s.Regular c.loc u → after < u → m < u) :
    ∃ y, c.skipFolds n x = .ok y ∧ c.loc.Repeated y := by
  induction n generalizing x r folds with
  | zero =>
    refine ⟨x, rfl, ?_⟩
    by_contra hfresh
    obtain ⟨m, hxm, _, _, hm⟩ := hx
    have := hm x (h.regular hz hfresh).mem h.lt
    omega
  | succ n ih =>
    obtain ⟨m, hxm, hrm, hmlt, hm⟩ := hx
    have hrep : c.loc.Repeated x := by
      by_contra hfresh
      have := hm x (h.regular hz hfresh).mem h.lt
      omega
    obtain ⟨b, hb, hxb⟩ := hrep
    match folds, hlen with
    | b' :: rest, hlen =>
      rw [List.pairwise_cons] at hsorted
      obtain ⟨_, hmem', m', hbm', hmlt', hmatch', hm'⟩ := hall b' (by simp)
      have hbr : b ≤ r := by
        have := StepFunction.start_le hb
        exact StepFunction.le_start (start_eq_of_mem_fold hz hr hrm hmlt) (StepFunction.start_mem hb) (by omega)
      have hend := fold_end_lt hz (StepFunction.start_mem hb) hmem' (hbr.trans_lt (hsorted.1 b' (by simp)))
      obtain ⟨z, hz', hzle⟩ := LeastAfter.exists_of_mem (S := {u | s.Matching c.loc u}) hmatch'
        (show b + c.loc.drop b - second < m' by simp only [second]; omega)
      have hn := (hc c.loc _ z).mpr hz'
      obtain ⟨y, hy, hyr⟩ := ih (candidate_next hc hz h hb hxb hn) (by simpa using hlen) hsorted.2
        (fun q hq => hall q (by simp [hq])) hmem' ⟨m', hzle, hbm', hmlt', hm'⟩
      exact ⟨y, by rw [skipFolds_repeated hb hxb, hn]; exact hy, hyr⟩

lemma searchFrom_lt_fold (hz : c.loc.Separated) {b m : ℤ} (hb : b ∈ c.loc.breaks) (hab : after < b) (hbm : b ≤ m) :
    c.searchFrom after < m := by
  simp only [CompiledSchedule.searchFrom]
  cases hf : secondFoldEnd c.loc after with
  | none =>
    dsimp only
    omega
  | some e =>
    obtain ⟨r, hr, rfl, _⟩ := secondFoldEnd_eq_some.mp hf
    have hle := StepFunction.start_le hr
    have := fold_end_lt hz (StepFunction.start_mem hr) hb (by omega)
    dsimp only
    simp only [second]
    omega

lemma searchFrom_lt_regular (hz : c.loc.Separated) {u : ℤ} (hu : s.Regular c.loc u) (hlt : after < u) :
    c.searchFrom after < u := by
  simp only [CompiledSchedule.searchFrom]
  cases hf : secondFoldEnd c.loc after with
  | none => exact hlt
  | some e =>
    obtain ⟨b, hb, rfl, hab⟩ := secondFoldEnd_eq_some.mp hf
    have hle := StepFunction.start_le hb
    dsimp only
    by_contra hge
    simp only [second] at hge
    refine ((CronSpec.regular_iff hz).mp hu).2 ⟨b, ?_, by omega⟩
    exact start_eq_of_mem_fold hz (StepFunction.start_mem hb) (by omega) (by omega)

inductive Outcome (c : CompiledSchedule) (s : CronSpec) (after : ℤ) : Prop
  | none (e : ScheduleError) : c.nextCron after = .error e → ¬ s.Crowded c.loc after →
      (∀ u, s.Regular c.loc u → u ≤ after) → Outcome c s after
  | crowded (y : ℤ) : c.nextCron after = .ok y → s.Crowded c.loc after → ¬ s.Occurrence c.loc y → Outcome c s after
  | found (u : ℤ) : c.nextCron after = .ok (c.coalesceGap after u) → ¬ s.Crowded c.loc after →
      LeastAfter {u | s.Regular c.loc u} after u → Outcome c s after

lemma crowded_exhausts (hc : c.cron.Implements s) (hz : c.loc.Separated) (h : s.Crowded c.loc after) :
    ∃ x y, c.cron.next c.loc (c.searchFrom after) = some x ∧ c.skipFolds 4 x = .ok y ∧ c.loc.Repeated y := by
  obtain ⟨folds, hlen, hsorted, hall⟩ := h
  match folds, hlen with
  | b :: rest, hlen =>
    obtain ⟨hab, hmem, m, hbm, hmlt, hmatch, hm⟩ := hall b (by simp)
    obtain ⟨x, hx, hxm⟩ := LeastAfter.exists_of_mem (S := {u | s.Matching c.loc u}) hmatch
      (searchFrom_lt_fold hz hmem hab hbm)
    have hn := (hc c.loc _ x).mpr hx
    obtain ⟨y, hy, hr⟩ := skipFolds_of_shadows hc hz (candidate_first hc hz hn) (by simpa using hlen) hsorted
      (fun q hq => hall q (by simp [hq])) hmem ⟨m, hxm, hbm, hmlt, hm⟩
    exact ⟨x, y, hn, hy, hr⟩

lemma nextCron_outcome (hc : c.cron.Implements s) (hz : c.loc.Separated) (after : ℤ) : Outcome c s after := by
  have hcrowd : s.Crowded c.loc after → _ := crowded_exhausts hc hz
  cases hn : c.cron.next c.loc (c.searchFrom after) with
  | none =>
    refine .none (.noFuture c.raw) (by rw [CompiledSchedule.nextCron, hn]) ?_ ?_
    · intro h
      obtain ⟨x, _, hx, _⟩ := hcrowd h
      simp [hn] at hx
    · intro u hu
      by_contra hlt
      have := hc.none hn u hu.1
      have : c.searchFrom after < u := searchFrom_lt_regular hz hu (by omega)
      omega
  | some x =>
    have hx := candidate_first hc hz hn
    have hskip : s.Crowded c.loc after → ∃ y, c.skipFolds 4 x = .ok y ∧ c.loc.Repeated y := by
      intro h
      obtain ⟨x', y, hx', hy, hr⟩ := hcrowd h
      obtain rfl : x = x' := Option.some.inj (hn.symm.trans hx')
      exact ⟨y, hy, hr⟩
    cases hs : c.skipFolds 4 x with
    | error e =>
      refine .none e (by simp only [CompiledSchedule.nextCron, hn, hs]) ?_ (skipFolds_error hc hz hx hs)
      intro h
      obtain ⟨y, hy, _⟩ := hskip h
      simp [hs] at hy
    | ok y =>
      have hy := skipFolds_ok hc hz hx hs
      have heq : c.nextCron after = .ok (c.coalesceGap after y) := by
        simp only [CompiledSchedule.nextCron, hn, hs]
      by_cases hr : c.loc.Repeated y
      · obtain ⟨b, hb, hlt⟩ := hr
        have hforward := (hy.fold b hb hlt).2
        have hgap := coalesceGap_clear hforward
        obtain ⟨_, folds, _, hlen, hsorted, hall⟩ := skipFolds_exhausted hc hz hx hs ⟨b, hb, hlt⟩
        refine .crowded y (by rw [heq, hgap]) ⟨folds, hlen, hsorted, fun r hr => (hall r hr).2⟩ ?_
        rintro (hreg | hfire)
        · exact ((CronSpec.regular_iff hz).mp hreg).2 ⟨b, hb, hlt⟩
        · have := hforward y hfire.1 hy.lt
          omega
      · refine .found y heq ?_ (hy.regular hz hr)
        intro h
        obtain ⟨y', hy', hr'⟩ := hskip h
        rw [hs, Except.ok.injEq] at hy'
        exact hr (hy' ▸ hr')

lemma firesInGap_iff (hc : c.cron.Implements s) {e old new : ℤ} (hold : c.loc.prior e = old * second)
    (hnew : c.loc.value e = new * second) : c.firesInGap e old new = true ↔ s.WindowMatch c.loc e := by
  have hwall : ∀ u, (Zone.fixed old).wall u = u + c.loc.prior e := fun u => by rw [Zone.wall_fixed, hold]
  have hgap : truncateMinute e + (new - old) * second + c.loc.prior e = truncateMinute e + c.loc.value e := by
    rw [hold, hnew, Int.sub_mul]
    omega
  simp only [CompiledSchedule.firesInGap, CronSpec.WindowMatch]
  constructor
  · intro h
    cases hn : c.cron.next (Zone.fixed old) (truncateMinute e - minute) with
    | none => simp [hn] at h
    | some x =>
      simp only [hn, decide_eq_true_eq] at h
      have hx := (hc _ _ _).mp hn
      have hlt := hx.lt
      obtain ⟨hdvd, hmatch⟩ := hx.mem
      rw [hwall] at hdvd hmatch
      exact ⟨x + c.loc.prior e, by omega, by omega, hdvd, hmatch⟩
  · rintro ⟨w, hlow, hhigh, hdvd, hmatch⟩
    have hm : w - c.loc.prior e ∈ {u | s.Matching (Zone.fixed old) u} := by
      rw [Set.mem_ofPred_eq, CronSpec.Matching, hwall, Int.sub_add_cancel]
      exact ⟨hdvd, hmatch⟩
    obtain ⟨x, hx, hle⟩ :=
      LeastAfter.exists_of_mem hm (show truncateMinute e - minute < w - c.loc.prior e by omega)
    simp only [(hc _ _ _).mpr hx, decide_eq_true_eq]
    omega

inductive Coalesced (c : CompiledSchedule) (s : CronSpec) (after u : ℤ) : Prop
  | clear : c.coalesceGap after u = u → (∀ e, c.loc.Forward e → after < e → u < e) → Coalesced c s after u
  | pass (e : ℤ) : c.coalesceGap after u = u → c.loc.FirstForward after e → ¬ s.WindowMatch c.loc e →
      Coalesced c s after u
  | fire (e : ℤ) : c.coalesceGap after u = e → c.loc.FirstForward after e → e ≤ u → s.WindowMatch c.loc e →
      Coalesced c s after u

lemma coalesceGap_cases (hc : c.cron.Implements s) (after u : ℤ) : Coalesced c s after u := by
  have hspec := forwardTransition_spec c.loc after u
  cases ht : forwardTransition c.loc after u with
  | none =>
    rw [ht] at hspec
    exact .clear (coalesceGap_clear hspec) hspec
  | some p =>
    obtain ⟨e, old, new⟩ := p
    rw [ht] at hspec
    obtain ⟨hfirst, hle, hold, hnew⟩ := hspec
    have hiff := firesInGap_iff hc hold hnew
    by_cases hw : s.WindowMatch c.loc e
    · exact .fire e (by simp only [CompiledSchedule.coalesceGap, ht, if_pos (hiff.mpr hw)]) hfirst hle hw
    · exact .pass e (by simp only [CompiledSchedule.coalesceGap, ht, if_neg (mt hiff.mp hw)]) hfirst hw

end

def NextOccurrence (s : CronSpec) (Z : Zone) (after : ℤ) : Except ScheduleError ℤ → Prop
  | .ok r => LeastAfter {t | s.Occurrence Z t} after r
  | .error _ => ∀ t, s.Occurrence Z t → t ≤ after

structure FindsNext (s : CronSpec) (Z : Zone) (after : ℤ) : Prop where
  uncrowded : ¬ s.Crowded Z after
  truncated : ∀ e u, Z.FirstForward after e → LeastAfter {u | s.Regular Z u} after u → e ≤ u → s.WindowMatch Z e →
    s.Occurrence Z e
  reached : ∀ e, LeastAfter {e | s.GapFire Z e} after e → (∀ u, s.Regular Z u → after < u → e < u) →
    Z.FirstForward after e ∧ s.WindowMatch Z e ∧ ∃ u, s.Regular Z u ∧ after < u

section

variable {c : CompiledSchedule} {s : CronSpec} {after u e : ℤ}

lemma nextOccurrence_none {error : ScheduleError} (hcrowd : ¬ s.Crowded c.loc after)
    (hnone : ∀ u, s.Regular c.loc u → u ≤ after) :
    NextOccurrence s c.loc after (.error error) ↔ FindsNext s c.loc after := by
  constructor
  · intro h
    refine ⟨hcrowd, ?_, ?_⟩
    · intro e u _ hu
      have := hnone u hu.mem
      have := hu.lt
      omega
    · intro e he _
      have := h e (.inr he.mem)
      have := he.lt
      omega
  · rintro h t (ht | ht)
    · exact hnone t ht
    · by_contra hlt
      obtain ⟨e, he, _⟩ := LeastAfter.exists_of_mem (S := {e | s.GapFire c.loc e}) ht (lt_of_not_ge hlt)
      obtain ⟨_, _, u, hu, hau⟩ := h.reached e he fun u hu hau => by have := hnone u hu; omega
      have := hnone u hu
      omega

lemma nextOccurrence_clear (hcrowd : ¬ s.Crowded c.loc after) (hu : LeastAfter {u | s.Regular c.loc u} after u)
    (hclear : ∀ e, c.loc.Forward e → after < e → u < e) :
    NextOccurrence s c.loc after (.ok u) ∧ FindsNext s c.loc after := by
  refine ⟨⟨⟨.inl hu.mem, hu.lt⟩, ?_⟩, hcrowd, ?_, ?_⟩
  · rintro t ⟨ht | ht, hat⟩
    · exact hu.le_of_mem ht hat
    · exact (hclear t ht.1 hat).le
  · intro e u' he hu' hle
    obtain rfl := hu.unique hu'
    have := hclear e he.mem he.lt
    omega
  · intro e he hbefore
    have := hbefore u hu.mem hu.lt
    have := hclear e he.mem.1 he.lt
    omega

lemma nextOccurrence_gap (hcrowd : ¬ s.Crowded c.loc after) (hu : LeastAfter {u | s.Regular c.loc u} after u)
    (he : c.loc.FirstForward after e) (hle : e ≤ u) (hw : s.WindowMatch c.loc e) :
    NextOccurrence s c.loc after (.ok e) ↔ FindsNext s c.loc after := by
  constructor
  · intro h
    refine ⟨hcrowd, ?_, ?_⟩
    · intro e' _ he' _ _ _
      obtain rfl := he.unique he'
      exact h.mem
    · intro e' he' hbefore
      suffices e = e' from this ▸ ⟨he, hw, u, hu.mem, hu.lt⟩
      have hle' := he.le_of_mem he'.mem.1 he'.lt
      rcases h.mem with hreg | hgap
      · have := hbefore e hreg he.lt
        omega
      · have := he'.le_of_mem hgap he.lt
        omega
  · intro h
    refine ⟨⟨h.truncated e u he hu hle hw, he.lt⟩, ?_⟩
    rintro t ⟨ht | ht, hat⟩
    · exact hle.trans (hu.le_of_mem ht hat)
    · exact he.le_of_mem ht.1 hat

lemma nextOccurrence_skip (hcrowd : ¬ s.Crowded c.loc after) (hu : LeastAfter {u | s.Regular c.loc u} after u)
    (he : c.loc.FirstForward after e) (hw : ¬ s.WindowMatch c.loc e) :
    NextOccurrence s c.loc after (.ok u) ↔ FindsNext s c.loc after := by
  constructor
  · intro h
    refine ⟨hcrowd, ?_, ?_⟩
    · intro e' _ he' _ _ hw'
      obtain rfl := he.unique he'
      exact (hw hw').elim
    · intro e' he' hbefore
      have := hbefore u hu.mem hu.lt
      have := h.le_of_mem (.inr he'.mem) he'.lt
      omega
  · intro h
    refine ⟨⟨.inl hu.mem, hu.lt⟩, ?_⟩
    rintro t ⟨ht | ht, hat⟩
    · exact hu.le_of_mem ht hat
    · by_contra hlt
      obtain ⟨g, hg, hgt⟩ := LeastAfter.exists_of_mem (S := {e | s.GapFire c.loc e}) ht hat
      obtain ⟨hfirst, hmatch, _⟩ := h.reached g hg fun v hv hav => by have := hu.le_of_mem hv hav; omega
      obtain rfl := he.unique hfirst
      exact hw hmatch

lemma nextCron_next_iff (hc : c.cron.Implements s) (hz : c.loc.Separated) (after : ℤ) :
    NextOccurrence s c.loc after (c.nextCron after) ↔ FindsNext s c.loc after := by
  cases nextCron_outcome hc hz after with
  | none error heq hcrowd hnone =>
    rw [heq]
    exact nextOccurrence_none hcrowd hnone
  | crowded y heq hcrowd hocc =>
    rw [heq]
    exact iff_of_false (fun h => hocc h.mem) fun h => h.uncrowded hcrowd
  | found u heq hcrowd hu =>
    rw [heq]
    cases coalesceGap_cases hc after u with
    | clear hgap hclear =>
      rw [hgap]
      obtain ⟨hn, hf⟩ := nextOccurrence_clear hcrowd hu hclear
      exact iff_of_true hn hf
    | pass e hgap he hw =>
      rw [hgap]
      exact nextOccurrence_skip hcrowd hu he hw
    | fire e hgap he hle hw =>
      rw [hgap]
      exact nextOccurrence_gap hcrowd hu he hle hw

end

theorem nextFire_next_iff {c : CompiledSchedule} {s : CronSpec} (hi : c.interval = 0) (hc : c.cron.Implements s)
    (hz : c.loc.Separated) (after anchor : ℤ) :
    NextOccurrence s c.loc after (c.nextFire after anchor) ↔ FindsNext s c.loc after := by
  rw [CompiledSchedule.nextFire, if_neg (by omega)]
  exact nextCron_next_iff hc hz after

def newYork : Zone :=
  .ofTransitions (-18000) [(1741503600, -14400), (1762063200, -18000), (1772953200, -14400), (1793512800, -18000),
    (1805007600, -14400)]

def eachMinute : CronSpec :=
  ⟨2 ^ 63 + (2 ^ 60 - 1), 2 ^ 63 + (2 ^ 24 - 1), 2 ^ 63 + (2 ^ 32 - 2), 2 ^ 63 + (2 ^ 13 - 2), 2 ^ 63 + 127⟩

lemma newYork_separated : newYork.Separated := by
  rw [newYork]
  decide +kernel

lemma newYork_breaks {b : ℤ} (h : b ∈ newYork.breaks) :
    b = 1741503600 * second ∨ b = 1762063200 * second ∨ b = 1772953200 * second ∨ b = 1793512800 * second ∨
      b = 1805007600 * second := by
  rw [newYork, Zone.mem_ofTransitions] at h
  simpa using h

lemma newYork_forward {e : ℤ} (he : newYork.Forward e) :
    e = 1741503600 * second ∨ e = 1772953200 * second ∨ e = 1805007600 * second := by
  obtain ⟨hmem, hup⟩ := he
  rcases newYork_breaks hmem with rfl | rfl | rfl | rfl | rfl
  · exact .inl rfl
  · exact absurd hup (by decide +kernel)
  · exact .inr (.inl rfl)
  · exact absurd hup (by decide +kernel)
  · exact .inr (.inr rfl)

lemma not_repeated_forward {Z : Zone} {e : ℤ} (he : Z.Forward e) : ¬ Z.Repeated e := by
  rintro ⟨b, hb, hlt⟩
  have hle := StepFunction.start_le hb
  have hge := StepFunction.le_start hb he.1 le_rfl
  obtain rfl : b = e := le_antisymm hle hge
  have hup := he.2
  simp only [StepFunction.drop] at hlt
  omega

lemma eachMinute_regular_forward {e : ℤ} (he : newYork.Forward e) : eachMinute.Regular newYork e := by
  refine (CronSpec.regular_iff newYork_separated).mpr ⟨?_, not_repeated_forward he⟩
  rcases newYork_forward he with rfl | rfl | rfl <;> decide +kernel

lemma eachMinute_findsNext (after : ℤ) : FindsNext eachMinute newYork after where
  uncrowded := by
    rintro ⟨folds, hlen, hsorted, hall⟩
    have hback : folds ⊆ [1762063200 * second, 1793512800 * second] := fun b hb => by
      obtain ⟨-, hmem, m, hle, hlt, -⟩ := hall b hb
      have hdrop : 0 < newYork.drop b := by omega
      rcases newYork_breaks hmem with rfl | rfl | rfl | rfl | rfl
      · exact absurd hdrop (by decide +kernel)
      · simp
      · exact absurd hdrop (by decide +kernel)
      · simp
      · exact absurd hdrop (by decide +kernel)
    have hfew := (List.subperm_of_subset (hsorted.imp ne_of_lt) hback).length_le
    simp [hlen] at hfew
  truncated e _ he _ _ _ := .inl (eachMinute_regular_forward he.mem)
  reached e he hbound := absurd (hbound e (eachMinute_regular_forward he.mem.1) he.lt) (lt_irrefl e)

/-- One second before the clock skips the hour from two to three. -/
theorem nextFire_next_gap :
    NextOccurrence eachMinute newYork (1741503599 * second)
      (CompiledSchedule.nextFire ⟨"* * * * *", 0, newYork, eachMinute.schedule⟩ (1741503599 * second) 0) :=
  (nextFire_next_iff rfl (CronSpec.schedule_implements _) newYork_separated _ 0).mpr (eachMinute_findsNext _)

def marchEighth : CronSpec := ⟨2 ^ 30, 2 ^ 2, 2 ^ 8, 2 ^ 3, 2 ^ 63 + 127⟩

lemma newYork_value (t : ℤ) : newYork.value t = -18000 * second ∨ newYork.value t = -14400 * second := by
  obtain ⟨o, ho, h⟩ := Zone.ofTransitions_value (-18000) _ t
  rw [newYork, h]
  simp only [List.map_cons, List.map_nil, List.mem_cons, List.not_mem_nil, or_false] at ho
  rcases ho with rfl | rfl | rfl | rfl | rfl | rfl <;> simp

lemma marchEighth_matchesAt {w : ℤ} (h : marchEighth.matchesAt w = true) :
    monthOf (dayNumber w) = 3 ∧ dayOf (dayNumber w) = 8 ∧ minuteOfDay w = 150 := by
  have hstar : (2 ^ 63 + 127).testBit CronSpec.starBit = true := by decide
  simp only [marchEighth, CronSpec.matchesAt, CronSpec.dayMatches, civil, Nat.testBit_two_pow, hstar, Bool.or_true,
    if_true, Bool.and_eq_true, decide_eq_true_eq] at h
  omega

lemma marchEighth_quiet {u : ℤ} (h : marchEighth.Matching newYork u) (hl : 1741419000 * second < u) :
    1772953200 * second < u := by
  by_contra hu
  obtain ⟨hdvd, hmatch⟩ := h
  obtain ⟨hm, hd, hmin⟩ := marchEighth_matchesAt hmatch
  have hdays : ∀ k ∈ List.range 366, monthOf (20155 + k) = 3 → dayOf (20155 + k) = 8 → k = 0 ∨ k = 365 := by
    decide +kernel
  have hgap : newYork.value (1772953200 * second - 1800 * second) = -18000 * second := by decide +kernel
  have hval := newYork_value u
  have hw : newYork.wall u = u + newYork.value u := rfl
  obtain ⟨d, hdw⟩ : ∃ d, dayNumber (newYork.wall u) = d := ⟨_, rfl⟩
  rw [hdw] at hm hd
  simp only [dayNumber, hour] at hdw
  simp only [minuteOfDay] at hmin
  simp only [second, minute] at *
  obtain ⟨k, rfl⟩ : ∃ k : ℕ, d = 20155 + k := ⟨(d - 20155).toNat, by omega⟩
  rcases hdays k (by rw [List.mem_range]; omega) hm hd with rfl | rfl
  · omega
  · have : u ≠ 1772953200 * 1000000000 - 1800 * 1000000000 := by
      rintro rfl
      rw [hgap] at hw
      omega
    omega

lemma marchEighth_next_gap :
    LeastAfter {e | marchEighth.GapFire newYork e} (1741419000 * second) (1772953200 * second) := by
  have hfire : marchEighth.GapFire newYork (1772953200 * second) :=
    ⟨⟨Zone.mem_ofTransitions.mpr (by decide), by decide +kernel⟩, 1772937000 * second, by decide +kernel⟩
  refine ⟨⟨hfire, by decide⟩, ?_⟩
  rintro g ⟨⟨hg, w, hlow, hhigh, _, hmatch⟩, hlt⟩
  rcases newYork_forward hg with rfl | rfl | rfl
  · -- The gap of 2025-03-09 skips no minute of the eighth.
    obtain ⟨_, hd, _⟩ := marchEighth_matchesAt hmatch
    have hold : newYork.prior (1741503600 * second) = -18000 * second := by decide +kernel
    have hnew : newYork.value (1741503600 * second) = -14400 * second := by decide +kernel
    have hninth : dayOf 20156 = 9 := by decide +kernel
    have hday : dayNumber w = 20156 := by
      rw [hold] at hlow
      rw [hnew] at hhigh
      simp only [dayNumber, hour]
      simp only [second] at *
      omega
    rw [hday, hninth] at hd
    omega
  all_goals decide

theorem nextFire_misses_second_gap :
    newYork.WholeMinutes ∧ newYork.Separated ∧ marchEighth.schedule.Implements marchEighth ∧
      ¬ NextOccurrence marchEighth newYork (1741419000 * second)
        (CompiledSchedule.nextFire ⟨"30 2 8 3 *", 0, newYork, marchEighth.schedule⟩ (1741419000 * second) 0) := by
  have hfirst : newYork.Forward (1741503600 * second) :=
    ⟨Zone.mem_ofTransitions.mpr (by decide), by decide +kernel⟩
  refine ⟨?_, newYork_separated, CronSpec.schedule_implements _, ?_⟩
  · intro t
    rcases newYork_value t with h | h <;> rw [h] <;> decide
  · intro h
    have hfinds := (nextCron_next_iff (CronSpec.schedule_implements marchEighth) newYork_separated _).mp h
    have hskipped := (hfinds.reached _ marchEighth_next_gap fun u hu hlt => marchEighth_quiet hu.1 hlt).1
    exact absurd (hskipped.le_of_mem hfirst (by decide)) (by decide)

end Minicrond.Scheduler
