import Minicrond.Scheduler.Overdue
import Minicrond.Scheduler.Walk

/-! The iterates of `nextFireDistinct` from a position of the schedule, and which searches meet them. -/

namespace Minicrond.Scheduler

open Minicrond.Library Minicrond.Time

/-- The fires that follow the last one, or the anchor before any fire, each searched from the one before. -/
inductive Iterate (c : CompiledSchedule) (anchor : ℤ) (last : Option ℤ) : ℤ → Prop
  | first {x : ℤ} (h : c.nextFireDistinct (last.getD anchor) anchor last = .ok x) : Iterate c anchor last x
  | next {x y : ℤ} (hx : Iterate c anchor last x) (h : WalkStep c anchor x y) : Iterate c anchor last y

def iterates (c : CompiledSchedule) (anchor : ℤ) (last : Option ℤ) : Set ℤ := {x | Iterate c anchor last x}

def Steady (c : CompiledSchedule) (start : ℤ) : Prop :=
  second ≤ c.interval ∨
    (c.interval = 0 ∧ c.loc.Separated ∧ ∃ s, c.cron.Implements s ∧ ∀ t, start ≤ t → Settled s c.loc t)

structure Visits (c : CompiledSchedule) (anchor start : ℤ) (O : Set ℤ) : Prop where
  search : ∀ t last y, (c.interval = 0 → start ≤ t) → (∀ l, last = some l → l ≤ t) →
    c.nextFireDistinct t anchor last = .ok y → ∀ x ∈ O, t < x → y ≤ x
  every : 0 < c.interval → O ⊆ grid anchor c.interval

section

variable {c : CompiledSchedule} {s : CronSpec} {anchor start p t x y : ℤ} {last : Option ℤ} {O : Set ℤ}

lemma coalesceGap_le (hc : c.cron.Implements s) (after u : ℤ) : c.coalesceGap after u ≤ u := by
  cases coalesceGap_cases hc after u with
  | clear hgap | pass _ hgap => exact hgap.le
  | fire e hgap _ hle => exact hgap.le.trans hle

lemma nextCron_le (hc : c.cron.Implements s) (hz : c.loc.Separated) (hp : ¬ s.Crowded c.loc p)
    (ht : ¬ s.Crowded c.loc t) (hpt : p ≤ t) (htx : t < x) (hx : c.nextCron p = .ok x)
    (hy : c.nextCron t = .ok y) :
    y ≤ x := by
  cases nextCron_outcome hc hz t with
  | none error heq => simp [heq] at hy
  | crowded _ _ hcrowd => exact (ht hcrowd).elim
  | found v heqv _ hv =>
    obtain rfl := Except.ok.inj (heqv.symm.trans hy)
    cases nextCron_outcome hc hz p with
    | none error heq => simp [heq] at hx
    | crowded _ _ hcrowd => exact (hp hcrowd).elim
    | found u hequ _ hu =>
      obtain rfl := Except.ok.inj (hequ.symm.trans hx)
      have hregular : c.coalesceGap p u = u → c.coalesceGap t v ≤ c.coalesceGap p u := by
        intro hgap
        rw [hgap] at htx ⊢
        exact (coalesceGap_le hc t v).trans (hv.le_of_mem hu.mem htx)
      cases coalesceGap_cases hc p u with
      | clear hgap | pass _ hgap => exact hregular hgap
      | fire e hgap he _ hw =>
        rw [hgap] at htx ⊢
        -- The gap at `e` is the first one ahead of the later search too, unless that search ends before it.
        have hfirst := he.advance hpt htx
        cases coalesceGap_cases hc t v with
        | clear hgap' hclear => exact hgap'.le.trans (hclear e he.mem htx).le
        | pass g _ hg hn => exact (hn (hg.unique hfirst ▸ hw)).elim
        | fire g hgap' hg => exact (hgap'.trans (hg.unique hfirst)).le

lemma last_le_getD {l : ℤ} (h : last = some l) : l ≤ last.getD anchor := by
  rw [h]
  rfl

lemma lt_iterate (hc : c.cron.Advances) (h : Iterate c anchor last x) : last.getD anchor < x := by
  induction h with
  | first h => exact lt_nextFireDistinct hc h
  | next _ h ih => exact ih.trans (lt_nextFireDistinct hc h)

lemma iterates_subset_grid (hi : 0 < c.interval) : iterates c anchor last ⊆ grid anchor c.interval := by
  intro x hx
  cases hx with
  | first h | next _ h => exact (nextFireDistinct_grid hi h).mem

lemma iterates_visited_cron (hi : c.interval = 0) (hc : c.cron.Implements s) (hz : c.loc.Separated)
    (hs : ∀ t, last.getD anchor ≤ t → Settled s c.loc t) :
    Visits c anchor (last.getD anchor) (iterates c anchor last) := by
  refine ⟨fun t l y hstart hl hy x hx => ?_, fun hpos => by omega⟩
  have ht := hstart hi
  rw [nextFireDistinct_eq_nextCron hi hc hz (hs t ht) hl] at hy
  -- The search from `p` that found `x`, against the one from `t`.
  have hpass : ∀ p last' x, last.getD anchor ≤ p → (∀ l, last' = some l → l ≤ p) → p ≤ t →
      c.nextFireDistinct p anchor last' = .ok x → t < x → y ≤ x := by
    intro p last' x hp hl' hpt hx htx
    rw [nextFireDistinct_eq_nextCron hi hc hz (hs p hp) hl'] at hx
    exact nextCron_le hc hz (hs p hp).uncrowded (hs t ht).uncrowded hpt htx hx hy
  induction hx with
  | first h => exact hpass _ _ _ le_rfl (fun _ => last_le_getD) ht h
  | @next p x hp h ih =>
    intro htx
    rcases lt_or_ge t p with htp | hpt
    · exact (ih htp).trans (lt_nextFireDistinct hc.advances h).le
    · exact hpass p _ x (lt_iterate hc.advances hp).le (fun _ hl => (Option.some.inj hl).ge) hpt h htx

lemma iterates_visited (h : Steady c (last.getD anchor)) :
    Visits c anchor (last.getD anchor) (iterates c anchor last) := by
  rcases h with hi | ⟨hi, hz, s, hc, hs⟩
  · have hpos : 0 < c.interval := by
      simp only [second] at hi
      omega
    refine ⟨fun t l y _ _ hy x hx htx => ?_, iterates_subset_grid⟩
    exact (nextFireDistinct_grid hpos hy).le_of_mem (iterates_subset_grid hpos hx) htx
  · exact iterates_visited_cron hi hc hz hs

variable {ctx : CatchUpContext} {now : ℤ}

lemma countLoop_visits (hc : c.cron.Advances) (hO : Visits c anchor start O) {latest cursor : ℤ} {left count n : ℕ}
    {exact : Bool} (hle : latest ≤ now) (hs : start ≤ cursor) (hl : ∀ l, last = some l → l ≤ cursor)
    (h : c.countLoop ctx anchor last now latest left count cursor = .ok (n, exact)) :
    count + countIn O (cursor - 1) latest ≤ n ∨ n = count + left := by
  induction left generalizing count cursor with
  | zero =>
    simp only [CompiledSchedule.countLoop, Except.ok.injEq, Prod.mk.injEq] at h
    exact .inr h.1.symm
  | succ left ih =>
    simp only [CompiledSchedule.countLoop] at h
    split_ifs at h with hpast _ hlatest
    · simp only [Except.ok.injEq, Prod.mk.injEq] at h
      have hnone : countIn O (cursor - 1) latest = 0 := countIn_eq_zero.mpr fun _ _ hlt => by omega
      omega
    · simp only [Except.ok.injEq, Prod.mk.injEq] at h
      subst hlatest
      have hone := countIn_point O cursor
      omega
    · cases hn : c.nextFireDistinct cursor anchor last with
      | error e => simp [hn] at h
      | ok next =>
        simp only [hn] at h
        have hlt := lt_nextFireDistinct hc hn
        have hskip : countIn O (cursor - 1) latest ≤ countIn O (next - 1) latest + 1 :=
          countIn_skip fun z hz hcz => hO.search cursor last next (fun _ => hs) hl hn z hz hcz
        rcases ih (by omega) (fun l hl' => (hl l hl').trans hlt.le) h with hcount | hbound
        · omega
        · omega

lemma overdue_counts (hi : c.interval = 0 ∨ second ≤ c.interval) (hc : c.cron.Advances)
    (hO : Visits c anchor start O) (hs : start ≤ last.getD anchor) {o : OverdueFires}
    (h : c.overdue ctx anchor last now true = .ok o) (ho : o.count ≠ 0)
    (hfew : c.interval = 0 → countIn O (last.getD anchor) now ≤ maxCatchUpCount) :
    countIn O (o.first - 1) o.latest ≤ o.count := by
  rw [CompiledSchedule.overdue] at h
  cases hn : c.nextFireDistinct (last.getD anchor) anchor last with
  | error e => simp [hn] at h
  | ok first =>
    have hbase := lt_nextFireDistinct hc hn
    simp only [hn] at h
    split_ifs at h with hle hevery
    · rw [Except.ok.injEq] at h
      exact (ho (h ▸ rfl)).elim
    · rw [Except.ok.injEq] at h
      subst h
      rw [overdueEvery_countIn (by omega) (nextFireDistinct_grid hevery hn) (by omega)]
      exact countIn_mono (hO.every hevery) (show last.getD anchor ≤ first - 1 by omega) le_rfl
    · rw [CompiledSchedule.overdueCron] at h
      cases hl : c.latestFire ctx anchor last now first with
      | error e => simp [hl] at h
      | ok latest =>
        have hlatest : latest ≤ now := by
          rcases latestLoop_value hc (by omega) hl with rfl | ⟨_, _, hle, _⟩
          · omega
          · exact hle
        simp only [hl, Bool.not_true, Bool.false_eq_true, if_false] at h
        split_ifs at h with hone
        · rw [Except.ok.injEq] at h
          subst h hone
          exact countIn_point O latest
        · cases hcount : c.countLoop ctx anchor last now latest maxCatchUpCount 0 first with
          | error e => simp [hcount] at h
          | ok p =>
            obtain ⟨n, exact⟩ := p
            simp only [hcount, Except.ok.injEq] at h
            subst h
            have hlast : ∀ l, last = some l → l ≤ first := fun l hl => (last_le_getD hl).trans hbase.le
            rcases countLoop_visits hc hO hlatest (hs.trans hbase.le) hlast hcount with hall | hbound
            · rwa [Nat.zero_add] at hall
            · have hfew := hfew (hi.resolve_right (by simp only [second]; omega))
              rw [hbound, Nat.zero_add]
              exact (countIn_mono subset_rfl (show last.getD anchor ≤ first - 1 by omega) hlatest).trans hfew

end

end Minicrond.Scheduler
