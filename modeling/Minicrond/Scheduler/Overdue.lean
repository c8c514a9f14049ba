import Minicrond.Scheduler.Progress

/-! `overdue` against plain enumeration of the occurrences that were missed. -/

namespace Minicrond.Scheduler

open Minicrond.Library Minicrond.Time

/-- The occurrences of a schedule as a set in which `nextFireDistinct` finds the next element; those of an
`@every` schedule are the grid that its anchor starts. -/
structure Enumerates (c : CompiledSchedule) (anchor : ℤ) (last : Option ℤ) (O : Set ℤ) : Prop where
  next : ∀ t x, last.getD anchor ≤ t → c.nextFireDistinct t anchor last = .ok x → LeastAfter O t x
  every : 0 < c.interval → O = grid anchor c.interval

structure Summarizes (O : Set ℤ) (base now : ℤ) (o : OverdueFires) : Prop where
  empty : o.count = 0 ↔ O ∩ Set.Ioc base now = ∅
  first : o.count ≠ 0 → IsLeast (O ∩ Set.Ioc base now) o.first
  latest : o.count ≠ 0 → IsGreatest (O ∩ Set.Ioc base now) o.latest
  exact : o.count ≠ 0 → o.exact = true → o.count = countIn O base now
  bound : o.count ≤ countIn O base now

section

variable {c : CompiledSchedule} {ctx : CatchUpContext} {anchor now : ℤ} {last : Option ℤ} {O : Set ℤ}
    {base first : ℤ}

lemma enumerates_every (hi : 0 < c.interval) : Enumerates c anchor last (grid anchor c.interval) where
  next _ _ _ h := nextFireDistinct_grid hi h
  every _ := rfl

lemma scanWindow_greatest (hO : Enumerates c anchor last O) {window cursor : ℤ} {left : ℕ} {best best' : Option ℤ}
    (hb : last.getD anchor ≤ cursor) (h : c.scanWindow ctx anchor last now window left cursor best = .ok best') :
    (best' = best ∧ O ∩ Set.Ioc cursor now = ∅) ∨ ∃ x, best' = some x ∧ IsGreatest (O ∩ Set.Ioc cursor now) x := by
  induction left generalizing cursor best with
  | zero => simp [CompiledSchedule.scanWindow] at h
  | succ left ih =>
    simp only [CompiledSchedule.scanWindow] at h
    split_ifs at h
    cases hn : c.nextFireDistinct cursor anchor last with
    | error e => simp [hn] at h
    | ok next =>
      have hleast := hO.next cursor next hb hn
      simp only [hn] at h
      split_ifs at h with hpast
      · rw [Except.ok.injEq] at h
        refine .inl ⟨h.symm, Set.eq_empty_of_forall_notMem ?_⟩
        rintro t ⟨ht, hlow, hhigh⟩
        have := hleast.le_of_mem ht hlow
        omega
      · -- Past `next` the window is the one of the remaining search, with `next` itself as the least element.
        have hmem : next ∈ O ∩ Set.Ioc cursor now := ⟨hleast.mem, hleast.lt, by omega⟩
        have hlt := hleast.lt
        rcases ih (by omega) h with ⟨rfl, hempty⟩ | ⟨x, rfl, hx⟩
        · refine .inr ⟨next, rfl, hmem, ?_⟩
          rintro t ⟨ht, hlow, hhigh⟩
          by_contra hgt
          exact Set.notMem_empty t (hempty ▸ ⟨ht, by omega, hhigh⟩)
        · have hnext := hx.1.2.1
          refine .inr ⟨x, rfl, ⟨hx.1.1, by omega, hx.1.2.2⟩, ?_⟩
          rintro t ⟨ht, hlow, hhigh⟩
          rcases (hleast.le_of_mem ht hlow).lt_or_eq with hgt | rfl
          · exact hx.2 ⟨ht, hgt, hhigh⟩
          · exact hnext.le

lemma greatest_of_late {a b x : ℤ} (hab : a ≤ b) (h : IsGreatest (O ∩ Set.Ioc b now) x) :
    IsGreatest (O ∩ Set.Ioc a now) x := by
  have hlow := h.1.2.1
  refine ⟨⟨h.1.1, by omega, h.1.2.2⟩, ?_⟩
  rintro t ⟨ht, _, hhigh⟩
  by_contra hgt
  exact hgt (h.2 ⟨ht, by omega, hhigh⟩)

lemma latestLoop_greatest (hO : Enumerates c anchor last O) {first window x : ℤ} {fuel : ℕ}
    (hf : LeastAfter O (last.getD anchor) first) (hlt : first < now)
    (h : c.latestLoop ctx anchor last now first fuel window = .ok x) :
    IsGreatest (O ∩ Set.Ioc (last.getD anchor) now) x := by
  induction fuel generalizing window with
  | zero => simp [CompiledSchedule.latestLoop] at h
  | succ fuel ih =>
    have hbase := hf.lt
    rw [CompiledSchedule.latestLoop] at h
    cases hr : CompiledSchedule.reachesFirst now first window with
    | true =>
      simp only [hr, if_true, windowStart_first hr] at h
      cases hs : c.scanWindow ctx anchor last now window maxCatchUpWindow first (some first) with
      | error e => simp [hs] at h
      | ok best =>
        rcases scanWindow_greatest hO hbase.le hs with ⟨rfl, hempty⟩ | ⟨y, rfl, hy⟩
        · simp only [hs, Except.ok.injEq] at h
          refine h ▸ ⟨⟨hf.mem, hbase, hlt.le⟩, ?_⟩
          rintro t ⟨ht, _, hhigh⟩
          by_contra hgt
          exact Set.notMem_empty t (hempty ▸ ⟨ht, by omega, hhigh⟩)
        · simp only [hs, Except.ok.injEq] at h
          exact h ▸ greatest_of_late hbase.le hy
    | false =>
      have hstart := first_lt_windowStart hlt hr
      simp only [hr, Bool.false_eq_true, if_false] at h
      cases hs : c.scanWindow ctx anchor last now window maxCatchUpWindow
          (CompiledSchedule.windowStart now first window) none with
      | error e => simp [hs] at h
      | ok best =>
        rcases scanWindow_greatest hO (by omega) hs with ⟨rfl, _⟩ | ⟨y, rfl, hy⟩
        · simp only [hs] at h
          exact ih h
        · simp only [hs, Except.ok.injEq] at h
          exact h ▸ greatest_of_late (by omega) hy

lemma countLoop_count (hO : Enumerates c anchor last O) {base latest prev cursor : ℤ} {left count n : ℕ}
    {exact : Bool} (hg : IsGreatest (O ∩ Set.Ioc base now) latest) (hb : last.getD anchor ≤ prev)
    (hleast : LeastAfter O prev cursor) (hcount : countIn O base now = count + countIn O prev now)
    (h : c.countLoop ctx anchor last now latest left count cursor = .ok (n, exact)) :
    n ≤ countIn O base now ∧ (exact = true → n = countIn O base now) ∧ count ≤ n ∧
      (left ≠ 0 → cursor ≤ now → count < n) := by
  induction left generalizing count prev cursor with
  | zero =>
    simp only [CompiledSchedule.countLoop, Except.ok.injEq, Prod.mk.injEq] at h
    obtain ⟨rfl, rfl⟩ := h
    refine ⟨by omega, fun hpast => ?_, le_rfl, fun h => (h rfl).elim⟩
    rw [hcount, countIn_past hleast (of_decide_eq_true hpast), Nat.add_zero]
  | succ left ih =>
    simp only [CompiledSchedule.countLoop] at h
    split_ifs at h with hpast _ hlatest
    · simp only [Except.ok.injEq, Prod.mk.injEq] at h
      obtain ⟨rfl, rfl⟩ := h
      have := countIn_past hleast hpast
      exact ⟨by omega, fun _ => by omega, le_rfl, fun _ hle => by omega⟩
    · simp only [Except.ok.injEq, Prod.mk.injEq] at h
      obtain ⟨rfl, rfl⟩ := h
      have hstep := countIn_step hleast (show cursor ≤ now by omega)
      have hnone : countIn O cursor now = 0 := by
        rw [countIn_eq_zero]
        intro y hy hlt
        by_contra hle
        have := hg.1.2.1
        have := hg.2 ⟨hy, by omega, by omega⟩
        omega
      exact ⟨by omega, fun _ => by omega, by omega, fun _ _ => by omega⟩
    · cases hn : c.nextFireDistinct cursor anchor last with
      | error e => simp [hn] at h
      | ok next =>
        simp only [hn] at h
        have hlt := hleast.lt
        have hstep := countIn_step hleast (show cursor ≤ now by omega)
        obtain ⟨hbound, hexact, hle, _⟩ := ih (by omega) (hO.next cursor next (by omega) hn) (by omega) h
        exact ⟨hbound, hexact, by omega, fun _ _ => by omega⟩

lemma summarizes_empty (hf : LeastAfter O base first) (h : now < first) :
    Summarizes O base now .empty := by
  have hempty : O ∩ Set.Ioc base now = ∅ := by
    refine Set.eq_empty_of_forall_notMem ?_
    rintro t ⟨ht, hlow, hhigh⟩
    have := hf.le_of_mem ht hlow
    omega
  exact ⟨iff_of_true rfl hempty, fun h => (h rfl).elim, fun h => (h rfl).elim, fun h => (h rfl).elim,
    Nat.zero_le _⟩

lemma summarizes_of_greatest {base first latest : ℤ} {count : ℕ} {exact : Bool} (hf : LeastAfter O base first)
    (hg : IsGreatest (O ∩ Set.Ioc base now) latest) (hpos : count ≠ 0) (hbound : count ≤ countIn O base now)
    (hexact : exact = true → count = countIn O base now) :
    Summarizes O base now ⟨first, latest, count, exact⟩ where
  empty := iff_of_false hpos fun hempty => Set.notMem_empty latest (hempty ▸ hg.1)
  first _ := ⟨⟨hf.mem, hf.lt, (hf.le_of_mem hg.1.1 hg.1.2.1).trans hg.1.2.2⟩, fun _ ht => hf.le_of_mem ht.1 ht.2.1⟩
  latest _ := hg
  exact _ := hexact
  bound := hbound

lemma overdueCron_summarizes (hO : Enumerates c anchor last O) {first : ℤ} {wantCount : Bool} {o : OverdueFires}
    (hf : LeastAfter O (last.getD anchor) first) (hlt : first < now)
    (h : c.overdueCron ctx anchor last now first wantCount = .ok o) : Summarizes O (last.getD anchor) now o := by
  simp only [CompiledSchedule.overdueCron] at h
  cases hl : c.latestFire ctx anchor last now first with
  | error e => simp [hl] at h
  | ok latest =>
    have hg := latestLoop_greatest hO hf hlt hl
    have hstep := countIn_step hf hlt.le
    simp only [hl] at h
    split_ifs at h with hone hwant
    · rw [Except.ok.injEq] at h
      subst h hone
      have hnone : countIn O latest now = 0 := by
        rw [countIn_eq_zero]
        intro y hy hgt
        by_contra hle
        have := hf.lt
        have := hg.2 ⟨hy, by omega, by omega⟩
        omega
      exact summarizes_of_greatest hf hg (by omega) (by omega) fun _ => by omega
    · rw [Except.ok.injEq] at h
      subst h
      have hmore : countIn O first now ≠ 0 := by
        rw [ne_eq, countIn_eq_zero]
        intro hnone
        have hle := hf.le_of_mem hg.1.1 hg.1.2.1
        have := hnone latest hg.1.1 (by omega)
        have := hg.1.2.2
        omega
      exact summarizes_of_greatest hf hg (by omega) (by omega) (by simp)
    · cases hc : c.countLoop ctx anchor last now latest maxCatchUpCount 0 first with
      | error e => simp [hc] at h
      | ok p =>
        obtain ⟨n, exact⟩ := p
        simp only [hc, Except.ok.injEq] at h
        subst h
        obtain ⟨hbound, hexact, _, hpos⟩ := countLoop_count hO hg le_rfl hf (by omega) hc
        have := hpos (by decide) hlt.le
        exact summarizes_of_greatest hf hg (by omega) hbound hexact

def Representable (O : Set ℤ) (base now : ℤ) : Prop :=
  ∀ f ∈ O ∩ Set.Ioc base now, ∀ g ∈ O ∩ Set.Ioc base now, g - f ≤ maxInt64

lemma representable_iff {base first latest : ℤ} (hf : LeastAfter O base first)
    (hg : IsGreatest (O ∩ Set.Ioc base now) latest) : Representable O base now ↔ latest - first ≤ maxInt64 := by
  have hfirst : first ∈ O ∩ Set.Ioc base now :=
    ⟨hf.mem, hf.lt, (hf.le_of_mem hg.1.1 hg.1.2.1).trans hg.1.2.2⟩
  constructor
  · exact fun h => h first hfirst latest hg.1
  · intro h f hfmem g hgmem
    have := hf.le_of_mem hfmem.1 hfmem.2.1
    have := hg.2 hgmem
    omega

lemma overdueEvery_count (hi : second ≤ c.interval) {first : ℤ} (hlt : first < now) :
    ((c.overdueEvery now first).count : ℤ) = sub now first / c.interval + 1 := by
  have hd : 0 < c.interval := by
    simp only [second] at hi
    omega
  have hpos : 0 ≤ sub now first / c.interval := Int.ediv_nonneg (sub_nonneg hlt.le) hd.le
  have hmul := (Int.ediv_mul_le (sub now first) hd.ne').trans (sub_le_max now first)
  have hsmall : sub now first / c.interval < maxInt64 := by
    have := Int.mul_le_mul_of_nonneg_left hi hpos
    simp only [second, maxInt64] at *
    omega
  simp only [CompiledSchedule.overdueEvery]
  rw [if_neg (by omega)]
  omega

lemma overdueEvery_countIn (hi : second ≤ c.interval)
    (hf : LeastAfter (grid anchor c.interval) base first) (hlt : first < now) :
    (c.overdueEvery now first).count = countIn (grid anchor c.interval) base
      (c.overdueEvery now first).latest := by
  have hd : 0 < c.interval := by
    simp only [second] at hi
    omega
  have hle := le_overdueEvery_latest hd hlt
  have hcount := overdueEvery_count hi hlt
  have hgrid := countIn_grid hd hf.mem hle
  rw [overdueEvery_latest hd hlt, show ∀ x : ℤ, first + x - first = x from fun x => by omega,
    Int.mul_ediv_cancel _ hd.ne', ← overdueEvery_latest hd hlt] at hgrid
  rw [countIn_step hf hle]
  omega

lemma overdueEvery_summarizes (hi : second ≤ c.interval)
    (hf : LeastAfter (grid anchor c.interval) base first) (hlt : first < now) :
    Summarizes (grid anchor c.interval) base now (c.overdueEvery now first) ↔
      Representable (grid anchor c.interval) base now := by
  have hd : 0 < c.interval := by
    simp only [second] at hi
    omega
  have hg := grid_greatest hd hf hlt.le
  have hlatest := overdueEvery_latest hd hlt
  have hcount := overdueEvery_count hi hlt
  have hpos : 0 ≤ sub now first / c.interval := Int.ediv_nonneg (sub_nonneg hlt.le) hd.le
  rw [representable_iff hf hg, show ∀ x : ℤ, first + x - first = x from fun x => by omega]
  constructor
  · intro h
    have heq := (h.latest (by omega)).unique hg
    have := (Int.ediv_mul_le (sub now first) hd.ne').trans (sub_le_max now first)
    omega
  · intro h
    -- Within the range the saturated difference gives the true number of steps.
    have hsteps : sub now first / c.interval = (now - first) / c.interval := by
      rcases le_or_gt (now - first) maxInt64 with hle | hgt
      · rw [sub_eq hlt.le hle]
      · have hmax : sub now first = maxInt64 := by
          simp only [sub, minInt64, maxInt64] at *
          omega
        refine le_antisymm (Int.ediv_le_ediv hd (sub_le hlt.le)) ?_
        rw [hmax]
        exact Int.le_ediv_of_mul_le hd h
    rw [← hsteps, ← hlatest] at hg
    have hnumber := (overdueEvery_countIn hi hf hlt).trans (countIn_greatest hg)
    have hne : (c.overdueEvery now first).count ≠ 0 := by omega
    exact summarizes_of_greatest hf hg hne hnumber.le fun _ => hnumber

end

structure Summarizable (c : CompiledSchedule) (O : Set ℤ) (base now : ℤ) : Prop where
  boundary : ¬ LeastAfter O base now
  range : 0 < c.interval → Representable O base now

theorem overdue_summarizes_iff {c : CompiledSchedule} {ctx : CatchUpContext} {anchor now : ℤ} {last : Option ℤ}
    {O : Set ℤ} {wantCount : Bool} {o : OverdueFires} (hi : c.interval = 0 ∨ second ≤ c.interval)
    (hO : Enumerates c anchor last O) (h : c.overdue ctx anchor last now wantCount = .ok o) :
    Summarizes O (last.getD anchor) now o ↔ Summarizable c O (last.getD anchor) now := by
  simp only [CompiledSchedule.overdue] at h
  cases hn : c.nextFireDistinct (last.getD anchor) anchor last with
  | error e => simp [hn] at h
  | ok first =>
    have hf := hO.next _ first le_rfl hn
    have hboundary : now ≠ first → ¬ LeastAfter O (last.getD anchor) now := fun hne hnow => hne (hnow.unique hf)
    simp only [hn] at h
    split_ifs at h with hle hevery
    · rw [Except.ok.injEq] at h
      subst h
      rcases hle.lt_or_eq with hlt | rfl
      · refine iff_of_true (summarizes_empty hf hlt) ⟨hboundary hlt.ne, fun _ => ?_⟩
        rintro f ⟨hmem, hlow, hhigh⟩
        have := hf.le_of_mem hmem hlow
        omega
      · refine iff_of_false (fun hs => ?_) fun hs => hs.boundary hf
        exact Set.notMem_empty now (hs.empty.mp rfl ▸ ⟨hf.mem, hf.lt, le_rfl⟩)
    · rw [Except.ok.injEq] at h
      subst h
      obtain rfl := hO.every hevery
      have hinterval : second ≤ c.interval := by omega
      rw [overdueEvery_summarizes hinterval hf (by omega)]
      exact ⟨fun hr => ⟨hboundary (by omega), fun _ => hr⟩, fun hs => hs.range hevery⟩
    · exact iff_of_true (overdueCron_summarizes hO hf (by omega) h)
        ⟨hboundary (by omega), fun hpos => (hevery hpos).elim⟩

def everyMinute : CompiledSchedule := ⟨"@every 1m", minute, Zone.utc, ⟨fun _ _ => none⟩⟩

theorem overdue_summarizes_half_minute_late :
    Summarizes (grid 0 minute) 0 (90 * second) ⟨minute, minute, 1, true⟩ := by
  have h : everyMinute.overdue .background 0 none (90 * second) true = .ok ⟨minute, minute, 1, true⟩ := rfl
  refine (overdue_summarizes_iff (.inr (by decide)) (enumerates_every (by decide)) h).mpr ⟨?_, fun _ => ?_⟩
  · intro hnow
    exact absurd (hnow.le_of_mem ⟨1, le_rfl, rfl⟩ (by decide)) (by decide)
  · rintro f ⟨_, hlow, _⟩ g ⟨_, _, hhigh⟩
    have hbase : (none : Option ℤ).getD 0 = 0 := rfl
    simp only [second] at hhigh
    simp only [maxInt64]
    omega

theorem overdue_drops_occurrence_at_now :
    Enumerates everyMinute 0 none (grid 0 minute) ∧
      everyMinute.overdue .background 0 none minute true = .ok .empty ∧
      ¬ Summarizes (grid 0 minute) 0 minute .empty := by
  refine ⟨enumerates_every (by decide), rfl, fun h => ?_⟩
  have hmem : minute ∈ grid 0 minute ∩ Set.Ioc 0 minute := ⟨⟨1, le_rfl, rfl⟩, by decide, le_rfl⟩
  rw [h.empty.mp rfl] at hmem
  exact hmem

end Minicrond.Scheduler
