import Minicrond.Scheduler.LoopOrder
import Minicrond.Scheduler.Iterates

/-! Which occurrences a scheduler loop has taken care of when its watermark passes them. -/

namespace Minicrond.Scheduler

open Minicrond.Library Minicrond.Time

def LoopState.watermark (s : LoopState) : ℤ := s.mem.last.getD s.mem.anchor

/-- The occurrence `x` was triggered itself, or lies in the range of a successful catch-up call: one that triggered
the latest occurrence, or a missed record whose count includes all occurrences of the range. -/
def Covered (O : Set ℤ) (calls : List (Call × Bool)) (x : ℤ) : Prop :=
  (Call.trigger x, true) ∈ calls ∨
    ∃ o : OverdueFires, o.first ≤ x ∧ x ≤ o.latest ∧
      ((Call.catchUpLatest o, true) ∈ calls ∨
        ((Call.recordMissed o, true) ∈ calls ∧ countIn O (o.first - 1) o.latest ≤ o.count))

/-- The steps that lose nothing: the loop chooses its next fire before the occurrence that follows the watermark,
and a missed record does not reach the bound of counting. -/
structure Timely (J : Job) (O : Set ℤ) (s : LoopState) (i : Input) : Prop where
  anchored : ∀ t, i = .clock t → J.schedule.interval = 0 → s.mem.last = none → s.mem.anchor ≤ t
  early : ∀ t, i = .clock t → s.pc = .choosing → ∀ x ∈ O, s.watermark < x → t < x
  counted : ∀ now, s.pc = .ready now → J.catchUp = .none → J.schedule.interval = 0 →
    countIn O s.watermark now ≤ maxCatchUpCount

def Reaches (O : Set ℤ) (watermark : ℤ) : Call → Prop
  | .trigger n => ∀ x ∈ O, watermark < x → n ≤ x
  | .catchUpLatest o => ∀ x ∈ O, watermark < x → o.first ≤ x
  | .recordMissed o => (∀ x ∈ O, watermark < x → o.first ≤ x) ∧ countIn O (o.first - 1) o.latest ≤ o.count

structure Complete (J : Job) (O : Set ℤ) (start anchor : ℤ) (s : LoopState) : Prop where
  anchored : s.mem.anchor = anchor
  started : start ≤ s.watermark
  remembered : s.Remembers J
  covered : ∀ x ∈ O, start < x → x ≤ s.watermark → Covered O s.calls x
  ahead : ∀ call, s.pc.call J = some call → s.watermark < call.scheduled
  reaches : ∀ call, s.pc.call J = some call → Reaches O s.watermark call

section

variable {J : Job} {O : Set ℤ} {start anchor : ℤ} {s t : LoopState} {i : Input}

lemma Covered.append {calls : List (Call × Bool)} {x : ℤ} (h : Covered O calls x) (more : List (Call × Bool)) :
    Covered O (calls ++ more) x := by
  rcases h with h | ⟨o, hlow, hhigh, h | ⟨h, hcount⟩⟩
  · exact .inl (List.mem_append_left more h)
  · exact .inr ⟨o, hlow, hhigh, .inl (List.mem_append_left more h)⟩
  · exact .inr ⟨o, hlow, hhigh, .inr ⟨List.mem_append_left more h, hcount⟩⟩

lemma Reaches.covered {watermark x : ℤ} {call : Call} (h : Reaches O watermark call) (hx : x ∈ O)
    (hlow : watermark < x) (hhigh : x ≤ call.scheduled) {calls : List (Call × Bool)} (hc : (call, true) ∈ calls) :
    Covered O calls x := by
  cases call with
  | trigger n =>
    obtain rfl : x = n := le_antisymm hhigh (h x hx hlow)
    exact .inl hc
  | catchUpLatest o => exact .inr ⟨o, h x hx hlow, hhigh, .inl hc⟩
  | recordMissed o => exact .inr ⟨o, h.1 x hx hlow, hhigh, .inr ⟨hc, h.2⟩⟩

lemma watermark_lt_nextFire (hc : J.schedule.cron.Advances) (hi : 0 ≤ J.schedule.interval) {u n : ℤ}
    (ha : J.schedule.interval = 0 → s.mem.last = none → s.mem.anchor ≤ u) (hn : J.nextFire s.mem u = .ok n) :
    s.watermark < n := by
  have hlt := lt_nextFireDistinct hc hn
  cases hl : s.mem.last with
  | some l =>
    rw [LoopState.watermark, hl]
    exact (le_maxTime_left hl u).trans_lt hlt
  | none =>
    rw [hl] at hlt
    rw [LoopState.watermark, hl]
    rcases hi.lt_or_eq with hpos | hzero
    · -- An `@every` schedule has no occurrence up to its anchor, whatever the clock shows.
      obtain ⟨k, hk, rfl⟩ := (nextFireDistinct_grid hpos hn).mem
      have := Int.mul_pos (by omega : 0 < k) hpos
      simp only [Option.getD_none]
      omega
    · exact (ha hzero.symm hl).trans_lt hlt

lemma nextFire_reaches (hO : Visits J.schedule s.mem.anchor start O) (hs : start ≤ s.watermark) {u n : ℤ}
    (ha : J.schedule.interval = 0 → s.mem.last = none → s.mem.anchor ≤ u) (hn : J.nextFire s.mem u = .ok n)
    (hu : ∀ x ∈ O, s.watermark < x → u < x) : Reaches O s.watermark (.trigger n) := by
  intro x hx hlt
  refine hO.search _ _ _ (fun hi => hs.trans ?_) (fun l hl => le_maxTime_left hl u) hn x hx ?_
  · cases hl : s.mem.last with
    | none =>
      rw [LoopState.watermark, hl]
      exact ha hi hl
    | some l =>
      rw [LoopState.watermark, hl]
      exact le_maxTime_left rfl u
  · rcases maxTime_cases s.mem.last u with he | he
    · rw [he]
      exact hu x hx hlt
    · rw [LoopState.watermark, he] at hlt
      exact hlt

lemma overdue_reaches (hi : J.schedule.interval = 0 ∨ second ≤ J.schedule.interval) (hc : J.schedule.cron.Advances)
    (hO : Visits J.schedule s.mem.anchor start O) (hs : start ≤ s.watermark) {ctx : CatchUpContext} {now : ℤ}
    {o : OverdueFires} (h : J.overdue ctx s.mem now = .ok o) (ho : o.count ≠ 0)
    (hfew : J.catchUp = .none → J.schedule.interval = 0 → countIn O s.watermark now ≤ maxCatchUpCount) :
    Reaches O s.watermark (J.catchUpCall o) := by
  obtain ⟨hfirst, _, _⟩ := overdue_value hc h ho
  have hreach : ∀ x ∈ O, s.watermark < x → o.first ≤ x :=
    hO.search _ _ _ (fun _ => hs) (fun _ => last_le_getD) hfirst
  cases hp : J.catchUp with
  | latest => simpa [Job.catchUpCall, hp, Reaches] using hreach
  | none =>
    simp only [Job.overdue, hp] at h
    have hcount := overdue_counts hi hc hO hs h ho (hfew hp)
    simpa [Job.catchUpCall, hp, Reaches] using ⟨hreach, hcount⟩

lemma watermark_lt_overdue (hc : J.schedule.cron.Advances) {ctx : CatchUpContext} {now : ℤ} {o : OverdueFires}
    (h : J.overdue ctx s.mem now = .ok o) (ho : o.count ≠ 0) : s.watermark < (J.catchUpCall o).scheduled := by
  obtain ⟨hfirst, hle, _⟩ := overdue_value hc h ho
  rw [catchUpCall_scheduled]
  exact (lt_nextFireDistinct hc hfirst).trans_le hle

lemma Complete.transfer (hs : Complete J O start anchor s) (hm : t.mem.position = s.mem.position)
    (hc : ∀ x, Covered O s.calls x → Covered O t.calls x) (hl : t.pc.loading = false)
    (hp : ∀ call, t.pc.call J = some call → s.watermark < call.scheduled ∧ Reaches O s.watermark call) :
    Complete J O start anchor t := by
  have hw : t.watermark = s.watermark := by rw [LoopState.watermark, last_eq hm, anchor_eq hm, LoopState.watermark]
  refine ⟨(anchor_eq hm).trans hs.anchored, hw ▸ hs.started, ⟨(known_iff hm).mpr hs.remembered.1, hl⟩, ?_,
    fun call h => hw ▸ (hp call h).1, fun call h => hw ▸ (hp call h).2⟩
  intro x hx hlow hhigh
  exact hc x (hs.covered x hx hlow (hw ▸ hhigh))

lemma Complete.succeed (hs : Complete J O start anchor s) {call : Call} {pc : Pc} (h : s.pc.call J = some call)
    (hl : pc.loading = false) (hp : pc.call J = none) : Complete J O start anchor (s.advanced call pc) := by
  refine ⟨hs.anchored, hs.started.trans (hs.ahead call h).le, ⟨hs.remembered.1, hl⟩, ?_, ?_, ?_⟩
  · intro x hx hlow hhigh
    rcases le_or_gt x s.watermark with hle | hgt
    · exact (hs.covered x hx hlow hle).append _
    · exact (hs.reaches call h).covered hx hgt hhigh (List.mem_append_right _ List.mem_cons_self)
  all_goals
    intro c hcall
    simp [LoopState.advanced, hp] at hcall

lemma Step.complete (hi : J.schedule.interval = 0 ∨ second ≤ J.schedule.interval) (hc : J.schedule.cron.Advances)
    (hO : Visits J.schedule anchor start O) (hg : Timely J O s i) (h : Step J s i t)
    (hs : Complete J O start anchor s) : Complete J O start anchor t := by
  have hload := (h.remembers hs.remembered).2
  have hO' : Visits J.schedule s.mem.anchor start O := hs.anchored ▸ hO
  have hpos : 0 ≤ J.schedule.interval := by
    simp only [second] at hi
    omega
  cases h.effect with
  | keep hm hcalls hp =>
    refine hs.transfer hm (fun x hx => hcalls ▸ hx) hload fun call hcall => ?_
    rcases hp with hp | hp
    · simp [hp] at hcall
    · exact ⟨hs.ahead call (hp ▸ hcall), hs.reaches call (hp ▸ hcall)⟩
  | choose u n hclock hpc hn ht =>
    subst ht
    refine hs.transfer rfl (fun _ hx => hx) rfl fun call hcall => ?_
    obtain rfl := Option.some.inj hcall
    have ha := hg.anchored u hclock
    exact ⟨watermark_lt_nextFire hc hpos ha hn, nextFire_reaches hO' hs.started ha hn (hg.early u hclock hpc)⟩
  | recompute m u n hclock hpc hu hn ht =>
    subst ht
    refine hs.transfer rfl (fun _ hx => hx) rfl fun call hcall => ?_
    obtain rfl := Option.some.inj hcall
    have ha := hg.anchored u hclock
    -- The clock is still before the pending fire, which precedes every pending occurrence.
    have hm : Reaches O s.watermark (.trigger m) := hs.reaches _ (by rw [hpc]; rfl)
    exact ⟨watermark_lt_nextFire hc hpos ha hn,
      nextFire_reaches hO' hs.started ha hn fun x hx hlt => hu.trans_le (hm x hx hlt)⟩
  | overdue now ctx o _ hpc ho hcount ht =>
    subst ht
    refine hs.transfer rfl (fun _ hx => hx) rfl fun call hcall => ?_
    obtain rfl := Option.some.inj hcall
    exact ⟨watermark_lt_overdue hc ho hcount,
      overdue_reaches hi hc hO' hs.started ho hcount (hg.counted now hpc)⟩
  | adopt now anchor last hl => simp [hs.remembered.2] at hl
  | fail call pc h hp ht =>
    subst ht
    refine hs.transfer rfl (fun _ hx => hx.append _) hload fun c hcall => ?_
    simp [LoopState.called, hp] at hcall
  | succeed call pc hcall hp ht =>
    subst ht
    exact hs.succeed hcall hload hp

end

theorem loop_covers_occurrences {J : Job} {s t : LoopState} {now : ℤ} {inputs : List Input}
    (hc : J.schedule.cron.Advances) (hJ : Steady J.schedule s.watermark) (hpc : s.pc = .ready now)
    (hmem : s.mem.Known J)
    (h : Run (guarded (Step J) (Timely J (iterates J.schedule s.mem.anchor s.mem.last))) s inputs t) :
    ∀ x ∈ iterates J.schedule s.mem.anchor s.mem.last, s.watermark < x → x ≤ t.watermark →
      Covered (iterates J.schedule s.mem.anchor s.mem.last) t.calls x := by
  have hi : J.schedule.interval = 0 ∨ second ≤ J.schedule.interval := hJ.symm.imp And.left id
  have hs : Complete J (iterates J.schedule s.mem.anchor s.mem.last) s.watermark s.mem.anchor s := by
    refine ⟨rfl, le_rfl, ⟨hmem, by rw [hpc]; rfl⟩, fun x _ hlow hhigh => ?_, ?_, ?_⟩
    · omega
    all_goals simp [hpc, Pc.call]
  exact (h.invariant (fun s i t hstep hs => hstep.2.complete hi hc (iterates_visited hJ) hstep.1 hs) hs).covered

def everySecondReady : LoopState := ⟨⟨true, "every-second", 0, none, false⟩, none, .ready 0, []⟩

lemma everySecond_steady : Steady everySecond.schedule everySecondReady.watermark := .inl le_rfl

lemma everySecond_not_early {x : ℤ} (hx : x ∈ iterates everySecond.schedule 0 none) : 0 < x :=
  lt_iterate everySecond_advances hx

lemma everySecond_timely :
    Run (guarded (Step everySecond) (Timely everySecond (iterates everySecond.schedule 0 none))) everySecondReady
      [.calculate .background, .clock 0, .wrote true, .clock second, .ran true]
      ⟨⟨true, "every-second", 0, some second, false⟩, some (none, some second), .following,
      [(.trigger second, true)]⟩ :=
  .cons ⟨⟨nofun, nofun, by simp [everySecond]⟩, .onTime (o := .empty) rfl rfl rfl rfl⟩ <|
  .cons ⟨⟨by simp [everySecond, second], fun t ht _ x hx _ => by
    obtain rfl := Input.clock.inj ht
    exact everySecond_not_early hx, nofun⟩, .chosen (n := second) rfl rfl⟩ <|
  .cons ⟨⟨nofun, nofun, nofun⟩, .published rfl (by simp [everySecondReady, LoopState.goto])⟩ <|
  .cons ⟨⟨by simp [everySecond, second], nofun, nofun⟩, .due rfl le_rfl⟩ <|
  .cons ⟨⟨nofun, nofun, nofun⟩, .fired rfl⟩ <|
  .nil _

theorem loop_covers_first_occurrence :
    second ∈ iterates everySecond.schedule 0 none ∧
      Covered (iterates everySecond.schedule 0 none) [(.trigger second, true)] second :=
  have hmem : second ∈ iterates everySecond.schedule 0 none := .first rfl
  ⟨hmem, loop_covers_occurrences everySecond_advances everySecond_steady rfl ⟨rfl, rfl⟩ everySecond_timely second
    hmem (by decide) le_rfl⟩

def clocks (inputs : List Input) : List ℤ :=
  inputs.filterMap fun
    | .clock t => some t
    | _ => none

theorem loop_loses_occurrences :
    ∃ inputs t, (clocks inputs).Pairwise (· ≤ ·) ∧ Run (Step everySecond) everySecondReady inputs t ∧
      2 * second ∈ iterates everySecond.schedule 0 none ∧
      everySecondReady.watermark < 2 * second ∧ 2 * second ≤ t.watermark ∧
      ¬ Covered (iterates everySecond.schedule 0 none) t.calls (2 * second) := by
  refine ⟨[.calculate .background, .clock 0, .wrote true, .clock second, .ran true, .clock 3500000000, .wrote true,
    .clock 3500000000, .unchanged, .clock (4 * second), .ran true],
    ⟨⟨true, "every-second", 0, some (4 * second), false⟩, some (some second, some (4 * second)), .following,
      [(.trigger second, true), (.trigger (4 * second), true)]⟩, by decide,
    .cons (.onTime (o := .empty) rfl rfl rfl rfl) <|
    .cons (.chosen (n := second) rfl rfl) <|
    .cons (.published rfl (by simp [everySecondReady, LoopState.goto])) <|
    .cons (.due rfl le_rfl) <|
    .cons (.fired rfl) <|
    .cons (.followed (n := 4 * second) rfl rfl) <|
    .cons (.announced rfl (by simp [everySecondReady, LoopState.goto, LoopState.persist, LoopState.advanced])) <|
    .cons (.chosen (n := 4 * second) rfl rfl) <|
    .cons (.unpublished rfl rfl) <|
    .cons (.due rfl le_rfl) <|
    .cons (.fired rfl) <|
    .nil _, .next (.first rfl) (show WalkStep _ _ second _ from rfl), by decide, by decide, ?_⟩
  rintro (h | ⟨o, _, _, h | ⟨h, _⟩⟩)
  · simp [second] at h
  · simp at h
  · simp at h

end Minicrond.Scheduler
