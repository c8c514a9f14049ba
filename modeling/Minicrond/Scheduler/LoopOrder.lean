import Minicrond.Scheduler.Loop
import Minicrond.Scheduler.Progress

/-! The successful calls of one scheduler loop: instants of the schedule in strictly increasing order. -/

namespace Minicrond.Scheduler

open Minicrond.Library Minicrond.Time

def LoopState.successes (s : LoopState) : List ℤ := (s.calls.filter (·.2)).map (·.1.scheduled)

def Ahead (J : Job) (m : ScheduleMemory) (x : ℤ) : Prop :=
  (∀ l, m.last = some l → l < x) ∧ Fires J.schedule m.anchor x

structure Ordered (J : Job) (s : LoopState) : Prop where
  increasing : s.successes.Pairwise (· < ·)
  bounded : ∀ x ∈ s.successes, ∃ l, s.mem.last = some l ∧ x ≤ l
  fires : ∀ x ∈ s.successes, Fires J.schedule s.mem.anchor x
  ahead : ∀ call, s.pc.call J = some call → Ahead J s.mem call.scheduled

section

variable {J : Job} {s t : LoopState} {i : Input}

lemma successes_called (call : Call) (pc : Pc) : (s.called call false pc).successes = s.successes := by
  simp [LoopState.successes, LoopState.called]

lemma successes_advanced (call : Call) (pc : Pc) :
    (s.advanced call pc).successes = s.successes ++ [call.scheduled] := by
  simp [LoopState.successes, LoopState.advanced]

lemma anchor_eq (h : t.mem.position = s.mem.position) : t.mem.anchor = s.mem.anchor := by
  simp only [ScheduleMemory.position, Prod.mk.injEq] at h
  exact h.2.2.1

lemma last_eq (h : t.mem.position = s.mem.position) : t.mem.last = s.mem.last := by
  simp only [ScheduleMemory.position, Prod.mk.injEq] at h
  exact h.2.2.2

lemma known_iff (h : t.mem.position = s.mem.position) : t.mem.Known J ↔ s.mem.Known J := by
  simp only [ScheduleMemory.position, Prod.mk.injEq] at h
  rw [ScheduleMemory.Known, ScheduleMemory.Known, h.1, h.2.1]

lemma Ordered.transfer (hs : Ordered J s) (hm : t.mem.position = s.mem.position) (hc : t.successes = s.successes)
    (hp : ∀ call, t.pc.call J = some call → Ahead J s.mem call.scheduled) : Ordered J t where
  increasing := hc ▸ hs.increasing
  bounded := by
    rw [hc, last_eq hm]
    exact hs.bounded
  fires := by
    rw [hc, anchor_eq hm]
    exact hs.fires
  ahead := by
    simp only [Ahead, last_eq hm, anchor_eq hm]
    exact hp

lemma ahead_nextFire (hc : J.schedule.cron.Advances) {m : ScheduleMemory} {u n : ℤ} (h : J.nextFire m u = .ok n) :
    Ahead J m n := by
  refine ⟨fun l hl => ?_, fires_nextFireDistinct h⟩
  exact (le_maxTime_left hl u).trans_lt (lt_nextFireDistinct hc h)

lemma ahead_overdue (hc : J.schedule.cron.Advances) {m : ScheduleMemory} {ctx : CatchUpContext} {now : ℤ}
    {o : OverdueFires} (h : J.overdue ctx m now = .ok o) (ho : o.count ≠ 0) : Ahead J m o.latest := by
  obtain ⟨hfirst, hle, hfires⟩ := overdue_value hc h ho
  refine ⟨fun l hl => ?_, hfires⟩
  have hlt := lt_nextFireDistinct hc hfirst
  rw [hl] at hlt
  exact hlt.trans_le hle

lemma catchUpCall_scheduled (o : OverdueFires) : (J.catchUpCall o).scheduled = o.latest := by
  cases hc : J.catchUp <;> simp [Job.catchUpCall, hc, Call.scheduled]

lemma Ordered.succeed (hs : Ordered J s) {call : Call} {pc : Pc} (h : s.pc.call J = some call)
    (hp : pc.call J = none) : Ordered J (s.advanced call pc) := by
  obtain ⟨hlast, hfires⟩ := hs.ahead call h
  have hlt : ∀ x ∈ s.successes, x < call.scheduled := by
    intro x hx
    obtain ⟨l, hl, hle⟩ := hs.bounded x hx
    exact hle.trans_lt (hlast l hl)
  constructor
  · rw [successes_advanced, List.pairwise_append]
    exact ⟨hs.increasing, List.pairwise_singleton _ _, by simpa using hlt⟩
  · rw [successes_advanced]
    intro x hx
    refine ⟨call.scheduled, rfl, ?_⟩
    rcases List.mem_append.mp hx with hx | hx
    · exact (hlt x hx).le
    · exact (List.mem_singleton.mp hx).le
  · rw [successes_advanced]
    intro x hx
    rcases List.mem_append.mp hx with hx | hx
    · exact hs.fires x hx
    · exact List.mem_singleton.mp hx ▸ hfires
  · intro c hc
    simp [LoopState.advanced, hp] at hc

lemma Step.ordered (hc : J.schedule.cron.Advances) (h : Step J s i t) (hphase : s.Phase J) (hs : Ordered J s) :
    Ordered J t := by
  cases h.effect with
  | keep hm hcalls hp =>
    refine hs.transfer hm (by rw [LoopState.successes, hcalls]; rfl) fun call hcall => ?_
    rcases hp with hp | hp
    · simp [hp] at hcall
    · exact hs.ahead call (hp ▸ hcall)
  | choose u n _ _ hn ht | recompute m u n _ _ _ hn ht =>
    subst ht
    refine hs.transfer rfl rfl fun call hcall => ?_
    obtain rfl := Option.some.inj hcall
    exact ahead_nextFire hc hn
  | overdue now ctx o _ _ ho hcount ht =>
    subst ht
    refine hs.transfer rfl rfl fun call hcall => ?_
    obtain rfl := Option.some.inj hcall
    rw [catchUpCall_scheduled]
    exact ahead_overdue hc ho hcount
  | adopt now anchor last hl hm hcalls hp =>
    have hempty : t.successes = [] := by
      rcases hphase with ⟨_, hn⟩ | ⟨_, he, _⟩
      · simp [hl] at hn
      · rw [LoopState.successes, hcalls, he]
        rfl
    refine ⟨?_, ?_, ?_, ?_⟩
    · rw [hempty]
      exact List.Pairwise.nil
    · simp [hempty]
    · simp [hempty]
    · simp [hp, Pc.call]
  | fail call pc h hp ht =>
    subst ht
    refine hs.transfer rfl (successes_called call pc) fun c hcall => ?_
    simp [LoopState.called, hp] at hcall
  | succeed call pc h hp ht => exact ht ▸ hs.succeed h hp

end

theorem loop_calls_increasing {J : Job} (hc : J.schedule.cron.Advances) {inputs : List Input} {s : LoopState}
    (h : Run (Step J) LoopState.fresh inputs s) :
    s.successes.Pairwise (· < ·) ∧ ∀ x ∈ s.successes, Fires J.schedule s.mem.anchor x := by
  have hinv : s.Phase J ∧ Ordered J s := by
    refine Run.invariant (P := fun s => s.Phase J ∧ Ordered J s) (fun s i t hstep hs => ?_) h ?_
    · exact ⟨hstep.phase hs.1, hstep.ordered hc hs.1 hs.2⟩
    · refine ⟨LoopState.fresh_phase, List.Pairwise.nil, ?_, ?_, ?_⟩ <;>
        simp [LoopState.fresh, LoopState.successes, Pc.call]
  exact ⟨hinv.2.increasing, hinv.2.fires⟩

def everySecond : Job := ⟨⟨"@every 1s", second, Zone.utc, ⟨fun _ _ => none⟩⟩, "every-second", .latest⟩

lemma everySecond_advances : everySecond.schedule.cron.Advances := fun _ _ _ h => by simp [everySecond] at h

lemma everySecond_first :
    Run (Step everySecond) LoopState.fresh
      [.clock 0, .state .noRows, .wrote true, .calculate .background, .clock 0, .wrote true, .clock second,
      .ran true] ⟨⟨true, "every-second", 0, some second, false⟩, some (none, some second), .following,
      [(.trigger second, true)]⟩ :=
  .cons (.read rfl (by simp [LoopState.fresh])) <|
  .cons (.missing rfl) <|
  .cons (.reset rfl) <|
  .cons (.onTime (o := .empty) rfl rfl rfl rfl) <|
  .cons (.chosen (n := second) rfl rfl) <|
  .cons (.published rfl (by simp [LoopState.goto, LoopState.persist, LoopState.adopt])) <|
  .cons (.due rfl le_rfl) <|
  .cons (.fired rfl) <|
  .nil _

lemma everySecond_second :
    Run (Step everySecond)
      ⟨⟨true, "every-second", 0, some second, false⟩, some (none, some second), .following,
        [(.trigger second, true)]⟩
      [.clock 0, .wrote true, .clock 0, .unchanged, .clock 0, .timer, .clock (2 * second), .ran true]
      ⟨⟨true, "every-second", 0, some (2 * second), false⟩, some (some second, some (2 * second)), .following,
        [(.trigger second, true), (.trigger (2 * second), true)]⟩ :=
  .cons (.followed (n := 2 * second) rfl rfl) <|
  .cons (.announced rfl (by simp [LoopState.goto])) <|
  .cons (.chosen (n := 2 * second) rfl rfl) <|
  .cons (.unpublished rfl rfl) <|
  .cons (.early rfl (by decide)) <|
  .cons (.wake rfl) <|
  .cons (.reached rfl le_rfl) <|
  .cons (.fired rfl) <|
  .nil _

/-- The clock is set back to 0 after the first fire. -/
theorem loop_calls_increasing_clock_back :
    [second, 2 * second].Pairwise (· < ·) ∧ ∀ x ∈ [second, 2 * second], Fires everySecond.schedule 0 x :=
  loop_calls_increasing everySecond_advances (everySecond_first.append everySecond_second)

end Minicrond.Scheduler
