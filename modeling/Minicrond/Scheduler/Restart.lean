import Minicrond.Scheduler.LoopOrder

/-! A scheduler loop started on a database that already holds scheduled runs: which recorded
occurrences it may call for again. Instants are stored in whole microseconds. -/

namespace Minicrond.Scheduler

open Minicrond.Library Minicrond.Time

structure StateRow where
  hash : String
  anchorUs : ℤ
  lastUs : Option ℤ
  nextUs : Option ℤ

structure Stored where
  state : Option StateRow
  rows : List ℤ

namespace Stored

variable (db : Stored)

def scheduleState : StateRead :=
  match db.state with
  | none => .noRows
  | some r => .found (ofUnixMicro r.anchorUs) (r.lastUs.map ofUnixMicro) (r.nextUs.map ofUnixMicro) r.hash

def lastScheduledFire : Option ℤ := db.rows.max?.map ofUnixMicro

def holds (hash : String) : Prop := ∃ r, db.state = some r ∧ r.hash = hash

end Stored

/-- Database reads succeed. A clock that has no stored state to start from is not behind the
recorded occurrences. -/
def ReadsFrom (J : Job) (db : Stored) (_ : LoopState) : Input → Prop
  | .state r => r = db.scheduleState
  | .fired r => r = .ok db.lastScheduledFire
  | .clock t => ¬ db.holds J.hash → ∀ row ∈ db.rows, ofUnixMicro row ≤ t
  | _ => True

def Replays (J : Job) (anchor : ℤ) (rows : List ℤ) : Call → Prop
  | .trigger x => unixMicro x ∈ rows
  | .catchUpLatest o => unixMicro o.latest ∈ rows
  | .recordMissed o => ∃ x, Fires J.schedule anchor x ∧ o.first ≤ x ∧ x ≤ o.latest ∧ unixMicro x ∈ rows

section

variable {J : Job} {db : Stored} {s t : LoopState} {i : Input} {m : ScheduleMemory} {c : CompiledSchedule}

lemma second_dvd_skipFolds (hc : c.cron.Advances) {n : ℕ} {x y : ℤ} (hx : second ∣ x)
    (h : c.skipFolds n x = .ok y) : second ∣ y := by
  induction n generalizing x with
  | zero =>
    rw [CompiledSchedule.skipFolds, Except.ok.injEq] at h
    exact h ▸ hx
  | succ n ih =>
    rw [CompiledSchedule.skipFolds] at h
    cases hf : secondFoldEnd c.loc x with
    | none =>
      simp only [hf, Except.ok.injEq] at h
      exact h ▸ hx
    | some e =>
      cases hn : c.cron.next c.loc (e - second) with
      | none => simp [hf, hn] at h
      | some z =>
        simp only [hf, hn] at h
        exact ih (hc _ _ _ hn).2 h

lemma second_dvd_nextCron (hc : c.cron.Advances) {after x : ℤ} (h : c.nextCron after = .ok x) :
    second ∣ x := by
  rw [CompiledSchedule.nextCron] at h
  cases hn : c.cron.next c.loc (c.searchFrom after) with
  | none => simp [hn] at h
  | some y =>
    cases hs : c.skipFolds 4 y with
    | error e => simp [hn, hs] at h
    | ok z =>
      have hz := second_dvd_skipFolds hc (hc _ _ _ hn).2 hs
      simp only [hn, hs, Except.ok.injEq] at h
      rcases coalesceGap_eq c after z with he | he
      · exact h ▸ he.symm ▸ hz
      · exact h ▸ c.loc.second_dvd_break _ he.mem.1

lemma Fires.aligned (hc : c.cron.Advances) (hus : microsecond ∣ c.interval) {anchor x : ℤ}
    (ha : 0 < c.interval → microsecond ∣ anchor) (h : Fires c anchor x) : microsecond ∣ x := by
  rw [Fires] at h
  split_ifs at h with hi
  · obtain ⟨k, _, rfl⟩ := h
    exact Int.dvd_add (ha hi) (Int.dvd_mul_of_dvd_right hus)
  · obtain ⟨t, ht⟩ := h
    rw [CompiledSchedule.nextFire, if_neg hi] at ht
    exact (show microsecond ∣ second by decide).trans (second_dvd_nextCron hc ht)

structure Behind (J : Job) (db : Stored) (m : ScheduleMemory) : Prop where
  rows : ∀ row ∈ db.rows, ofUnixMicro row ≤ m.last.getD m.anchor
  origin : (microsecond ∣ m.anchor ∧ (m.last = none → db.rows = [])) ∨
    (¬ db.holds J.hash ∧ ∀ row ∈ db.rows, ofUnixMicro row ≤ m.anchor)

lemma Behind.fresh (hc : J.schedule.cron.Advances) (hus : microsecond ∣ J.schedule.interval)
    (h : Behind J db m) {x : ℤ} (hx : Fires J.schedule m.anchor x) (hlt : ∀ row ∈ db.rows, ofUnixMicro row < x) :
    unixMicro x ∉ db.rows := by
  intro hmem
  have hrow := hlt _ hmem
  by_cases hgrid : 0 < J.schedule.interval ∧ ¬ microsecond ∣ m.anchor
  · -- A position taken from the clock: the first occurrence is at least a microsecond later.
    obtain ⟨hi, ha⟩ := hgrid
    have horigin := (h.origin.resolve_left fun hl => ha hl.1).2 _ hmem
    rw [Fires, if_pos hi] at hx
    obtain ⟨k, hk, rfl⟩ := hx
    have hstep := Int.mul_le_mul_of_nonneg_right hk hi.le
    have hle := Int.le_of_dvd hi hus
    simp only [unixMicro, ofUnixMicro, microsecond] at *
    omega
  · have haligned := hx.aligned hc hus fun hi => by
      by_contra hn
      exact hgrid ⟨hi, hn⟩
    have := lt_unixMicro haligned hrow
    omega

def Loaded (J : Job) (db : Stored) : Pc → Prop
  | .reading now => ¬ db.holds J.hash → ∀ row ∈ db.rows, ofUnixMicro row ≤ now
  | .flooring _ anchor _ _ => microsecond ∣ anchor
  | .resetting now => ¬ db.holds J.hash ∧ ∀ row ∈ db.rows, ofUnixMicro row ≤ now
  | _ => True

lemma Step.loaded (h : Step J s i t) (hg : ReadsFrom J db s i) (hs : Loaded J db s.pc) : Loaded J db t.pc := by
  cases h with
  | read => exact hg
  | found h =>
    simp only [ReadsFrom, Stored.scheduleState] at hg
    cases hr : db.state with
    | none => simp [hr] at hg
    | some r =>
      simp only [hr, StateRead.found.injEq] at hg
      exact hg.1 ▸ Dvd.intro_left _ rfl
  | missing h =>
    rw [h] at hs
    have hn : ¬ db.holds J.hash := by
      rintro ⟨r, hr, _⟩
      simp [ReadsFrom, Stored.scheduleState, hr] at hg
    exact ⟨hn, hs hn⟩
  | changed h hh =>
    rw [h] at hs
    have hn : ¬ db.holds J.hash := by
      rintro ⟨r, hr, he⟩
      simp only [ReadsFrom, Stored.scheduleState, hr, StateRead.found.injEq] at hg
      exact hh (hg.2.2.2.trans he)
    exact ⟨hn, hs hn⟩
  | floored => split_ifs <;> trivial
  | _ => trivial

lemma le_lastScheduledFire {row : ℤ} (h : row ∈ db.rows) :
    ∃ f, db.lastScheduledFire = some f ∧ ofUnixMicro row ≤ f := by
  cases hm : db.rows.max? with
  | none => simp [List.max?_eq_none_iff.mp hm] at h
  | some m =>
    refine ⟨ofUnixMicro m, by simp [Stored.lastScheduledFire, hm], ?_⟩
    have := (List.max?_eq_some_iff.mp hm).2 row h
    simp only [ofUnixMicro, microsecond]
    omega

lemma le_floorLast {row : ℤ} (h : row ∈ db.rows) (stored : Option ℤ) :
    ∃ l, floorLast (.ok db.lastScheduledFire) stored = some l ∧ ofUnixMicro row ≤ l := by
  obtain ⟨f, hf, hle⟩ := le_lastScheduledFire h
  simp only [floorLast, hf, firedAfter, Option.elim_some]
  cases stored with
  | none => exact ⟨f, by simp, hle⟩
  | some l =>
    simp only [Option.elim_some, decide_eq_true_eq]
    split_ifs with hlt
    · exact ⟨f, rfl, hle⟩
    · exact ⟨l, rfl, by omega⟩

lemma Behind.lt_next (hc : J.schedule.cron.Advances) (h : Behind J db m) {u n : ℤ}
    (hu : ReadsFrom J db s (.clock u)) (hn : J.nextFire m u = .ok n) : ∀ row ∈ db.rows, ofUnixMicro row < n := by
  intro row hrow
  have hlt := lt_nextFireDistinct hc hn
  cases hl : m.last with
  | some l =>
    have hle := h.rows row hrow
    rw [hl] at hle
    exact hle.trans_lt ((le_maxTime_left hl u).trans_lt hlt)
  | none =>
    rcases h.origin with ⟨_, he⟩ | ⟨hn, _⟩
    · simp [he hl] at hrow
    · rw [hl] at hlt
      exact (hu hn row hrow).trans_lt hlt

lemma Behind.lt_first (hc : J.schedule.cron.Advances) (h : Behind J db m) {ctx : CatchUpContext}
    {now : ℤ} {o : OverdueFires} (ho : J.overdue ctx m now = .ok o) (hcount : o.count ≠ 0) :
    ∀ row ∈ db.rows, ofUnixMicro row < o.first := fun row hrow =>
  (h.rows row hrow).trans_lt (lt_nextFireDistinct hc (overdue_value hc ho hcount).1)

lemma Behind.of_position {m m' : ScheduleMemory} (h : Behind J db m) (ha : m'.anchor = m.anchor)
    (hl : m'.last = m.last) : Behind J db m' := by
  obtain ⟨hrows, horigin⟩ := h
  rw [← ha, ← hl] at hrows horigin
  exact ⟨hrows, horigin⟩

structure Unrecorded (J : Job) (db : Stored) (anchor : ℤ) (call : Call) : Prop where
  later : ∀ row ∈ db.rows, ofUnixMicro row < call.scheduled
  fresh : ¬ Replays J anchor db.rows call

structure Safe (J : Job) (db : Stored) (s : LoopState) : Prop where
  phase : s.Phase J
  loaded : Loaded J db s.pc
  behind : s.mem.Known J → Behind J db s.mem
  pending : ∀ call, s.pc.call J = some call → Unrecorded J db s.mem.anchor call
  calls : ∀ p ∈ s.calls, ¬ Replays J s.mem.anchor db.rows p.1

lemma Safe.trigger (hc : J.schedule.cron.Advances) (hus : microsecond ∣ J.schedule.interval) (hs : Safe J db s)
    (hk : s.mem.Known J) {u n : ℤ} (hu : ReadsFrom J db s (.clock u)) (hn : J.nextFire s.mem u = .ok n) :
    Unrecorded J db s.mem.anchor (.trigger n) := by
  have hlt := (hs.behind hk).lt_next hc hu hn
  exact ⟨hlt, (hs.behind hk).fresh hc hus (fires_nextFireDistinct hn) hlt⟩

lemma Safe.catchUp (hc : J.schedule.cron.Advances) (hus : microsecond ∣ J.schedule.interval) (hs : Safe J db s)
    (hk : s.mem.Known J) {ctx : CatchUpContext} {now : ℤ} {o : OverdueFires} (ho : J.overdue ctx s.mem now = .ok o)
    (hcount : o.count ≠ 0) : Unrecorded J db s.mem.anchor (J.catchUpCall o) := by
  have hfirst := (hs.behind hk).lt_first hc ho hcount
  obtain ⟨_, hle, hfires⟩ := overdue_value hc ho hcount
  have hlatest : ∀ row ∈ db.rows, ofUnixMicro row < o.latest := fun row hrow => (hfirst row hrow).trans_le hle
  refine ⟨by rwa [catchUpCall_scheduled], ?_⟩
  cases hp : J.catchUp with
  | latest =>
    simp only [Job.catchUpCall, hp, Replays]
    exact (hs.behind hk).fresh hc hus hfires hlatest
  | none =>
    simp only [Job.catchUpCall, hp, Replays]
    rintro ⟨x, hx, hlow, _, hmem⟩
    exact (hs.behind hk).fresh hc hus hx (fun row hrow => (hfirst row hrow).trans_le hlow) hmem

lemma Safe.call_fresh (hs : Safe J db s) {call : Call} (hcall : s.pc.call J = some call) (ok : Bool) :
    ∀ p ∈ s.calls ++ [(call, ok)], ¬ Replays J s.mem.anchor db.rows p.1 := by
  intro p hp
  rcases List.mem_append.mp hp with hp | hp
  · exact hs.calls p hp
  · rw [List.mem_singleton.mp hp]
    exact (hs.pending call hcall).fresh

lemma Behind.succeed {m : ScheduleMemory} (h : Behind J db m) {x : ℤ} (hx : ∀ row ∈ db.rows, ofUnixMicro row < x) :
    Behind J db { m with last := some x } := by
  refine ⟨fun row hrow => (hx row hrow).le, ?_⟩
  rcases h.origin with ⟨ha, _⟩ | hn
  · exact .inl ⟨ha, nofun⟩
  · exact .inr hn

lemma behind_adopted (hg : ReadsFrom J db s i) (hl : Loaded J db s.pc) {now anchor : ℤ}
    {last : Option ℤ} (ha : m.anchor = anchor) (hm : m.last = last)
    (hsrc : (anchor = now ∧ last = none ∧ (i = .state .failed ∨ s.pc = .resetting now)) ∨
      ∃ r stored next, i = .fired r ∧ s.pc = .flooring now anchor stored next ∧ last = floorLast r stored) :
    Behind J db m := by
  rcases hsrc with ⟨rfl, rfl, rfl | hpc⟩ | ⟨r, stored, next, rfl, hpc, rfl⟩
  · -- A failed read is excluded.
    simp only [ReadsFrom, Stored.scheduleState] at hg
    cases hr : db.state <;> simp [hr] at hg
  · rw [hpc] at hl
    refine ⟨?_, .inr ⟨hl.1, ?_⟩⟩
    · rw [hm, ha]
      exact hl.2
    · rw [ha]
      exact hl.2
  · rw [hpc] at hl
    obtain rfl : r = .ok db.lastScheduledFire := hg
    refine ⟨fun row hrow => ?_, .inl ⟨ha ▸ hl, fun hn => ?_⟩⟩
    · obtain ⟨l, he, hle⟩ := le_floorLast hrow stored
      rw [hm, he]
      exact hle
    · refine List.eq_nil_iff_forall_not_mem.mpr fun row hrow => ?_
      obtain ⟨l, he, _⟩ := le_floorLast hrow stored
      simp [hm, he] at hn

lemma Step.safe (hc : J.schedule.cron.Advances) (hus : microsecond ∣ J.schedule.interval) (hg : ReadsFrom J db s i)
    (h : Step J s i t) (hs : Safe J db s) : Safe J db t := by
  have hphase := h.phase hs.phase
  have hload := h.loaded hg hs.loaded
  cases h.effect with
  | keep hm hcalls hp =>
    refine ⟨hphase, hload, fun hk => ?_, fun call hcall => ?_, ?_⟩
    · exact (hs.behind ((known_iff hm).mp hk)).of_position (anchor_eq hm) (last_eq hm)
    · rw [anchor_eq hm]
      rcases hp with hp | hp
      · simp [hp] at hcall
      · exact hs.pending call (hp ▸ hcall)
    · rw [anchor_eq hm, hcalls]
      exact hs.calls
  | choose u n hi hpc hn ht | recompute m u n hi hpc _ hn ht =>
    subst hi ht
    refine ⟨hphase, hload, hs.behind, fun call hcall => ?_, hs.calls⟩
    obtain rfl := Option.some.inj hcall
    exact hs.trigger hc hus (hs.phase.known (by simp [hpc, Pc.loading])) hg hn
  | overdue now ctx o hi hpc ho hcount ht =>
    subst ht
    refine ⟨hphase, hload, hs.behind, fun call hcall => ?_, hs.calls⟩
    obtain rfl := Option.some.inj hcall
    exact hs.catchUp hc hus (hs.phase.known (by simp [hpc, Pc.loading])) ho hcount
  | adopt now anchor last hl hm hcalls hp hsrc =>
    simp only [ScheduleMemory.position, Prod.mk.injEq] at hm
    refine ⟨hphase, hload, fun _ => behind_adopted hg hs.loaded hm.2.2.1 hm.2.2.2 hsrc, ?_, ?_⟩
    · simp [hp, Pc.call]
    · rcases hs.phase with ⟨_, hn⟩ | ⟨_, he, _⟩
      · simp [hl] at hn
      · simp [hcalls, he]
  | fail call pc hcall hp ht =>
    subst ht
    refine ⟨hphase, hload, hs.behind, fun c hc => ?_, hs.call_fresh hcall false⟩
    simp [LoopState.called, hp] at hc
  | succeed call pc hcall hp ht =>
    subst ht
    refine ⟨hphase, hload, fun hk => (hs.behind hk).succeed (hs.pending call hcall).later, fun c hc => ?_,
      hs.call_fresh hcall true⟩
    simp [LoopState.advanced, hp] at hc

end

theorem restart_replays_nothing {J : Job} (hc : J.schedule.cron.Advances) (hus : microsecond ∣ J.schedule.interval)
    {db : Stored} {inputs : List Input} {s : LoopState}
    (h : Run (guarded (Step J) (ReadsFrom J db)) LoopState.fresh inputs s) :
    ∀ p ∈ s.calls, ¬ Replays J s.mem.anchor db.rows p.1 := by
  have hs : Safe J db LoopState.fresh := by
    refine ⟨LoopState.fresh_phase, trivial, fun hk => ?_, ?_, ?_⟩
    · simp [ScheduleMemory.Known, LoopState.fresh] at hk
    · simp [LoopState.fresh, Pc.call]
    · simp [LoopState.fresh]
  exact (h.invariant (fun s i t hstep hs => hstep.2.safe hc hus hstep.1 hs) hs).calls

def everySecondCrashed : Stored := ⟨some ⟨"every-second", 0, none, some 1000000⟩, [1000000]⟩

lemma everySecond_restarted :
    Run (guarded (Step everySecond) (ReadsFrom everySecond everySecondCrashed)) LoopState.fresh
      [.clock 2500000000, .state everySecondCrashed.scheduleState,
        .fired (.ok everySecondCrashed.lastScheduledFire), .calculate .background, .ran true]
      ⟨⟨true, "every-second", 0, some (2 * second), false⟩, none, .saving,
        [(.catchUpLatest ⟨2 * second, 2 * second, 1, true⟩, true)]⟩ :=
  .cons ⟨fun hn => (hn ⟨_, rfl, rfl⟩).elim, .read rfl (by simp [LoopState.fresh])⟩ <|
  .cons ⟨rfl, .found rfl⟩ <|
  .cons ⟨rfl, .floored rfl⟩ <|
  .cons ⟨trivial, .overdue (o := ⟨2 * second, 2 * second, 1, true⟩) rfl rfl rfl (by decide)⟩ <|
  .cons ⟨trivial, .caughtUp rfl⟩ <|
  .nil _

theorem restart_replays_nothing_after_crash :
    ¬ Replays everySecond 0 everySecondCrashed.rows (.catchUpLatest ⟨2 * second, 2 * second, 1, true⟩) :=
  restart_replays_nothing everySecond_advances (by decide) everySecond_restarted _ (List.mem_singleton_self _)

def halfMicrosecond : Job := ⟨⟨"@every 1.0000005s", 1000000500, Zone.utc, ⟨fun _ _ => none⟩⟩, "half-us", .latest⟩

lemma halfMicrosecond_first :
    Run (Step halfMicrosecond) LoopState.fresh
      [.clock 0, .state .noRows, .wrote true, .calculate .background, .clock 0, .wrote true, .clock 1000000500,
        .ran true]
      ⟨⟨true, "half-us", 0, some 1000000500, false⟩, some (none, some 1000000500), .following,
        [(.trigger 1000000500, true)]⟩ :=
  .cons (.read rfl (by simp [LoopState.fresh])) <|
  .cons (.missing rfl) <|
  .cons (.reset rfl) <|
  .cons (.onTime (o := .empty) rfl rfl rfl rfl) <|
  .cons (.chosen (n := 1000000500) rfl rfl) <|
  .cons (.published rfl (by simp [LoopState.goto, LoopState.persist, LoopState.adopt])) <|
  .cons (.due rfl le_rfl) <|
  .cons (.fired rfl) <|
  .nil _

theorem restart_replays_truncated_fire :
    ∃ (before after : List Input) (s t : LoopState) (db : Stored),
      Run (Step halfMicrosecond) LoopState.fresh before s ∧ (Call.trigger 1000000500, true) ∈ s.calls ∧
      db.state = some ⟨"half-us", unixMicro s.mem.anchor, s.mem.last.map unixMicro, none⟩ ∧
      db.rows = [unixMicro 1000000500] ∧
      Run (guarded (Step halfMicrosecond) (ReadsFrom halfMicrosecond db)) LoopState.fresh after t ∧
      ∃ p ∈ t.calls, p.1.scheduled = 1000000500 ∧ Replays halfMicrosecond t.mem.anchor db.rows p.1 := by
  refine ⟨_, [.clock 1500000000, .state (.found 0 (some second) none "half-us"), .fired (.ok (some second)),
      .calculate .background, .ran true], _,
    ⟨⟨true, "half-us", 0, some 1000000500, false⟩, some (some second, none), .saving,
      [(.catchUpLatest ⟨1000000500, 1000000500, 1, true⟩, true)]⟩,
    ⟨some ⟨"half-us", 0, some 1000000, none⟩, [1000000]⟩, halfMicrosecond_first,
    List.mem_singleton_self _, rfl, rfl,
    .cons ⟨fun hn => (hn ⟨_, rfl, rfl⟩).elim, .read rfl (by simp [LoopState.fresh])⟩ <|
    .cons ⟨rfl, .found rfl⟩ <|
    .cons ⟨rfl, .floored rfl⟩ <|
    .cons ⟨trivial, .overdue (o := ⟨1000000500, 1000000500, 1, true⟩) rfl rfl rfl (by decide)⟩ <|
    .cons ⟨trivial, .caughtUp rfl⟩ <|
    .nil _, _, List.mem_singleton_self _, rfl, ?_⟩
  simp [Replays, unixMicro, microsecond]

end Minicrond.Scheduler
