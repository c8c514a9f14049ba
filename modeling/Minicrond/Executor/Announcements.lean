import Minicrond.Executor.HistoryOrder

/-! Completion is announced once: a registered run calls the completion callback with the outcome of its process
and hands at most one retry over, whatever storage does. -/

namespace Minicrond.Executor.History

open Minicrond.Library Minicrond.Store Minicrond.Time

namespace RecordPc

def remaining : RecordPc → ℕ
  | looking => 10
  | checking => 9
  | writing n => 3 + (finishAttempts - n)
  | spooling => 2
  | registering => 1
  | recorded | rejected => 0

end RecordPc

namespace RunPc

def registered : RunPc → Bool
  | executing | persisting _ _ | supervising _ | completing _ _ | announcing _ | retrying _ | ended _ => true
  | _ => false

def remaining : RunPc → ℕ
  | executing => 27
  | persisting _ pc => 16 + pc.remaining
  | supervising _ => 14
  | completing _ pc => 3 + pc.remaining
  | announcing _ => 2
  | retrying _ => 1
  | _ => 0

end RunPc

def State.scheduled (s : State) : List RetryItem := s.heap ++ s.evidence

def Retried (j : Job) (s : State) (t : Terminal) : Prop :=
  if j.mayRetry t then (s.closing = true ∧ s.scheduled = []) ∨ ∃ now, s.scheduled = [j.retryItem now]
  else s.scheduled = []

def Told (j : Job) (s : State) : RunPc → Prop
  | .completing t pc => s.exit = some t ∧ s.finished = [] ∧ s.scheduled = [] ∧ pc ≠ .rejected
  | .announcing t => s.exit = some t ∧ s.finished = [] ∧ s.scheduled = []
  | .retrying t => s.exit = some t ∧ s.finished = [announce j.r t] ∧ s.scheduled = []
  | .ended t => s.exit = some t ∧ s.finished = [announce j.r t] ∧ Retried j s t
  | .skipped _ => True
  | _ => s.finished = [] ∧ s.scheduled = []

def Accepted (j : Job) (db : DB) : RunPc → Prop
  | .completing t (.writing _) => ∃ row ∈ db.runs, finishable j.r.id t.status row = true
  | _ => True

def Accepts (j : Job) (s : State) : Event → Prop
  | .run _ => Accepted j s.db s.run
  | _ => True

section

variable {j : Job} {s s' : State} {full : Bool} {e : Event}

/-! ## What is told -/

lemma RecordStep.frame {update : FinalItem → FinalItem} {x : Tx Unit} {tries : ℕ} {pc pc' : RecordPc}
    (h : RecordStep full update x tries s pc s' pc') :
    s'.exit = s.exit ∧ s'.finished = s.finished ∧ s'.scheduled = s.scheduled := by
  cases h with
  | spooled _ h =>
    obtain ⟨it, _, rfl⟩ := Option.map_eq_some_iff.mp h
    exact ⟨rfl, rfl, rfl⟩
  | spool now h =>
    obtain ⟨_, _, rfl⟩ := State.spool_eq_some h
    exact ⟨rfl, rfl, rfl⟩
  | _ => exact ⟨rfl, rfl, rfl⟩

lemma complete_accepted {t : Terminal} {pc pc' : RecordPc} (h : complete j full t s pc s' pc')
    (ha : Accepted j s.db (.completing t pc)) : pc' ≠ .rejected := by
  rintro rfl
  cases h with
  | rejected hat =>
    obtain ⟨row, hrow, hf⟩ := ha
    cases hat with
    | refused he => simp [finishRun_error he hrow] at hf

lemma RunStep.told {pc pc' : RunPc} (h : RunStep j full s pc s' pc') (ha : Accepted j s.db pc) (ht : Told j s pc) :
    Told j s' pc' := by
  cases h with
  | bypassed | cancelled | attempted | inserted | unavailable | declined | turnedAway | refused | refuse |
      refuseAgain | launched | spawned | persisted | unpersisted => exact ht
  | defer now h =>
    obtain ⟨_, _, rfl⟩ := State.spool_eq_some h
    exact ht
  | lost now =>
    cases j.deferred now <;> exact ht
  | @registered t | @abandoned t =>
    cases t <;> exact ht
  | skip => trivial
  | notSpawned | exited | killed => exact ⟨rfl, ht.1, ht.2, nofun⟩
  | persist h =>
    obtain ⟨_, hfinished, hscheduled⟩ := RecordStep.frame h
    exact ⟨hfinished.trans ht.1, hscheduled.trans ht.2⟩
  | complete h =>
    obtain ⟨hexit, hfinished, hscheduled⟩ := RecordStep.frame h
    obtain ⟨he, hf, hs, _⟩ := ht
    exact ⟨hexit.trans he, hfinished.trans hf, hscheduled.trans hs, complete_accepted h ha⟩
  | rejected => exact (ht.2.2.2 rfl).elim
  | completed => exact ⟨ht.1, ht.2.1, ht.2.2.1⟩
  | announced =>
    obtain ⟨he, hf, hs⟩ := ht
    exact ⟨he, by simp [hf], hs⟩
  | unretried h =>
    obtain ⟨he, hf, hs⟩ := ht
    refine ⟨he, hf, ?_⟩
    rw [Retried]
    split_ifs with hm
    · exact .inl ⟨h.resolve_left (by simp [hm]), hs⟩
    · exact hs
  | retried now hm | dropped now hm =>
    obtain ⟨he, hf, hs⟩ := ht
    refine ⟨he, hf, ?_⟩
    obtain ⟨hheap, hevidence⟩ := List.append_eq_nil_iff.mp hs
    rw [Retried, if_pos hm]
    exact .inr ⟨now, by simp [State.scheduled, hheap, hevidence]⟩

lemma Told.frame {pc : RunPc} (ht : Told j s pc) (hexit : s'.exit = s.exit) (hfinished : s'.finished = s.finished)
    (hscheduled : s'.scheduled = s.scheduled) (hclosing : s.closing = true → s'.closing = true) :
    Told j s' pc := by
  cases pc with
  | ended t =>
    obtain ⟨he, hf, hr⟩ := ht
    refine ⟨hexit.trans he, hfinished.trans hf, ?_⟩
    rw [Retried, hscheduled]
    rw [Retried] at hr
    split_ifs at hr ⊢ with hm
    · exact hr.imp_left fun h => ⟨hclosing h.1, h.2⟩
    · exact hr
  | _ => simp_all [Told]

lemma WriterStep.told {readable : Bool} {pc pc' : WriterPc} (h : WriterStep j readable s pc s' pc') :
    s'.run = s.run ∧ s'.exit = s.exit ∧ s'.finished = s.finished ∧ s'.scheduled = s.scheduled ∧
      s'.closing = s.closing := by
  cases h <;> exact ⟨rfl, rfl, rfl, rfl, rfl⟩

lemma Step.told (h : Step j s e s') (ha : Accepts j s e) (ht : Told j s s.run) : Told j s' s'.run := by
  cases h with
  | run h => exact (h.told ha ht).frame rfl rfl rfl id
  | writer h =>
    obtain ⟨hrun, hexit, hfinished, hscheduled, hclosing⟩ := h.told
    simp only [hrun]
    exact ht.frame hexit hfinished hscheduled fun hc => hclosing.trans hc
  | store | health => exact ht.frame rfl rfl rfl id
  | shutdown => exact ht.frame rfl rfl rfl fun _ => rfl

/-! ## The way to the end -/

lemma RecordStep.possible (full : Bool) (update : FinalItem → FinalItem) (x : Tx Unit) (tries : ℕ) (s : State)
    (pc : RecordPc) (h : 0 < pc.remaining) : ∃ s' pc', RecordStep full update x tries s pc s' pc' := by
  cases pc with
  | looking =>
    cases hu : s.unrecorded with
    | true => exact ⟨_, _, .unrecorded hu⟩
    | false =>
      cases hi : s.item with
      | none => exact ⟨_, _, .absent hu hi⟩
      | some it => exact ⟨_, _, .spooled hu (by rw [State.spooled, hi]; rfl)⟩
  | checking =>
    cases hd : s.down with
    | true => exact ⟨_, _, .degraded hd⟩
    | false => exact ⟨_, _, .healthy hd⟩
  | writing n => exact ⟨_, _, .failed .failed⟩
  | spooling =>
    cases hs : s.spool full 0 update with
    | none => exact ⟨_, _, .overflow 0 hs⟩
    | some s' => exact ⟨_, _, .spool 0 hs⟩
  | registering =>
    cases hc : s.closing with
    | true => exact ⟨_, _, .abandoned hc⟩
    | false => exact ⟨_, _, .registered hc⟩
  | recorded | rejected => exact (lt_irrefl _ h).elim

lemma RecordStep.remaining_lt {update : FinalItem → FinalItem} {x : Tx Unit} {tries : ℕ} {pc pc' : RecordPc}
    (htries : tries ≤ finishAttempts) (h : RecordStep full update x tries s pc s' pc') :
    pc'.remaining < pc.remaining := by
  cases h with
  | @again n _ _ _ _ hn =>
    simp only [RecordPc.remaining]
    omega
  | _ => simp [RecordPc.remaining, finishAttempts] <;> omega

lemma RunStep.possible (j : Job) (full : Bool) (s : State) {pc : RunPc} (hr : pc.registered = true)
    (he : ∀ t, pc ≠ .ended t) : ∃ s' pc', RunStep j full s pc s' pc' := by
  cases pc with
  | executing => exact ⟨_, _, .notSpawned ⟨0, 0, false, none⟩ rfl⟩
  | persisting info pc =>
    by_cases h : 0 < pc.remaining
    · obtain ⟨s', pc', hstep⟩ := RecordStep.possible full (·.setStart info)
        (startRun j.r.id info.process info.started) 1 s pc h
      exact ⟨s', _, .persist hstep⟩
    · cases pc with
      | recorded => exact ⟨_, _, .persisted⟩
      | rejected => exact ⟨_, _, .unpersisted⟩
      | _ => exact (h (by simp [RecordPc.remaining])).elim
  | supervising startErr =>
    cases startErr with
    | false => exact ⟨_, _, .exited none none ⟨0, 0, false, none⟩⟩
    | true => exact ⟨_, _, .killed ⟨0, 0, false, none⟩⟩
  | completing t pc =>
    by_cases h : 0 < pc.remaining
    · obtain ⟨s', pc', hstep⟩ :=
        RecordStep.possible full (·.setDone t) (finishRun j.r.id t.toOutcome) finishAttempts s
        pc h
      exact ⟨s', _, .complete hstep⟩
    · cases pc with
      | recorded => exact ⟨_, _, .completed⟩
      | rejected => exact ⟨_, _, .rejected⟩
      | _ => exact (h (by simp [RecordPc.remaining])).elim
  | announcing t => exact ⟨_, _, .announced⟩
  | retrying t =>
    cases hm : j.mayRetry t with
    | false => exact ⟨_, _, .unretried (.inl hm)⟩
    | true =>
      cases hc : s.closing with
      | true => exact ⟨_, _, .unretried (.inr hc)⟩
      | false => exact ⟨_, _, .retried 0 hm hc⟩
  | ended t => exact (he t rfl).elim
  | _ => cases hr

lemma RunStep.remaining_lt {pc pc' : RunPc} (h : RunStep j full s pc s' pc') (hr : pc.registered = true) :
    pc'.registered = true ∧ pc'.remaining < pc.remaining := by
  cases h with
  | persist h =>
    have hlt := RecordStep.remaining_lt (by decide) h
    exact ⟨rfl, by simpa [RunPc.remaining] using hlt⟩
  | complete h =>
    have hlt := RecordStep.remaining_lt le_rfl h
    exact ⟨rfl, by simpa [RunPc.remaining] using hlt⟩
  | notSpawned | spawned | persisted | unpersisted | exited | killed | rejected | completed | announced |
      unretried | retried | dropped => exact ⟨rfl, by simp [RunPc.remaining, RecordPc.remaining]⟩
  | _ => cases hr

lemma Told.underway {pc : RunPc} (ht : Told j s pc) (hr : pc.registered = true) (he : ∀ t, pc ≠ .ended t) :
    s.scheduled = [] ∧
      (s.finished = [] ∨ ∃ t, pc = .retrying t ∧ s.exit = some t ∧ s.finished = [announce j.r t]) := by
  cases pc with
  | executing | persisting | supervising => exact ⟨ht.2, .inl ht.1⟩
  | completing t pc => exact ⟨ht.2.2.1, .inl ht.2.1⟩
  | announcing t => exact ⟨ht.2.2, .inl ht.2.1⟩
  | retrying t => exact ⟨ht.2.2, .inr ⟨t, rfl, ht.1, ht.2.1⟩⟩
  | ended t => exact (he t rfl).elim
  | _ => cases hr

lemma told_run {s₀ : State} {db : DB} {down : Bool} (hstart : s₀ = admission db down ∨ s₀ = admitStored db down)
    {events : List Event} (h : Run (guarded (Step j) (Accepts j)) s₀ events s) : Told j s s.run := by
  refine h.invariant (P := fun s => Told j s s.run) (fun _ _ _ hstep hs => hstep.2.told hstep.1 hs) ?_
  rcases hstart with rfl | rfl <;> exact ⟨rfl, rfl⟩

end

theorem completion_announced {j : Job} {s₀ s : State} {db : DB} {down : Bool}
    (hstart : s₀ = admission db down ∨ s₀ = admitStored db down) {events : List Event}
    (h : Run (guarded (Step j) (Accepts j)) s₀ events s) (hr : s.run.registered = true) :
    (∀ t, s.run = .ended t → s.exit = some t ∧ s.finished = [announce j.r t] ∧ s.scheduled.length ≤ 1 ∧
      (j.mayRetry t = true → s.closing = false → ∃ now, s.scheduled = [j.retryItem now])) ∧
    ((∀ t, s.run ≠ .ended t) →
      s.scheduled = [] ∧
      (s.finished = [] ∨ ∃ t, s.run = .retrying t ∧ s.exit = some t ∧ s.finished = [announce j.r t]) ∧
      ∀ full, ∃ s', Step j s (.run full) s') ∧
    ∀ full s', Step j s (.run full) s' → s'.run.registered = true ∧ s'.run.remaining < s.run.remaining := by
  have ht := told_run hstart h
  refine ⟨fun t hrun => ?_, fun hnot => ?_, fun full s' hstep => ?_⟩
  · rw [hrun] at ht
    obtain ⟨hexit, hfinished, hretried⟩ := ht
    rw [Retried] at hretried
    refine ⟨hexit, hfinished, ?_, fun hm hc => ?_⟩
    · split_ifs at hretried
      · rcases hretried with ⟨_, hs⟩ | ⟨_, hs⟩ <;> simp [hs]
      · simp [hretried]
    · rw [if_pos hm] at hretried
      exact hretried.resolve_left fun h => by simp [hc] at h
  · obtain ⟨hscheduled, hfinished⟩ := ht.underway hr hnot
    refine ⟨hscheduled, hfinished, fun full => ?_⟩
    obtain ⟨s', pc', hstep⟩ := RunStep.possible j full s hr hnot
    exact ⟨_, .run hstep⟩
  · cases hstep with
    | run hstep => exact hstep.remaining_lt hr

def nightlyFailure : Terminal := nightlyRemains.exit (some (.exit 1 "")) none [0]

lemma run_failure :
    ∃ s, Run (guarded (Step nightly) (Accepts nightly)) (admission backupDefined false)
      (List.replicate 15 (.run false)) s ∧
      s.run = .ended nightlyFailure ∧ s.closing = false :=
  ⟨_,
    .cons ⟨trivial, .run (.attempted false rfl)⟩ <|
    .cons ⟨trivial, .run (.inserted (.ok rfl))⟩ <|
    .cons ⟨trivial, .run (.launched rfl)⟩ <|
    .cons ⟨trivial, .run (.spawned nightlyProcess)⟩ <|
    .cons ⟨trivial, .run (.persist (.absent rfl rfl))⟩ <|
    .cons ⟨trivial, .run (.persist (.healthy rfl))⟩ <|
    .cons ⟨trivial, .run (.persist (.written (.ok rfl)))⟩ <|
    .cons ⟨trivial, .run .persisted⟩ <|
    .cons ⟨trivial, .run (.exited (some (.exit 1 "")) none nightlyRemains)⟩ <|
    .cons ⟨trivial, .run (.complete (.absent rfl rfl))⟩ <|
    .cons ⟨trivial, .run (.complete (.healthy rfl))⟩ <|
    .cons ⟨⟨_, List.mem_singleton_self _, rfl⟩, .run (.complete (.written (.ok rfl)))⟩ <|
    .cons ⟨trivial, .run .completed⟩ <|
    .cons ⟨trivial, .run .announced⟩ <|
    .cons ⟨trivial, .run (.retried (60 * second) rfl rfl)⟩ <|
    .nil _,
    rfl, rfl⟩

theorem completion_announced_failure :
    ∃ s : State, s.run = .ended nightlyFailure ∧ s.finished = [announce nightly.r nightlyFailure] ∧
      ∃ now, s.scheduled = [nightly.retryItem now] := by
  obtain ⟨s, hrun, hend, hclosing⟩ := run_failure
  obtain ⟨hended, _⟩ := completion_announced (.inl rfl) hrun (by rw [hend]; rfl)
  obtain ⟨_, hfinished, _, hretried⟩ := hended _ hend
  exact ⟨s, hend, hfinished, hretried rfl hclosing⟩

/-! ## A refused terminal write -/

def fired : Job := { nightly with r := { nightly.r with trigger := .schedule, scheduledFor := some 0 } }

def occurrenceDB : DB :=
  { backupDefined with
    runs := [{ runArgs fired.r with runID := "r0", status := .succeeded, endReason := some "exit",
                                    endedUs := some 60000000 }] }

lemma run_conflict :
    ∃ s, Run (Step fired) (admission occurrenceDB true)
        (List.replicate 4 (.run false) ++ List.replicate 5 (.writer true) ++ [.health false]) s ∧
      s = { admission occurrenceDB false with run := .executing, refs := 1 } :=
  ⟨_,
    .cons (.run (.bypassed true rfl rfl)) <|
    .cons (.run (.defer 0 rfl)) <|
    .cons (.run (.registered rfl)) <|
    .cons (.run (.launched rfl)) <|
    .cons (.writer (.snapshot second rfl le_rfl)) <|
    .cons (.writer (.turn rfl)) <|
    .cons (.writer (.createRefused rfl (.refused rfl))) <|
    .cons (.writer (.conflict (.inl rfl))) <|
    .cons (.writer .drop) <|
    .cons (.health _ false) <|
    .nil _,
    rfl⟩

lemma run_refused :
    ∃ s, Run (Step fired) { admission occurrenceDB false with run := .executing, refs := 1 }
        (List.replicate 14 (.run false)) s ∧
      s.run = .ended nightlyRemains.startError ∧ s.exit = some nightlyRemains.startError ∧ s.finished = [] ∧
      s.closing = false ∧ s.scheduled = [] :=
  ⟨_,
    .cons (.run (.spawned nightlyProcess)) <|
    .cons (.run (.persist (.absent rfl rfl))) <|
    .cons (.run (.persist (.healthy rfl))) <|
    .cons (.run (.persist (.rejected (.refused rfl)))) <|
    .cons (.run .unpersisted) <|
    .cons (.run (.killed nightlyRemains)) <|
    .cons (.run (.complete (.absent rfl rfl))) <|
    .cons (.run (.complete (.healthy rfl))) <|
    .cons (.run (.complete (.again (.refused rfl) nofun (by decide)))) <|
    .cons (.run (.complete (.again (.refused rfl) nofun (by decide)))) <|
    .cons (.run (.complete (.again (.refused rfl) nofun (by decide)))) <|
    .cons (.run (.complete (.again (.refused rfl) nofun (by decide)))) <|
    .cons (.run (.complete (.rejected (.refused rfl)))) <|
    .cons (.run .rejected) <|
    .nil _,
    rfl, rfl, rfl, rfl, rfl⟩

theorem completion_lost :
    ∃ events s t, Run (Step fired) (admission occurrenceDB true) events s ∧ s.run = .ended t ∧ s.exit = some t ∧
      s.finished = [] ∧ fired.mayRetry t = true ∧ s.closing = false ∧ s.scheduled = [] := by
  obtain ⟨_, hconflict, rfl⟩ := run_conflict
  obtain ⟨s, hrefused, hrun, hexit, hfinished, hclosing, hscheduled⟩ := run_refused
  exact ⟨_, s, _, hconflict.append hrefused, hrun, hexit, hfinished, rfl, hclosing, hscheduled⟩

end Minicrond.Executor.History
