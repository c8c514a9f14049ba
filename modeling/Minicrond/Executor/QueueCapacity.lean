import Minicrond.Executor.DrainQueue

/-! The queue machine over the capacity machine. The latter leaves open what the rows, the queue and the clock
decide: what a trigger or the drain loop of the former does, a process of the latter does on the same slots,
admission token and active jobs. -/

namespace Minicrond.Executor.Queue

open Minicrond.Library Minicrond.Store

def QueueOptions.spec (o : QueueOptions) (d : Definition) : Spec :=
  ⟨d.name, d.kind, d.isEnabled, o.skipsOverlap d, o.skipsUnrecorded d⟩

structure Gated (s : Shared) (t : Executor.Shared) : Prop where
  tokens : t.tokens = s.tokens
  admission : t.admission = s.admission
  closing : t.closing = s.closing
  active : t.active.map Prod.snd = s.active.map Prod.snd

namespace Gated

variable {s s' : Shared} {t : Executor.Shared}

lemma activeJob (h : Gated s t) (name : String) : 0 < t.activeOf name ↔ s.activeJob name = true := by
  have hname : (∃ a ∈ t.active, a.2 = name) ↔ ∃ a ∈ s.active, a.2 = name := by
    simp only [← List.mem_map, h.active]
  simpa [Executor.Shared.activeOf, Shared.activeJob, List.countP_pos_iff] using hname

lemma lock (h : Gated s t) : Gated s.lock t.lock := ⟨h.tokens, rfl, h.closing, h.active⟩

lemma unlock (h : Gated s t) : Gated s.unlock t.unlock := ⟨h.tokens, rfl, h.closing, h.active⟩

lemma take (h : Gated s t) : Gated s.take t.take := ⟨congrArg (· + 1) h.tokens, h.admission, h.closing, h.active⟩

lemma give (h : Gated s t) (slot : Option ℕ) : Gated s.give (t.release slot) :=
  ⟨congrArg (· - 1) h.tokens, h.admission, h.closing, h.active⟩

lemma register (h : Gated s t) (id name : String) : Gated (s.register id name) (t.register name) :=
  ⟨h.tokens, h.admission, h.closing, by simp [Shared.register, Executor.Shared.register, h.active]⟩

lemma startLoop (h : Gated s t) : Gated s.startLoop t := by
  obtain ⟨ht, ha, hc, hn⟩ := h
  cases hl : s.loop <;> simp only [Shared.startLoop, hl] <;> exact ⟨ht, ha, hc, hn⟩

end Gated

/-! ## Triggers -/

/-- Where a trigger of `Capacity` stands, whether it owns its slot and whether its context has ended, for each
place of one of `Queue`. -/
inductive At (d : Definition) : TriggerPc → Executor.TriggerPc → Bool → Bool → Prop
  | waiting : At d .waiting .waiting false false
  | checking : At d .checking .checking false false
  | deciding : At d .deciding .deciding false false
  | placing (hk : d.kind = .job) : At d .placing .placing false false
  | reserving (hk : d.kind = .job) : At d .reserving .reserving false false
  | enqueuing : At d .enqueuing .recording false false
  | counting : At d .counting .recording false false
  | starting : At d .starting .recording false false
  | signalling : At d .signalling .recording false false
  | skipping (reason : String) : At d (.skipping reason) .recording false false
  | storing : At d .storing .storing (d.kind = .job) false
  | launching {run : Run} (hj : run.job = d.name) (hk : run.kind = d.kind) :
      At d (.launching run) (.launching true) false false
  | releasing : At d .releasing .releasing (d.kind = .job) false
  | refused : At d .releasing .refused false false
  | waking : At d .waking .leaving false false
  | leaving (done : Bool) : At d .leaving .leaving false done

def TriggerCall.over (o : QueueOptions) (c : TriggerCall) (place : Executor.TriggerPc) (owned done : Bool)
    (slot : Option ℕ) : Executor.TriggerCall :=
  ⟨o.spec c.d, c.trigger, c.key.isSome, done, owned, slot, place⟩

inductive Stands (o : QueueOptions) : Call → Proc → Prop
  | trigger (c : TriggerCall) {place : Executor.TriggerPc} {owned done : Bool} (slot : Option ℕ)
      (h : At c.d c.pc place owned done) : Stands o (.trigger c) (.trigger (c.over o place owned done slot))
  | run (id : String) (n : ℕ) (d : Spec) (slot : Option ℕ) :
      Stands o (.run ⟨id, d.kind, .executing⟩) (.run ⟨n, d, slot, .executing⟩)

/-- The processes alone take the capacity machine to a state that agrees with `s'`, and `R` holds of
what is left. -/
def Reaches (o : QueueOptions) (t : Executor.Shared) (ps : List Proc) (s' : Shared) (R : List Proc → Prop) :
    Prop :=
  ∃ events t' ps', Library.Run (Executor.Step o.toOptions) ⟨t, ps⟩ events ⟨t', ps'⟩ ∧ Gated s' t' ∧ R ps'

section

variable {o : QueueOptions} {s s' : Shared} {t t' : Executor.Shared} {c : TriggerCall} {k : Executor.TriggerCall}
  {p p' : Proc} {place : Executor.TriggerPc} {owned done : Bool} {slot : Option ℕ} {pc : TriggerPc}
  {out : List Call} {R : List Proc → Prop}

lemma Reaches.stay (hs : Gated s' t) (h : At c.d pc place owned done) :
    Reaches o t [.trigger (c.over o place owned done slot)] s' (List.Forall₂ (Stands o) (c.goto pc)) :=
  ⟨[], t, _, .nil _, hs, .cons (.trigger { c with pc := pc } slot h) .nil⟩

lemma Reaches.ends (hstep : Executor.Local o.toOptions t p t' []) (hs : Gated s' t') :
    Reaches o t [p] s' (List.Forall₂ (Stands o) []) :=
  ⟨_, t', [], .cons (.internal (.mk [] [] hstep)) (.nil _), hs, .nil⟩

lemma Reaches.after (hstep : Executor.Local o.toOptions t p t' [p']) (h : Reaches o t' [p'] s' R) :
    Reaches o t [p] s' R := by
  obtain ⟨events, t'', ps, hrun, h⟩ := h
  exact ⟨_, t'', ps, .cons (.internal (.mk [] [] hstep)) hrun, h⟩

lemma Reaches.expire (h : Reaches o t [.trigger { k with ctxDone := true }] s' R) :
    Reaches o t [.trigger k] s' R := by
  obtain ⟨events, t', ps, hrun, h⟩ := h
  exact ⟨_, t', ps, .cons (.expire (.mk [] [] (.trigger ..))) hrun, h⟩

lemma Reaches.goto
    (hstep : Executor.TriggerStep o.toOptions t k t' [.trigger (c.over o place owned done slot)])
    (hs : Gated s' t') (h : At c.d pc place owned done) :
    Reaches o t [.trigger k] s' (List.Forall₂ (Stands o) (c.goto pc)) :=
  .after hstep (.stay hs h)

lemma TriggerStep.capacity (h : TriggerStep o s c s' out) (hs : Gated s t) (hat : At c.d c.pc place owned done) :
    Reaches o t [.trigger (c.over o place owned done slot)] s' (List.Forall₂ (Stands o) out) := by
  have hactive := hs.activeJob c.d.name
  have hclosing := hs.closing
  have htokens := hs.tokens
  have hstoring : ∀ job, c.isJob = job → At c.d .storing .storing job false := fun _ h => h ▸ .storing
  cases h
  all_goals cases ‹c.pc = _› ▸ hat
  case admitted h ha => exact .goto (.admitted rfl (hs.admission.trans ha)) hs.lock .checking
  case gaveUp h => exact .expire (.ends (Executor.TriggerStep.gaveUp rfl (.inl rfl)) hs)
  case closed h hc => exact .goto (.closed rfl (hclosing.trans hc)) hs (.leaving _)
  case proceed h hc => exact .goto (.proceed rfl (hclosing.trans hc)) hs .deciding
  case declined h => exact .expire (.goto (.declined rfl (.inl rfl)) hs (.leaving _))
  case overlap h hd hk ho => exact .goto (.overlap rfl ⟨rfl, hd⟩ hk ⟨ho.1, hactive.mpr ho.2⟩) hs (.skipping _)
  case job h hd hk ho =>
    exact .goto (.job rfl ⟨rfl, hd⟩ hk fun h => ho ⟨h.1, hactive.mp h.2⟩) hs (.placing (of_decide_eq_true hk))
  case worker h hd hk => exact .goto (.worker rfl ⟨rfl, hd⟩ hk) hs (hstoring _ hk)
  case behind h hq hd hk => exact .goto (.behind rfl hq) hs .enqueuing
  case direct h hq hk => exact .goto (.direct rfl) hs (.reserving hk)
  case reserved h ht hk => exact .goto (.reserved rfl (htokens ▸ ht)) hs.take (hstoring _ (decide_eq_true hk))
  case full h ht hq hk => exact .goto (.full rfl (htokens ▸ ht) (.inl hq)) hs .enqueuing
  case fullRetry h ht hq hk => exact .goto (.deferredRetry rfl (htokens ▸ ht) hq) hs (.leaving _)
  case fullSkip h ht hq hk => exact .goto (.full rfl (htokens ▸ ht) (.inr hq.2)) hs (.skipping _)
  case enqueued => exact .stay { hs with } .counting
  case refused.enqueuing e h hdb =>
    cases hfailed : c.enqueueFailed e with
    | skipping reason => exact .stay hs (.skipping _)
    | leaving => exact .goto (.recorded rfl) hs (.leaving _)
    | _ => exact absurd hfailed (by cases e <;> simp [TriggerCall.enqueueFailed, ite_eq_iff])
  case counted => exact .stay { hs with } .starting
  case startedLoop => exact .stay hs.startLoop .signalling
  case admittedRun => exact .goto (.stored rfl) { hs with } (.launching rfl rfl)
  case storedRun => exact .goto (.stored rfl) { hs with } (.launching rfl rfl)
  case deferred h hk hd =>
    exact .goto (.deferred true rfl (by simp [TriggerCall.over, hk]) hd) hs (.launching rfl rfl)
  case replayedRun => exact .goto (.rejected rfl) { hs with } .releasing
  case unstored => exact .goto (.rejected rfl) hs .releasing
  case launched h hc hj hk =>
    rw [hj, hk]
    exact ⟨_, _, _, .cons (.internal (.mk [] [] (Executor.TriggerStep.registered rfl (hclosing.trans hc))))
      (.cons (.internal (.mk [] [_] (Executor.TriggerStep.unwound rfl rfl))) (.nil _)), hs.register _ _,
      .cons (.trigger { c with pc := .leaving } slot (.leaving _)) (.cons (.run _ _ (o.spec c.d) slot) .nil)⟩
  case notLaunched h hc hj hk => exact .goto (.refused rfl (hclosing.trans hc)) hs .refused
  case released.releasing h hk ht =>
    have hr : Released c.isJob slot t (t.release slot) := by simp [Released, hk, htokens, ht]
    exact .after (Executor.TriggerStep.released rfl hr) (.goto (.unwound rfl rfl) (hs.give _) .waking)
  case released.refused h hk ht =>
    have hr : Released c.isJob slot t (t.release slot) := by simp [Released, hk, htokens, ht]
    exact .after (Executor.TriggerStep.gaveBack rfl hr) (.goto (.unwound rfl rfl) (hs.give _) .waking)
  case unowned.releasing h hk =>
    have hr : Released c.isJob slot t t := by simp [Released, hk]
    exact .after (Executor.TriggerStep.released rfl hr) (.goto (.unwound rfl rfl) hs (.leaving _))
  case unowned.refused h hk =>
    have hr : Released c.isJob slot t t := by simp [Released, hk]
    exact .after (Executor.TriggerStep.gaveBack rfl hr) (.goto (.unwound rfl rfl) hs (.leaving _))
  case woke => exact .stay { hs with } (.leaving _)
  case left => exact .ends (Executor.TriggerStep.left rfl) hs.unlock
  -- the row of a run that does not start has been written, or could not be
  all_goals exact .goto (.recorded rfl) { hs with } (.leaving _)

end

/-! ## The drain loop -/

def LoopPc.away : LoopPc → Bool
  | .step (.measuring ..) | .step (.timing ..) => true
  | .step _ => false
  | _ => true

inductive Placed (o : QueueOptions) : StepPc → DrainPc → Bool → Prop
  | entering : Placed o .entering .expiring false
  | expiring : Placed o .expiring .expiring false
  | uncounting {n} : Placed o (.uncounting n) .expiring false
  | rechecking : Placed o .rechecking .expiring false
  | pacing : Placed o .pacing .expiring false
  | reserving : Placed o .reserving .reserving false
  | acquiring : Placed o .acquiring .acquiring false
  | checking : Placed o .checking .checking false
  | choosing : Placed o .choosing .choosing false
  | resyncing : Placed o .resyncing .choosing false
  | storing {n} : Placed o (.storing n) .choosing false
  | reading {item} : Placed o (.start item .reading) .choosing false
  | looking {item run} : Placed o (.start item (.looking run)) .choosing false
  | overlapping {item d hash} (hk : d.kind = .job) (he : d.isEnabled = true) :
      Placed o (.start item (.overlapping d hash)) (.validating (o.spec d)) false
  | dropping {item reason} : Placed o (.start item (.dropping reason)) .unlocking false
  | confirming {item d hash} (hk : d.kind = .job) :
      Placed o (.start item (.confirming d hash)) (.confirming (o.spec d)) false
  | dequeuing {item d hash} (hk : d.kind = .job) :
      Placed o (.start item (.dequeuing d hash)) (.dequeuing (o.spec d)) false
  | launching {item d} (hk : d.kind = .job) : Placed o (.start item (.launching d)) (.launching (o.spec d)) false
  | refused {item d} (hk : d.kind = .job) : Placed o (.start item .refused) (.refused (o.spec d)) false
  | waking {item} : Placed o (.start item .waking) .started false
  | started {item} : Placed o (.start item (.counting true)) .started false
  | gone {item} : Placed o (.start item (.counting false)) .unlocking false
  | unlocking {result consumed} : Placed o (.unlocking result consumed) .unlocking consumed
  | settling {result consumed} : Placed o (.settling result consumed) .settling consumed

inductive Drains (o : QueueOptions) : LoopPc → List Call → List Proc → Prop
  | away {pc} (h : pc.away = true) : Drains o pc [] []
  | step {pc place consumed slot out ps} (h : Placed o pc place consumed) (hout : List.Forall₂ (Stands o) out ps) :
      Drains o (.step pc) out (.drain ⟨consumed, slot, place⟩ :: ps)

section

variable {o : QueueOptions} {item : QueueItem} {s s' : Shared} {t t' : Executor.Shared} {w : Executor.DrainStep}
  {pc : StepPc} {place : DrainPc} {consumed : Bool} {slot : Option ℕ} {ps : List Proc} {out : List Call}

lemma Reaches.idle {pc : LoopPc} (hs : Gated s' t) (h : pc.away = true) : Reaches o t [] s' (Drains o pc []) :=
  ⟨[], t, _, .nil _, hs, .away h⟩

lemma Reaches.wait (hs : Gated s' t) (h : Placed o pc place consumed) :
    Reaches o t [.drain ⟨consumed, slot, place⟩] s' (Drains o (.step pc) []) :=
  ⟨[], t, _, .nil _, hs, .step h .nil⟩

lemma Reaches.move (hstep : DrainMove o.toOptions t w t' [.drain ⟨consumed, slot, place⟩]) (hs : Gated s' t')
    (h : Placed o pc place consumed) : Reaches o t [.drain w] s' (Drains o (.step pc) []) :=
  .after hstep (.wait hs h)

lemma Reaches.leave {pc : LoopPc} (hstep : DrainMove o.toOptions t w t' []) (hs : Gated s' t')
    (h : pc.away = true) : Reaches o t [.drain w] s' (Drains o pc []) :=
  ⟨_, t', [], .cons (.internal (.mk [] [] hstep)) (.nil _), hs, .away h⟩

lemma StartStep.capacity {start : StartPc} (h : StartStep o item s start s' pc out) (hs : Gated s t)
    (hat : Placed o (.start item start) place consumed) :
    Reaches o t [.drain ⟨consumed, slot, place⟩] s' (Drains o (.step pc) out) := by
  have hclosing := hs.closing
  cases h
  all_goals cases hat
  case unreadable | unknown => exact .move (.none rfl) hs .unlocking
  case inconsistent | expired => exact .move (.none rfl) hs .dropping
  case read => exact .wait hs .looking
  case looked =>
    obtain ⟨reason, heq⟩ | ⟨d, hash, heq, hk, he⟩ := revalidate_cases
    · rw [heq]
      exact .move (.none rfl) hs .dropping
    · rw [heq]
      exact .move (.item (o.spec d) rfl) hs (.overlapping hk he)
  case overlap => exact .move (.dropped rfl) hs .dropping
  case clear ho hk he =>
    exact .move (.valid rfl (decide_eq_true hk) he fun h => ho ⟨h.1, (hs.activeJob _).mp h.2⟩) hs (.confirming hk)
  case dropped => exact .wait { hs with } .gone
  case undropped => exact .wait hs .unlocking
  case stopping hc _ => exact .move (.stopping rfl (hclosing.trans hc)) hs .unlocking
  case confirmed hc hk => exact .move (.confirmed rfl (hclosing.trans hc)) hs (.dequeuing hk)
  case dequeued hk => exact .move (.dequeued rfl) { hs with } (.launching hk)
  case endedElsewhere => exact .move (.kept rfl) hs .gone
  case notDequeued => exact .move (.kept rfl) hs .unlocking
  case launched d hc hk =>
    exact ⟨_, _, _, .cons (.internal (.mk [] [] (DrainMove.registered rfl (hclosing.trans hc)))) (.nil _),
      { hs.register _ _ with }, .step .started (.cons (.run _ _ (o.spec d) slot) .nil)⟩
  case notLaunched hc hk => exact .move (.refused rfl (hclosing.trans hc)) hs (.refused hk)
  case released ht d hk =>
    have hr : Released (o.spec d).isJob slot t (t.release slot) := by
      simp [Released, Spec.isJob, QueueOptions.spec, hk, hs.tokens, ht]
    exact .move (.gaveBack rfl hr) (hs.give _) .waking
  case woke => exact .wait { hs with } .started
  case counted.started => exact .move (.consumed rfl) { hs with } .unlocking
  case counted.gone => exact .wait { hs with } .unlocking

lemma DrainStep.capacity {pc' : LoopPc} (h : DrainStep o s pc s' pc' out) (hs : Gated s t)
    (hat : Placed o pc place consumed) : Reaches o t [.drain ⟨consumed, slot, place⟩] s' (Drains o pc' out) := by
  have hclosing := hs.closing
  have htokens := hs.tokens
  cases h
  case start h => exact h.capacity hs hat
  all_goals cases hat
  case idle | notExpired | uncountedAll | drained | early => exact .leave (.idle rfl) { hs with } rfl
  case entered => exact .wait hs .expiring
  case expired => exact .wait { hs with } .uncounting
  case noneExpired | uncounted => exact .wait { hs with } .rechecking
  case rechecked => exact .wait hs .pacing
  case paced => exact .move (.expired rfl) hs .reserving
  case full ht => exact .leave (.full rfl (htokens ▸ ht)) hs rfl
  case reserved ht => exact .move (.reserved rfl (htokens ▸ ht)) hs.take .acquiring
  case admitted ha => exact .move (.admitted rfl (hs.admission.trans ha)) hs.lock .checking
  case gaveUp hc => exact .move (.gaveUp rfl (hclosing.trans hc)) hs .settling
  case closed hc => exact .move (.closed rfl (hclosing.trans hc)) hs .unlocking
  case proceed hc => exact .move (.proceed rfl (hclosing.trans hc)) hs .choosing
  case chosen => exact .wait { hs with } .reading
  case noItem => exact .wait hs .resyncing
  case recounted => exact .wait hs .storing
  case unread | unrecounted | resynced => exact .move (.none rfl) { hs with } .unlocking
  case unlocked => exact .move (.unlocked rfl) hs.unlock .settling
  case consumed => exact .leave (.settled rfl rfl) hs rfl
  case settled ht => exact .leave (.settled rfl ⟨htokens ▸ ht, rfl⟩) (hs.give _) rfl

lemma LoopStep.capacity {pc pc' : LoopPc} (h : LoopStep o s pc s' pc' out) (hs : Gated s t)
    (hat : Drains o pc [] ps) : Reaches o t ps s' (Drains o pc' out) := by
  cases hat with
  | step hat hout =>
    cases hout
    cases h with
    | step h => exact h.capacity hs hat
  | away haway =>
    cases h with
    | again hc =>
      exact ⟨_, t, _, .cons (.wake (hs.closing.trans hc) (by simp)) (.nil _), hs, .step .entering .nil⟩
    | step h =>
      cases h with
      | empty | measured | unmeasured | timed => exact .idle hs rfl
      | _ => cases haway
    | _ => exact .idle { hs with } rfl

end

end Minicrond.Executor.Queue
