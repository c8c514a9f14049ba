import Minicrond.Executor.QueueDepth

/-! A drain loop that rests while rows wait has a reason to wake up in time. -/

namespace Minicrond.Executor.Queue

open Minicrond.Library Minicrond.Store Minicrond.Time

def Sleep.covers (t : Sleep) (q : QueueRow) : Prop := t.length ≤ max (ofUnixMicro q.expiresUs - t.read) millisecond

namespace LoopPc

def Attends (queue : List QueueRow) : LoopPc → Prop
  | .stopped => queue = []
  | .step (.timing _ _ expiryUs) => ∀ q ∈ queue, expiryUs ≤ q.expiresUs
  | .step (.unlocking (.sleep _ _) _) | .step (.settling (.sleep _ _) _) => False
  | .returned (.sleep timer _) | .asleep (.timer timer _) _ => ∀ q ∈ queue, ∃ t, timer = some t ∧ t.covers q
  | _ => True

def full : LoopPc → Bool
  | .step (.measuring _ full) | .step (.timing _ full _) => full
  | .returned (.sleep _ full) | .asleep (.timer _ full) _ => full
  | _ => false

end LoopPc

def State.Excused (c : State) : Prop := c.shared.closing = true ∨ c.shared.wake = true ∨ 0 < c.unsignalled

structure Awake (o : QueueOptions) (c : State) : Prop where
  attends : c.Excused ∨ c.shared.loop.Attends c.shared.db.queue
  slots : c.shared.loop.full = true →
    c.Excused ∨ c.shared.db.queue = [] ∨ o.slots ≤ c.shared.tokens ∨ 0 < c.releasing
  backoff : c.shared.backoff ≤ queueBackoffMax
  retry : ∀ length armed, c.shared.loop = .asleep (.backoff length) armed → length ≤ queueBackoffMax

section

variable {o : QueueOptions} {c c' : State} {s s' : Shared} {p : Call} {out : List Call}
    {queue queue' : List QueueRow}

lemma untilExpiry_covers {base : Option Sleep} {expiryUs now : ℤ} {q : QueueRow} (h : expiryUs ≤ q.expiresUs) :
    (untilExpiry base expiryUs now).covers q := by
  have hle : max (ofUnixMicro expiryUs - now) millisecond ≤ max (ofUnixMicro q.expiresUs - now) millisecond := by
    refine max_le_max (sub_le_sub_right ?_ now) le_rfl
    exact mul_le_mul_of_nonneg_right h (by decide)
  cases base with
  | none => exact hle
  | some b =>
    rw [untilExpiry]
    split_ifs with hlt
    · exact hle
    · exact (not_lt.mp hlt).trans hle

lemma LoopPc.Attends.mono {pc : LoopPc} (h : queue'.Sublist queue) (ha : pc.Attends queue) :
    pc.Attends queue' := by
  have hall : ∀ {P : QueueRow → Prop}, (∀ q ∈ queue, P q) → ∀ q ∈ queue', P q := fun hP q hq => hP q (h.subset hq)
  cases pc with
  | stopped => exact List.sublist_nil.mp (ha ▸ h)
  | top => trivial
  | step pc =>
    cases pc with
    | timing => exact hall ha
    | unlocking result | settling result => cases result <;> exact ha
    | _ => trivial
  | returned result =>
    cases result with
    | sleep => exact hall ha
    | _ => trivial
  | asleep wait =>
    cases wait with
    | timer => exact hall ha
    | backoff => trivial

/-! ## Calls -/

def Gauge.Excused (closing : Bool) (g : Gauge) (m : Marks) : Prop := closing = true ∨ g.wake = true ∨ 0 < m.2.2.1

section

variable {inside closing : Bool} {g g' : Gauge} {mp mo m m' : Marks}

lemma Move.wake (h : Move inside closing g mp g' mo) (hw : g.wake = true) : g'.wake = true := by
  cases h with
  | slot => simp [hw]
  | signal => rfl
  | _ => exact hw

lemma Move.pending (h : Move inside closing g mp g' mo) :
    closing = true ∨ g'.wake = true ∨ mp.2.2.1 ≤ mo.2.2.1 := by
  cases h with
  | signal => exact .inr (.inl rfl)
  | abandon hc => exact .inl hc
  | _ =>
    subst_vars
    simp

lemma Move.excused (h : Move inside closing g mp g' mo) (hm : m' + mp = m + mo) (he : g.Excused closing m) :
    g'.Excused closing m' := by
  have hpending := congrArg (fun m : Marks => m.2.2.1) hm
  simp only [Prod.snd_add, Prod.fst_add] at hpending
  rcases he with he | he | he
  · exact .inl he
  · exact .inr (.inl (h.wake he))
  · rcases h.pending with hc | hw | hle
    · exact .inl hc
    · exact .inr (.inl hw)
    · exact .inr (.inr (by omega))

lemma Move.enqueued (h : Move inside closing g mp g' mo) (hm : m' + mp = m + mo) :
    g'.Excused closing m' ∨ g'.queue.Sublist g.queue := by
  cases h with
  | quiet hq | cancel _ hq => exact .inr hq
  | enqueue _ _ hp h =>
    have hpending := congrArg (fun m : Marks => m.2.2.1) hm
    simp only [hp, h, Prod.snd_add, Prod.fst_add, Prod.snd_zero, Prod.fst_zero] at hpending
    exact .inl (.inr (.inr (by omega)))
  | _ => exact .inr (List.Sublist.refl _)

lemma Move.attends (h : Move inside closing g mp g' mo) (hm : m' + mp = m + mo) (ha : g.loop.Attends g.queue) :
    g'.Excused closing m' ∨ g'.loop.Attends g'.queue := by
  rcases h.enqueued hm with he | hsub
  · exact .inl he
  · refine .inr ?_
    rcases h.loop with hl | ⟨_, hl⟩
    · rw [hl]
      exact ha.mono hsub
    · rw [hl]
      trivial

lemma Move.releases (h : Move inside closing g mp g' mo) (hpos : 0 < g.depth) :
    g'.wake = true ∨ mo.2.2.2 = mp.2.2.2 + 1 ∨ g.tokens ≤ g'.tokens ∧ mo.2.2.2 = mp.2.2.2 := by
  cases h with
  | signal => exact .inl rfl
  | slot => simp [hpos]
  | _ =>
    subst_vars
    simp

lemma Move.slots {slots : ℕ} (h : Move inside closing g mp g' mo) (hm : m' + mp = m + mo)
    (hd : g.depth ≤ 0 → g.Excused closing m ∨ g.queue = []) (hs : slots ≤ g.tokens ∨ 0 < m.2.2.2) :
    g'.Excused closing m' ∨ g'.queue = [] ∨ slots ≤ g'.tokens ∨ 0 < m'.2.2.2 := by
  have hreleasing := congrArg (fun m : Marks => m.2.2.2) hm
  simp only [Prod.snd_add] at hreleasing
  by_cases hpos : g.depth ≤ 0
  · rcases hd hpos with he | hq
    · exact .inl (h.excused hm he)
    · rcases h.enqueued hm with he | hsub
      · exact .inl he
      · exact .inr (.inl (List.sublist_nil.mp (hq ▸ hsub)))
  · rcases h.releases (not_le.mp hpos) with hw | hr | hr
    · exact .inl (.inr (.inl hw))
    · exact .inr (.inr (.inr (by omega)))
    · exact .inr (.inr (by omega))

end

lemma excused_iff : c.Excused ↔ c.shared.gauge.Excused c.shared.closing c.marks := Iff.rfl

lemma marks_uncounted (p : Call) : p.marks.1 ≤ p.marks.2.2.1 := by
  cases p with
  | trigger c | stop c => cases hpc : c.pc <;> simp [Call.marks, hpc]
  | run r => cases hpc : r.pc <;> simp [Call.marks, hpc]

lemma uncounted_le_unsignalled (c : State) : c.uncounted ≤ c.unsignalled := by
  obtain ⟨s, procs⟩ := c
  simp only [State.uncounted, State.unsignalled, State.marks, Config.total]
  induction procs with
  | nil => simp
  | cons p procs ih =>
    have hp := marks_uncounted p
    simp only [List.map_cons, List.sum_cons, Prod.fst_add, Prod.snd_add] at ih ⊢
    omega

lemma Mirrored.empty (hc : Mirrored c) (h : c.shared.depth ≤ 0) : c.Excused ∨ c.shared.db.queue = [] := by
  by_cases hu : 0 < c.unsignalled
  · exact .inl (.inr (.inr hu))
  · have hle := uncounted_le_unsignalled c
    have hrows := hc.queue_le_depth (by omega)
    exact .inr (List.length_eq_zero_iff.mp (by omega))

lemma Awake.call (h : Interleave (Local o) c c') (hm : Mirrored c) (hc : Awake o c) : Awake o c' := by
  obtain ⟨p, out, hp, hl, hmarks⟩ := h.total Call.marks
  have hmove : Move p.inAdmission c.shared.closing c.shared.gauge p.marks c'.shared.gauge (marksOf out) :=
    hl.effect hm.consistent
  obtain ⟨hclosing, hbackoff⟩ := hl.frame
  have hexcused : c'.Excused ↔ c'.shared.gauge.Excused c.shared.closing c'.marks := by
    rw [excused_iff, hclosing]
  refine ⟨?_, fun hf => ?_, ?_, fun length armed hloop => ?_⟩
  · rw [hexcused]
    rcases hc.attends with he | ha
    · exact .inl (hmove.excused hmarks he)
    · exact hmove.attends hmarks ha
  · rw [hexcused]
    have hfull : c.shared.loop.full = true := by
      rcases hmove.loop with he | ⟨_, ht⟩
      · exact (congrArg LoopPc.full he).symm.trans hf
      · rw [show c'.shared.loop = .top from ht] at hf
        exact absurd hf (by simp [LoopPc.full])
    rcases hc.slots hfull with he | hq | hs
    · exact .inl (hmove.excused hmarks he)
    · rcases hmove.enqueued hmarks with he | hsub
      · exact .inl he
      · exact .inr (.inl (List.sublist_nil.mp (hq ▸ hsub)))
    · exact hmove.slots hmarks hm.empty hs
  · rcases hbackoff with hb | hb
    · exact hb ▸ hc.backoff
    · rw [hb]
      decide
  · rcases hmove.loop with he | ⟨_, ht⟩
    · exact hc.retry length armed (he.symm.trans hloop)
    · rw [show c'.shared.loop = .top from ht] at hloop
      exact absurd hloop (by simp)

/-! ## The loop -/

lemma StartStep.attends {item : QueueItem} {pc : StartPc} {pc' : StepPc} (h : StartStep o item s pc s' pc' out)
    (queue : List QueueRow) : (LoopPc.step pc').Attends queue ∧ (LoopPc.step pc').full = false := by
  cases h <;> exact ⟨trivial, rfl⟩

lemma LoopStep.attends {E : Prop} {pc pc' : LoopPc} (h : LoopStep o s pc s' pc' out) (hc : s.closing = true → E)
    (hd : s.depth ≤ 0 → E ∨ s.db.queue = []) (ha : E ∨ pc.Attends s.db.queue) : E ∨ pc'.Attends s'.db.queue := by
  cases h with
  | closing h | failedClosing h | stopping h => exact .inl (hc h)
  | sleep now => exact ha
  | step h =>
    cases h with
    | idle h | drained h => exact (hd h).imp_right fun hq q hmem => by simp [hq] at hmem
    | empty he =>
      refine .inr fun q hmem => ?_
      simp [nextQueueExpiry_none.mp he] at hmem
    | measured he => exact .inr fun q hmem => nextQueueExpiry_le he hmem
    | timed now => exact ha.imp_right fun h q hmem => ⟨_, rfl, untilExpiry_covers (h q hmem)⟩
    | gaveUp h | closed h => exact .inl (hc h)
    | start h => exact .inr (h.attends _).1
    | @unlocked result =>
      cases result with
      | sleep => exact ha
      | _ => exact .inr trivial
    | @consumed result | @settled result =>
      cases result with
      | sleep => exact ha.imp_right False.elim
      | _ => exact .inr trivial
    | _ => exact .inr trivial
  | _ => exact .inr trivial

lemma LoopStep.full {pc pc' : LoopPc} (h : LoopStep o s pc s' pc' out) (hf : pc'.full = true) :
    ¬ pc.Attends s.db.queue ∨
      (pc.full = true ∨ o.slots ≤ s.tokens) ∧ s'.db = s.db ∧ s'.tokens = s.tokens := by
  cases h with
  | step h =>
    cases h with
    | full ht => exact .inr ⟨.inr ht, rfl, rfl⟩
    | empty | measured | timed => exact .inr ⟨.inl hf, rfl, rfl⟩
    | start h => simp [h.attends []] at hf
    | @consumed result | @settled result =>
      cases result with
      | sleep => exact .inl id
      | _ => simp [LoopPc.full] at hf
    | _ => simp [LoopPc.full] at hf
  | sleep => exact .inr ⟨.inl hf, rfl, rfl⟩
  | _ => simp [LoopPc.full] at hf

lemma LoopStep.backoff {pc pc' : LoopPc} (h : LoopStep o s pc s' pc' out) (hb : s.backoff ≤ queueBackoffMax) :
    s'.backoff ≤ queueBackoffMax ∧ ∀ length armed, pc' = .asleep (.backoff length) armed →
      length ≤ queueBackoffMax := by
  have hmin : queueBackoffMin ≤ queueBackoffMax := by decide
  cases h with
  | step h =>
    cases h with
    | start h => exact ⟨h.frame.2.1 ▸ hb, fun _ _ he => by simp at he⟩
    | _ => exact ⟨hb, fun _ _ he => by simp at he⟩
  | «repeat» => exact ⟨hmin, fun _ _ he => by simp at he⟩
  | sleep => exact ⟨hmin, fun _ _ he => by simp at he⟩
  | failed now hc =>
    refine ⟨min_le_right _ _, fun length armed he => ?_⟩
    simp only [LoopPc.asleep.injEq, Wait.backoff.injEq] at he
    exact he.1 ▸ hb
  | _ => exact ⟨hb, fun _ _ he => by simp at he⟩

lemma Awake.loop {pc : LoopPc} (h : LoopStep o c.shared c.shared.loop s' pc out) (hm : Mirrored c)
    (hc : Awake o c) : Awake o ⟨{ s' with loop := pc }, c.procs ++ out⟩ := by
  have hle : c.shared.loop.inAdmission.toNat ≤ c.shared.admission.toNat := by
    have := hm.admission
    omega
  have hmarks : State.marks ⟨{ s' with loop := pc }, c.procs ++ out⟩ = c.marks :=
    State.marks_append (h.admission hle).2.2
  obtain ⟨hclosing, hwake⟩ := h.frame
  obtain ⟨hbackoff, hretry⟩ := h.backoff hc.backoff
  have hexcused : c.Excused → State.Excused ⟨{ s' with loop := pc }, c.procs ++ out⟩ ∨ pc = .top := by
    rintro (he | he | he)
    · exact .inl (.inl (hclosing.trans he))
    · exact (hwake he).imp_left fun hw => .inr (.inl hw)
    · refine .inl (.inr (.inr ?_))
      rwa [State.unsignalled, hmarks]
  refine ⟨?_, fun hf => ?_, hbackoff, hretry⟩
  · rcases h.attends (fun he => .inl he) hm.empty hc.attends with he | ha
    · refine (hexcused he).imp_right ?_
      rintro rfl
      trivial
    · exact .inr ha
  · have hnot : pc ≠ .top := by
      rintro rfl
      simp [LoopPc.full] at hf
    have hlift : c.Excused → State.Excused ⟨{ s' with loop := pc }, c.procs ++ out⟩ := fun he =>
      (hexcused he).resolve_right hnot
    rcases h.full hf with hnot | ⟨hfull, hdb, htokens⟩
    · exact .inl (hlift (hc.attends.resolve_right hnot))
    · have hreleasing : State.releasing ⟨{ s' with loop := pc }, c.procs ++ out⟩ = c.releasing :=
        congrArg (·.2.2.2) hmarks
      rw [hreleasing]
      simp only [hdb, htokens]
      rcases hfull with hfull | hs
      · exact (hc.slots hfull).imp_left hlift
      · exact .inr (.inr (.inl hs))

lemma Awake.spawn (hc : Awake o c) (hm : p.marks = 0) : Awake o (c.spawn p) := by
  have hmarks : State.marks (c.spawn p) = c.marks := State.marks_append (by simp [marksOf, hm])
  have hexcused : State.Excused (c.spawn p) ↔ c.Excused := by
    rw [State.Excused, State.Excused, State.unsignalled, State.unsignalled, hmarks]
    rfl
  refine ⟨?_, fun hf => ?_, hc.backoff, hc.retry⟩
  · rw [hexcused]
    exact hc.attends
  · rw [hexcused, State.releasing, hmarks]
    exact hc.slots hf

lemma Step.awake {e : Event} (h : Step o c e c') (hm : Mirrored c) (hc : Awake o c) : Awake o c' := by
  cases h with
  | call h => exact hc.call h hm
  | loop h => exact hc.loop h hm
  | store hf hi hdb =>
    have hsub := hdb.shrinks hm.consistent hi (foreign_isEnqueue hf)
    refine ⟨hc.attends.imp_right fun ha => ha.mono hsub, fun hfull => ?_, hc.backoff, hc.retry⟩
    rcases hc.slots hfull with he | hq | hs
    · exact .inl he
    · exact .inr (.inl (List.sublist_nil.mp (hq ▸ hsub)))
    · exact .inr (.inr hs)
  | trigger call hpc => exact hc.spawn (by simp [Call.marks, hpc])
  | stop id => exact hc.spawn rfl
  | shutdown => exact ⟨.inl (.inl rfl), fun _ => .inl (.inl rfl), hc.backoff, hc.retry⟩

lemma awake_resumeQueue (o : QueueOptions) (db : DB) : Awake o (resumeQueue db) := by
  have hmax : queueBackoffMin ≤ queueBackoffMax := by decide
  rcases resumeQueue_loop db with ⟨hl, hw⟩ | ⟨hl, hq⟩
  · exact ⟨.inl (.inr (.inl hw)), fun hf => by simp [hl, LoopPc.full] at hf, hmax,
      fun _ _ he => by simp [hl] at he⟩
  · refine ⟨.inr ?_, fun hf => by simp [hl, LoopPc.full] at hf, hmax, fun _ _ he => by simp [hl] at he⟩
    rw [hl]
    exact hq

lemma invariant_run {db : DB} (hdb : Consistent db) (ho : Ordered db) {events : List Event}
    (h : Run (Step o) (resumeQueue db) events c) : Mirrored c ∧ Awake o c :=
  Run.invariant (P := fun c => Mirrored c ∧ Awake o c) (fun _ _ _ hstep hs => ⟨hstep.mirrored hs.1,
    hstep.awake hs.1 hs.2⟩) h ⟨mirrored_resumeQueue hdb ho, awake_resumeQueue o db⟩

end

theorem queue_not_stranded {o : QueueOptions} {db : DB} (hdb : Consistent db) (ho : Ordered db)
    {events : List Event} {c : State} (h : Run (Step o) (resumeQueue db) events c) :
    (c.uncounted = 0 → (c.shared.db.queueDepth : ℤ) ≤ c.shared.depth) ∧
      (c.shared.closing = false → c.shared.db.queue ≠ [] →
        c.shared.loop.running = true ∨ c.shared.wake = true ∨ 0 < c.unsignalled ∨
        (∃ sleep full armed, c.shared.loop = .asleep (.timer (some sleep) full) armed ∧
          (∀ q ∈ c.shared.db.queue, sleep.covers q) ∧
          (full = true → o.slots ≤ c.shared.tokens ∨ 0 < c.releasing)) ∨
        ∃ length armed, c.shared.loop = .asleep (.backoff length) armed ∧ length ≤ queueBackoffMax) := by
  obtain ⟨hm, ha⟩ := invariant_run hdb ho h
  refine ⟨hm.queue_le_depth, fun hclosing hqueue => ?_⟩
  by_cases hw : c.shared.wake = true
  · exact .inr (.inl hw)
  by_cases hu : 0 < c.unsignalled
  · exact .inr (.inr (.inl hu))
  have hexcused : ¬ c.Excused := by
    rintro (hc | hc | hc)
    · simp [hclosing] at hc
    · exact hw hc
    · exact hu hc
  have hattends := ha.attends.resolve_left hexcused
  cases hl : c.shared.loop with
  | stopped =>
    rw [hl] at hattends
    exact absurd hattends hqueue
  | top | step pc | returned result => exact .inl rfl
  | asleep wait armed =>
    refine .inr (.inr (.inr ?_))
    cases wait with
    | backoff length => exact .inr ⟨length, armed, rfl, ha.retry length armed hl⟩
    | timer timer full =>
      rw [hl] at hattends
      obtain ⟨q, hq⟩ := List.exists_mem_of_ne_nil _ hqueue
      obtain ⟨sleep, rfl, _⟩ := hattends q hq
      refine .inl ⟨sleep, full, armed, rfl, fun q hq => ?_, fun hf => ?_⟩
      · obtain ⟨_, he, hcovers⟩ := hattends q hq
        exact Option.some_injective _ he ▸ hcovers
      · rcases ha.slots (by rw [hl]; exact hf) with he | he | he
        · exact absurd he hexcused
        · exact absurd he hqueue
        · exact he

def stalled : State where
  shared := { (resumeQueue backupQueued).shared with
    wake := false, loop := .asleep (.backoff (2 * second)) 899500000000, backoff := 4 * second }
  procs := []

lemma run_stalled : Run (Step oneSlot) (resumeQueue backupQueued) (List.replicate 9 .loop) stalled :=
  .cons (.loop (.again rfl)) <|
  .cons (.loop (.step (.entered (by decide)))) <|
  .cons (.loop (.step .notExpired)) <|
  .cons (.loop (.failed 898500000000 rfl)) <|
  .cons (.loop (.woken rfl)) <|
  .cons (.loop (.again rfl)) <|
  .cons (.loop (.step (.entered (by decide)))) <|
  .cons (.loop (.step .notExpired)) <|
  .cons (.loop (.failed 899500000000 rfl)) <|
  .nil _

theorem queue_not_stranded_backup :
    (stalled.shared.db.queueDepth : ℤ) ≤ stalled.shared.depth ∧
      ∃ length armed, stalled.shared.loop = .asleep (.backoff length) armed ∧ length ≤ queueBackoffMax := by
  obtain ⟨hdb, ho⟩ := consistent_ordered_of_run backup_enqueued
  obtain ⟨hdepth, hloop⟩ := queue_not_stranded hdb ho run_stalled
  refine ⟨hdepth rfl, ?_⟩
  rcases hloop rfl (by decide) with h | h | h | ⟨_, _, _, h, _⟩ | h
  · cases h
  · cases h
  · cases h
  · cases h
  · exact h

theorem sleeps_past_expiry :
    Consistent backupQueued ∧ Ordered backupQueued ∧
      Run (Step oneSlot) (resumeQueue backupQueued) (List.replicate 9 .loop) stalled ∧
      stalled.shared.closing = false ∧ stalled.shared.wake = false ∧ stalled.unsignalled = 0 ∧
      stalled.shared.tokens < oneSlot.slots ∧
      ∃ length armed, stalled.shared.loop = .asleep (.backoff length) armed ∧
        ∃ q ∈ stalled.shared.db.queue, armed < ofUnixMicro q.expiresUs ∧
        ofUnixMicro q.expiresUs < armed + length := by
  obtain ⟨hdb, ho⟩ := consistent_ordered_of_run backup_enqueued
  exact ⟨hdb, ho, run_stalled, rfl, rfl, rfl, by decide, _, _, rfl, _,
    List.mem_singleton_self _, by decide, by decide⟩

end Minicrond.Executor.Queue
