import Minicrond.Supervisor.OneLoop
import Mathlib.Tactic.Tauto

/-! The restart budget of a worker without backoff, and what becomes of a loop that has used it up. -/

namespace Minicrond.Supervisor

open Minicrond.Library

variable {s t : Supervision} {i : SupervisionEvent} {d : Worker} {l x : ℕ} {w w' : Shared} {p p' : LoopPc}
    {o o' : OpPc}

/-! ## Attempts -/

def Within (d : Worker) (w : Shared) (l : ℕ) : LoopPc → Prop
  | .unborn | .ended => True
  | .starting | .looking => w.begun ≤ w.failures ∧ w.failures < d.maxRestartAttempts
  | .checking | .delaying | .delayed =>
    w.begun ≤ w.failures ∧ w.begun ≤ d.maxRestartAttempts ∧ (w.failures < d.maxRestartAttempts ∨ w.ctxErr l = true)
  | .persisting e _ | .saving e _ | .saved e _ _ | .retrying e _ | .announcing e | .persisted e =>
    w.begun ≤ w.failures ∧ w.begun ≤ d.maxRestartAttempts ∧ e ≤ w.epoch ∧ (w.failures = 0 ∨ w.epoch = e)
  | .exiting | .closing _ | .finishing => w.begun ≤ d.maxRestartAttempts
  | _ => w.begun ≤ w.failures + 1 ∧ w.failures < d.maxRestartAttempts

lemma Within.begun (h : Within d w l p) (hp : p.alive = true) : w.begun ≤ d.maxRestartAttempts := by
  cases p <;> simp only [Within, LoopPc.alive, Bool.false_eq_true] at h hp ⊢ <;> omega

lemma Within.loop_step (h : LoopStep d l w p w' p') (hd : d.restartBackoffMax = 0) (hw : Within d w l p) :
    Within d w' l p' := by
  have hpos := d.attempts_pos
  cases h
  case start => exact ⟨hw.1, hw.1.trans hw.2.le, .inl hw.2⟩
  case check hctx => exact ⟨hw.1, hw.2.2.resolve_right (by simp [hctx])⟩
  case attempt => exact ⟨Nat.succ_le_succ hw.1, hw.2⟩
  case restartHealthy => exact ⟨le_rfl, Nat.zero_le _, .inl hpos⟩
  case restartUnhealthy hmore =>
    have hmore := hmore.resolve_left (by omega)
    exact ⟨hw.1, hw.1.trans hmore.le, .inl hmore⟩
  case exhaust hmax => exact ⟨hw.1, hw.1.trans hw.2, le_rfl, .inr rfl⟩
  -- The write was given up: its loop is cancelled, or a reset has emptied the count.
  case giveUp hgone =>
    refine ⟨hw.1, hw.2.1, hgone.symm.imp (fun he => ?_) id⟩
    rw [hw.2.2.2.resolve_right he]
    exact hpos
  case resume he =>
    refine ⟨hw.1, hw.2.1, .inl ?_⟩
    rw [hw.2.2.2.resolve_right he]
    exact hpos
  case retryOver hctx => exact ⟨hw.1, hw.2.1, .inr hctx⟩
  case finish => trivial
  all_goals first
    | exact hw
    | exact hw.begun rfl

structure CounterFrame (w w' : Shared) : Prop where
  epoch : w.epoch ≤ w'.epoch
  ctxErr : ∀ l, w.ctxErr l = true → w'.ctxErr l = true
  counts : w'.failures = 0 ∧ w'.begun = 0 ∨
    w'.failures = w.failures ∧ w'.begun = w.begun ∧ w'.epoch = w.epoch

lemma Within.frame (h : CounterFrame w w') (hw : Within d w l p) : Within d w' l p := by
  have hpos := d.attempts_pos
  have hctx := h.ctxErr l
  have hepoch := h.epoch
  rcases h.counts with ⟨hf, hb⟩ | ⟨hf, hb, he⟩
  · cases p <;> simp only [Within] at hw ⊢ <;> omega
  · cases p <;> simp only [Within, hf, hb, he] at hw ⊢ <;>
      first
        | exact hw
        | exact ⟨hw.1, hw.2.1, hw.2.2.imp id hctx⟩

lemma Shared.ctxErr_cancel {k : ℕ} (h : w.ctxErr l = true) : (w.cancel k).ctxErr l = true := by
  simp only [Shared.ctxErr, Shared.cancel, Bool.or_eq_true] at h ⊢
  refine h.imp id fun h => ?_
  by_cases hlk : l = k
  · rw [hlk, Function.update_self]
  · rwa [Function.update_of_ne hlk]

lemma OpStep.counters (h : OpStep x w o w' o') : CounterFrame w w' := by
  cases h
  case reset => exact ⟨Nat.le_succ _, fun _ h => h, .inl ⟨rfl, rfl⟩⟩
  case startJoin => exact ⟨le_rfl, fun _ h => Shared.ctxErr_cancel h, .inl ⟨rfl, rfl⟩⟩
  case startKeep => exact ⟨le_rfl, fun _ h => h, .inl ⟨rfl, rfl⟩⟩
  case reloadReplace => exact ⟨le_rfl, fun _ h => Shared.ctxErr_cancel h, .inr ⟨rfl, rfl, rfl⟩⟩
  case restartCancel old =>
    cases old with
    | none => exact ⟨le_rfl, fun _ h => h, .inr ⟨rfl, rfl, rfl⟩⟩
    | some k => exact ⟨le_rfl, fun _ h => Shared.ctxErr_cancel h, .inr ⟨rfl, rfl, rfl⟩⟩
  case restartStop run | stop run => cases run <;> exact ⟨le_rfl, fun _ h => h, .inr ⟨rfl, rfl, rfl⟩⟩
  all_goals exact ⟨le_rfl, fun _ h => h, .inr ⟨rfl, rfl, rfl⟩⟩

def Budgeted (s : Supervision) : Prop :=
  ∀ l d, s.shared.defs l = some d → d.restartBackoffMax = 0 → Within d s.shared l (s.pc l)

lemma Within.of_dead (h : p.alive = false) : Within d w l p := by
  cases p <;> trivial

lemma Budgeted.step (h : SupervisionStep s i t) (hone : OneLoop s) (hs : Budgeted s) : Budgeted t := by
  intro k d hd hb
  cases h with
  | @loop l d' w p hd' h =>
    by_cases hkl : k = l
    · subst hkl
      have hsame : d' = d := Option.some.inj (hd'.symm.trans (h.frame.defs ▸ hd))
      subst hsame
      simpa using (hs k d' hd' hb).loop_step h hb
    · simp only [Function.update_of_ne hkl]
      refine Within.of_dead (Bool.eq_false_iff.mpr fun hk => hkl (hone.loop_unique hk h.alive))
  | op h => exact (hs k d (h.frame.defs ▸ hd) hb).frame h.counters
  | launch h =>
    by_cases hk : k = s.shared.nextLoop
    · have hpos := d.attempts_pos
      simp only [hk, Function.update_self]
      exact ⟨le_rfl, hpos⟩
    · simp only [Function.update_of_ne hk]
      refine Within.of_dead (Bool.eq_false_iff.mpr fun halive => ?_)
      exact Option.some_ne_none k (((hone.alive k).1 halive).symm.trans (hone.free_of_launches h))
  | call | stop | runEnds | edit =>
    exact (hs k d hd hb).frame ⟨le_rfl, fun _ h => h, .inr ⟨rfl, rfl, rfl⟩⟩
  | shutdown =>
    have hframe : CounterFrame s.shared { s.shared with closing := true } :=
      ⟨le_rfl, fun _ _ => rfl, .inr ⟨rfl, rfl, rfl⟩⟩
    exact (hs k d hd hb).frame hframe

lemma Budgeted.initial : Budgeted {} := by
  intro l d hd
  simp at hd

/-! ## A used up budget -/

/-- What has become of the exhaustion of loop `l`, which had announced `a` times before: it is still to be written,
or it was `stored` and announced, or it was `stale`, or the loop is cancelled. -/
def Settling (a ep f : ℕ) (stored stale : Prop) (w : Shared) (l : ℕ) : LoopPc → Prop
  | .persisting e g | .saving e g | .retrying e g | .saved e g .failed => (e = ep ∧ g = f) ∧ w.announced l = a
  | .saved e _ .ok | .announcing e => e = ep ∧ w.announced l = a ∧ stored
  | .saved e _ .stale => e = ep ∧ w.announced l = a ∧ stale
  | .persisted e => e = ep ∧ (w.announced l = a + 1 ∧ stored ∨ w.announced l = a ∧ stale)
  | .delaying | .delayed | .checking => w.ctxErr l = true
  | .exiting | .finishing | .ended =>
    w.announced l = a + 1 ∧ stored ∨ w.announced l = a ∧ stale ∨ w.ctxErr l = true
  | _ => False

section Settling

variable {a ep f : ℕ} {stored stale stored' stale' : Prop}

lemma Settling.frame (hs : stored → stored') (hs' : stale → stale') (hann : w'.announced l = w.announced l)
    (hctx : w.ctxErr l = true → w'.ctxErr l = true) (h : Settling a ep f stored stale w l p) :
    Settling a ep f stored' stale' w' l p := by
  cases p
  case saved e g err => cases err <;> simp only [Settling, hann] at h ⊢ <;> tauto
  all_goals simp only [Settling, hann] at h ⊢ <;> tauto

lemma Settling.loop_step (h : LoopStep d l w p w' p') (hepoch : w.epoch = ep)
    (hidle : p = .exiting → w.active = none) (hs : stored → stored')
    (hs' : stale → stale') (hstored : w'.exhaustion = some f → stored')
    (hstale : ¬ (w.revision = d.revision ∧ w.deleted = false) → stale') (hw : Settling a ep f stored stale w l p) :
    Settling a ep f stored' stale' w' l p' := by
  cases h
  case save e g _ =>
    obtain ⟨⟨rfl, rfl⟩, ha⟩ := hw
    exact ⟨rfl, ha, hstored rfl⟩
  case saveStale hrow => exact ⟨hw.1.1, hw.2, hstale hrow⟩
  case stored => exact ⟨hw.1, hw.2.1, hs hw.2.2⟩
  case stale => exact ⟨hw.1, .inr ⟨hw.2.1, hs' hw.2.2⟩⟩
  case announce => exact ⟨hw.1, .inl ⟨by simpa using hw.2.1, hs hw.2.2⟩⟩
  case retire => exact (hw.2.imp (fun h => ⟨h.1, hs h.2⟩) fun h => .inl ⟨h.1, hs' h.2⟩)
  case resume he => exact absurd (hepoch.trans hw.1.symm) he
  case giveUp hgone => exact hgone.resolve_right fun he => he (hepoch.trans hw.1.1.symm)
  case retryOver hctx => exact hctx
  case «over» hctx => exact .inr (.inr hctx)
  case check hctx => exact absurd (hctx.symm.trans hw) Bool.false_ne_true
  case delayOver | delayHeld => exact .inr (.inr hw)
  case exitStop hactive => exact absurd ((hidle rfl).symm.trans hactive) (by simp)
  case exitIdle | finish =>
    exact hw.imp (fun h => ⟨h.1, hs h.2⟩) fun h => h.imp (fun h => ⟨h.1, hs' h.2⟩) id
  all_goals first
    | exact hw
    | exact False.elim hw

lemma LoopStep.announced {k : ℕ} (h : LoopStep d l w p w' p') (hk : k ≠ l) : w'.announced k = w.announced k := by
  cases h
  case announce => exact Function.update_of_ne hk _ _
  all_goals rfl

lemma LoopFrame.ctxErr (h : LoopFrame w w') (l : ℕ) : w'.ctxErr l = w.ctxErr l := by
  rw [Shared.ctxErr, Shared.ctxErr, h.closing, h.cancelled]

lemma Settling.step (h : SupervisionStep s i t) (hone : OneLoop s) (hd : s.shared.defs l = some d)
    (hepoch : s.shared.epoch = ep) (hs : stored → stored') (hs' : stale → stale')
    (hstored : t.shared.exhaustion = some f → stored')
    (hstale : ¬ (s.shared.revision = d.revision ∧ s.shared.deleted = false) → stale')
    (hw : Settling a ep f stored stale s.shared l (s.pc l)) :
    Settling a ep f stored' stale' t.shared l (t.pc l) := by
  cases h with
  | @loop k d' w p hd' h =>
    by_cases hlk : l = k
    · subst hlk
      obtain rfl : d' = d := Option.some.inj (hd'.symm.trans hd)
      simpa using hw.loop_step h hepoch hone.idle_of_exiting hs hs' hstored hstale
    · simp only [Function.update_of_ne hlk]
      exact hw.frame hs hs' (h.announced hlk) fun hctx => (h.frame.ctxErr l).trans hctx
  | op h => exact hw.frame hs hs' (congrFun h.frame.announced l) (h.counters.ctxErr l)
  | launch h =>
    have hl : l ≠ s.shared.nextLoop := fun hl => by simp [hone.unborn l hl.ge, Settling] at hw
    simp only [Function.update_of_ne hl]
    exact hw.frame hs hs' rfl id
  | call | stop | runEnds | edit => exact hw.frame hs hs' rfl id
  | shutdown => exact Settling.frame (w := s.shared) hs hs' rfl (fun _ => rfl) hw

end Settling

lemma SupervisionStep.ctxErr (h : SupervisionStep s i t) (hs : s.shared.ctxErr l = true) :
    t.shared.ctxErr l = true := by
  cases h with
  | loop _ h => exact (h.frame.ctxErr l).trans hs
  | op h => exact h.counters.ctxErr l hs
  | launch | call | stop | runEnds | edit => exact hs
  | shutdown => rfl

lemma SupervisionStep.epoch_le (h : SupervisionStep s i t) : s.shared.epoch ≤ t.shared.epoch := by
  cases h with
  | loop _ h => exact h.frame.epoch.ge
  | op h => exact h.counters.epoch
  | launch | call | stop | runEnds | edit | shutdown => exact le_rfl

lemma SupervisionStep.defs (h : SupervisionStep s i t) (hone : OneLoop s) (hl : s.pc l ≠ .unborn) :
    t.shared.defs l = s.shared.defs l ∧ t.pc l ≠ .unborn := by
  cases h with
  | @loop k d' w p hd' h =>
    refine ⟨by rw [h.frame.defs], ?_⟩
    by_cases hlk : l = k
    · subst hlk
      rcases h.registered with ⟨hp, -⟩ | ⟨rfl, -⟩
      · rintro hunborn
        simp only [Function.update_self] at hunborn
        simp [hunborn, LoopPc.alive] at hp
      · simp
    · simpa [Function.update_of_ne hlk] using hl
  | op h => exact ⟨by rw [h.frame.defs], hl⟩
  | launch h =>
    have hne : l ≠ s.shared.nextLoop := fun heq => hl (hone.unborn l heq.ge)
    exact ⟨Function.update_of_ne hne _ _, by simpa [Function.update_of_ne hne] using hl⟩
  | call | stop | runEnds | edit | shutdown => exact ⟨rfl, hl⟩

section Execution

variable {e : Execution SupervisionStep} {n m ep f : ℕ}

lemma epoch_mono (hnm : n ≤ m) : (e.state n).shared.epoch ≤ (e.state m).shared.epoch := by
  refine Execution.stays (P := fun m => (e.state n).shared.epoch ≤ (e.state m).shared.epoch) (fun m _ hm => ?_)
    le_rfl m hnm
  rcases e.step m with hsame | ⟨i, hi⟩
  · rwa [hsame]
  · exact hm.trans hi.epoch_le

lemma ctxErr_mono (hnm : n ≤ m) (h : (e.state n).shared.ctxErr l = true) : (e.state m).shared.ctxErr l = true := by
  refine Execution.stays (P := fun m => (e.state m).shared.ctxErr l = true) (fun m _ hm => ?_) h m hnm
  rcases e.step m with hsame | ⟨i, hi⟩
  · rwa [hsame]
  · exact hi.ctxErr hm

def StoredBetween (e : Execution SupervisionStep) (f n m : ℕ) : Prop :=
  ∃ k, n ≤ k ∧ k ≤ m ∧ (e.state k).shared.exhaustion = some f

def StaleBetween (e : Execution SupervisionStep) (d : Worker) (n m : ℕ) : Prop :=
  ∃ k, n ≤ k ∧ k ≤ m ∧ ¬ ((e.state k).shared.revision = d.revision ∧ (e.state k).shared.deleted = false)

variable (hone : ∀ m, OneLoop (e.state m))

include hone

lemma defs_stay (hnm : n ≤ m) (hl : (e.state n).pc l ≠ .unborn) :
    (e.state m).shared.defs l = (e.state n).shared.defs l ∧ (e.state m).pc l ≠ .unborn := by
  refine Execution.stays
    (P := fun m => (e.state m).shared.defs l = (e.state n).shared.defs l ∧ (e.state m).pc l ≠ .unborn)
    (fun m _ hm => ?_) ⟨rfl, hl⟩ m hnm
  rcases e.step m with hsame | ⟨i, hi⟩
  · rwa [hsame]
  · obtain ⟨hdefs, hpc⟩ := hi.defs (hone m) hm.2
    exact ⟨hdefs.trans hm.1, hpc⟩

lemma settling_of_persisting (hd : (e.state n).shared.defs l = some d) (hpc : (e.state n).pc l = .persisting ep f)
    (hep : ep ≤ (e.state n).shared.epoch) (hnm : n ≤ m) (hm : (e.state m).shared.epoch = ep) :
    Settling ((e.state n).shared.announced l) ep f (StoredBetween e f n m) (StaleBetween e d n m)
      (e.state m).shared l ((e.state m).pc l) := by
  revert hm
  refine Execution.stays (P := fun m => (e.state m).shared.epoch = ep →
    Settling ((e.state n).shared.announced l) ep f (StoredBetween e f n m) (StaleBetween e d n m)
      (e.state m).shared l ((e.state m).pc l)) (fun m hnm ih hm => ?_) (fun _ => ?_) m hnm
  · have hstored : StoredBetween e f n m → StoredBetween e f n (m + 1) :=
      fun ⟨k, hk, hkm, h⟩ => ⟨k, hk, by omega, h⟩
    have hstale : StaleBetween e d n m → StaleBetween e d n (m + 1) := fun ⟨k, hk, hkm, h⟩ => ⟨k, hk, by omega, h⟩
    rcases e.step m with hsame | ⟨i, hi⟩
    · rw [hsame] at hm ⊢
      exact (ih hm).frame hstored hstale rfl id
    · have hepoch : (e.state m).shared.epoch = ep :=
        le_antisymm (hi.epoch_le.trans hm.le) (hep.trans (epoch_mono hnm))
      have hdm := (defs_stay hone hnm (by simp [hpc])).1.trans hd
      exact (ih hepoch).step hi (hone m) hdm hepoch hstored hstale (fun h => ⟨m + 1, by omega, le_rfl, h⟩)
        fun h => ⟨m, hnm, by omega, h⟩
  · rw [hpc]
    exact ⟨⟨rfl, rfl⟩, rfl⟩

end Execution

/-! ## The loop goes on -/

namespace LoopPc

def recording : LoopPc → Option ℕ
  | .persisting e _ | .saving e _ | .saved e _ _ | .retrying e _ | .announcing e | .persisted e => some e
  | _ => none

/-- Steps to the next attempt of a loop whose recording was overtaken, and to the end of one that leaves. -/
def distance : LoopPc → ℕ
  | .saving _ _ => 9
  | .saved _ _ _ => 8
  | .retrying _ _ | .announcing _ => 7
  | .persisting _ _ | .persisted _ => 6
  | .delaying => 5
  | .delayed => 4
  | .checking => 3
  | .looking | .exiting => 2
  | .finishing => 1
  | _ => 0

end LoopPc

def Returning (ep : ℕ) (p : LoopPc) : Prop :=
  p.recording = some ep ∨ p = .delaying ∨ p = .delayed ∨ p = .checking ∨ p = .looking

def Ending (w : Shared) (l : ℕ) : LoopPc → Prop
  | .saved _ _ .ok | .saved _ _ .stale | .announcing _ | .persisted _ | .exiting | .finishing => True
  | .persisting _ _ | .saving _ _ | .saved _ _ .failed | .retrying _ _ | .delaying | .delayed | .checking =>
    w.ctxErr l = true
  | _ => False

def Cycling (ep : ℕ) : LoopPc → Prop
  | .persisting e _ | .saving e _ | .retrying e _ | .saved e _ .failed => e = ep
  | _ => False

section Progress

variable {ep : ℕ}

lemma Returning.step (h : LoopStep d l w p w' p') (hp : Returning ep p) (hepoch : w.epoch ≠ ep)
    (hheld : w.held = false) (hctx : w.ctxErr l = false) :
    p' = .triggering ∨ Returning ep p' ∧ p'.distance < p.distance := by
  cases h <;> simp_all [Returning, LoopPc.recording, LoopPc.distance]

lemma Returning.passing (hp : Returning ep p) : p.passing = true := by
  cases p <;> simp_all [Returning, LoopPc.recording, LoopPc.passing]

lemma Ending.step (h : LoopStep d l w p w' p') (hp : Ending w l p)
    (hepoch : ∀ e, p.recording = some e → w.epoch = e) (hactive : p = .exiting → w.active = none) :
    p' = .ended ∨ Ending w' l p' ∧ p'.distance < p.distance := by
  cases h <;> simp_all [Ending, LoopPc.recording, LoopPc.distance, Shared.ctxErr]

lemma Ending.later (hp : Ending w l p) (hctx : w.ctxErr l = true → w'.ctxErr l = true) : Ending w' l p := by
  cases p
  case saved e g err => cases err <;> first | trivial | exact hctx hp
  all_goals first
    | trivial
    | exact hctx hp

lemma Ending.passing (hp : Ending w l p) : p.passing = true := by
  cases p <;> simp_all [Ending, LoopPc.passing]

lemma Cycling.step (h : LoopStep d l w p w' p') (hp : Cycling ep p) (hsaving : ∀ f, p ≠ .saving ep f)
    (hctx : w.ctxErr l = false) (hepoch : w.epoch = ep) :
    (∃ f, p' = .saving ep f) ∨ p'.distance < p.distance := by
  cases h <;> simp_all [Cycling, LoopPc.distance]

lemma Cycling.passing (hp : Cycling ep p) : p.passing = true := by
  cases p <;> simp_all [Cycling, LoopPc.passing]

lemma Settling.recording {a f e' : ℕ} {stored stale : Prop} (h : Settling a ep f stored stale w l p)
    (hp : p.recording = some e') : e' = ep := by
  cases p
  case saved e g err => cases err <;> simp_all [Settling, LoopPc.recording]
  all_goals simp_all [Settling, LoopPc.recording]

lemma Settling.cycling {a f : ℕ} {stored stale : Prop} (h : Settling a ep f stored stale w l p)
    (hend : ¬ Ending w l p) (hp : p ≠ .ended) : Cycling ep p ∧ w.ctxErr l = false := by
  cases p
  case saved e g err => cases err <;> simp_all [Settling, Ending, Cycling]
  all_goals simp_all [Settling, Ending, Cycling]

lemma Within.recording {e' : ℕ} (h : Within d w l p) (hp : p.recording = some e') : e' ≤ w.epoch := by
  cases p <;> simp_all [Within, LoopPc.recording]

def Recovers (e : Execution SupervisionStep) (l : ℕ) : Prop :=
  ∀ n, (∀ m, n ≤ m → ∃ k ep f, m ≤ k ∧ (e.state k).pc l = .saving ep f) →
    ∃ k ep f err, n ≤ k ∧ (e.state k).pc l = .saved ep f err ∧ err ≠ .failed

variable {e : Execution SupervisionStep} {n m f : ℕ} (hone : ∀ m, OneLoop (e.state m)) (hprompt : Prompt e)

include hone hprompt

lemma returns (hp : Returning ep ((e.state n).pc l)) (hepoch : ep < (e.state n).shared.epoch) :
    ∃ m, n ≤ m ∧
      ((e.state m).pc l = .triggering ∨ (e.state m).shared.held = true ∨ (e.state m).shared.ctxErr l = true) := by
  by_contra hnone
  have hfree : ∀ m, n ≤ m → (e.state m).shared.held = false ∧ (e.state m).shared.ctxErr l = false := by
    intro m hm
    exact ⟨Bool.eq_false_iff.mpr fun h => hnone ⟨m, hm, .inr (.inl h)⟩,
      Bool.eq_false_iff.mpr fun h => hnone ⟨m, hm, .inr (.inr h)⟩⟩
  have hfall : ∀ m, n ≤ m ∧ Returning ep ((e.state m).pc l) → ∃ k, m ≤ k ∧ ((e.state k).pc l = .triggering ∨
      (n ≤ k ∧ Returning ep ((e.state k).pc l)) ∧ ((e.state k).pc l).distance < ((e.state m).pc l).distance) := by
    intro m ⟨hnm, hm⟩
    obtain ⟨k, d, hk, -, h⟩ := loop_leaves (fun _ _ _ h => h) hone hprompt rfl hm.passing
    obtain ⟨hheld, hctx⟩ := hfree k (hnm.trans hk)
    have hlater : (e.state k).shared.epoch ≠ ep := (hepoch.trans_le (epoch_mono (hnm.trans hk))).ne'
    exact ⟨k + 1, by omega, (hm.step h hlater hheld hctx).imp id fun h => ⟨⟨by omega, h.1⟩, h.2⟩⟩
  obtain ⟨m, hm, hattempt⟩ :=
    Execution.eventually_of_rank (fun m => ((e.state m).pc l).distance) hfall ⟨le_rfl, hp⟩
  exact hnone ⟨m, hm, .inl hattempt⟩

lemma ends (hp : Ending (e.state n).shared l ((e.state n).pc l))
    (hepoch : ∀ m, n ≤ m → ∀ e', ((e.state m).pc l).recording = some e' → (e.state m).shared.epoch = e') :
    ∃ m, n ≤ m ∧ (e.state m).pc l = .ended := by
  have hfall : ∀ m, n ≤ m ∧ Ending (e.state m).shared l ((e.state m).pc l) → ∃ k, m ≤ k ∧
      ((e.state k).pc l = .ended ∨
      (n ≤ k ∧ Ending (e.state k).shared l ((e.state k).pc l)) ∧
        ((e.state k).pc l).distance < ((e.state m).pc l).distance) := by
    intro m ⟨hnm, hm⟩
    obtain ⟨k, d, hk, hsame, h⟩ := loop_leaves (fun _ _ _ h => h) hone hprompt rfl hm.passing
    have hk' : Ending (e.state k).shared l ((e.state m).pc l) := hm.later (ctxErr_mono hk)
    exact ⟨k + 1, by omega, (hk'.step h (hsame ▸ hepoch k (hnm.trans hk)) fun hexit =>
      (hone k).idle_of_exiting (hsame.trans hexit)).imp id fun h => ⟨⟨by omega, h.1⟩, h.2⟩⟩
  exact Execution.eventually_of_rank (fun m => ((e.state m).pc l).distance) hfall ⟨le_rfl, hp⟩

lemma saves_again (hctx : ∀ m, n ≤ m → (e.state m).shared.ctxErr l = false)
    (hepoch : ∀ m, n ≤ m → (e.state m).shared.epoch = ep) (hcycle : ∀ m, n ≤ m → Cycling ep ((e.state m).pc l))
    (hnm : n ≤ m) : ∃ k f, m ≤ k ∧ (e.state k).pc l = .saving ep f := by
  have hfall : ∀ j, m ≤ j → ∃ k, j ≤ k ∧ ((∃ f, (e.state k).pc l = .saving ep f) ∨
      m ≤ k ∧ ((e.state k).pc l).distance < ((e.state j).pc l).distance) := by
    intro j hj
    have hj' := hcycle j (hnm.trans hj)
    by_cases hsaving : ∃ f, (e.state j).pc l = .saving ep f
    · exact ⟨j, le_rfl, .inl hsaving⟩
    · obtain ⟨k, d, hk, -, h⟩ := loop_leaves (fun _ _ _ h => h) hone hprompt rfl hj'.passing
      refine ⟨k + 1, by omega, ?_⟩
      refine (hj'.step h (fun f hf => hsaving ⟨f, hf⟩) (hctx k (by omega)) (hepoch k (by omega))).imp id
        fun h => ?_
      exact ⟨by omega, h⟩
  obtain ⟨k, hk, f, hf⟩ := Execution.eventually_of_rank (fun j => ((e.state j).pc l).distance) hfall le_rfl
  exact ⟨k, f, hk, hf⟩

lemma exhausted_ends {a : ℕ} {stored stale : ℕ → Prop} (hrec : Recovers e l)
    (hset : ∀ m, n ≤ m → Settling a ep f (stored m) (stale m) (e.state m).shared l ((e.state m).pc l))
    (hepoch : ∀ m, n ≤ m → (e.state m).shared.epoch = ep) : ∃ m, n ≤ m ∧ (e.state m).pc l = .ended := by
  by_cases hend : ∃ m, n ≤ m ∧ Ending (e.state m).shared l ((e.state m).pc l)
  · obtain ⟨m, hm, hp⟩ := hend
    obtain ⟨k, hk, hended⟩ := ends hone hprompt hp fun k hk e' he' =>
      (hepoch k (by omega)).trans ((hset k (by omega)).recording he').symm
    exact ⟨k, hm.trans hk, hended⟩
  · by_contra hnone
    have hcycle : ∀ m, n ≤ m → Cycling ep ((e.state m).pc l) ∧ (e.state m).shared.ctxErr l = false := fun m hm =>
      (hset m hm).cycling (fun h => hend ⟨m, hm, h⟩) fun h => hnone ⟨m, hm, h⟩
    obtain ⟨k, e', f', err, hk, hsaved, herr⟩ := hrec n fun m hm => by
      obtain ⟨k, g, hk, hg⟩ := saves_again hone hprompt (fun m hm => (hcycle m hm).2) hepoch
        (fun m hm => (hcycle m hm).1) hm
      exact ⟨k, ep, g, hk, hg⟩
    refine hend ⟨k, hk, ?_⟩
    rw [hsaved]
    cases err <;> trivial

end Progress

/-- Whatever happens to the worker, its loop begins at most `maxRestartAttempts` attempts since it started, since
its last healthy lifetime and since the last reset. Once they are used up, and until a reset, it makes no
attempt, and when it has ended its exhaustion was stored and announced once, or was stale, or the loop is
cancelled. It does end if the store recovers. A loop that finds its epoch over makes another attempt unless it is
held or cancelled. -/
theorem restart_budget {e : Execution SupervisionStep} (he : e.state 0 = {}) {n : ℕ}
    (hd : (e.state n).shared.defs l = some d) (hbackoff : d.restartBackoffMax = 0) :
    (((e.state n).pc l).alive = true → (e.state n).shared.begun ≤ d.maxRestartAttempts) ∧
    (∀ ep f, (e.state n).pc l = .persisting ep f →
      (∀ m, n ≤ m → (e.state m).shared.epoch = ep →
        (e.state m).pc l ≠ .triggering ∧
        ((e.state m).pc l = .ended →
          (e.state m).shared.announced l = (e.state n).shared.announced l + 1 ∧ StoredBetween e f n m ∨
          (e.state m).shared.announced l = (e.state n).shared.announced l ∧ StaleBetween e d n m ∨
          (e.state m).shared.ctxErr l = true)) ∧
      (Prompt e → Recovers e l → ∃ m, n ≤ m ∧ ((e.state m).pc l = .ended ∨ (e.state m).shared.epoch ≠ ep))) ∧
    ∀ ep, ((e.state n).pc l).recording = some ep → (e.state n).shared.epoch ≠ ep → Prompt e →
      ∃ m, n ≤ m ∧
        ((e.state m).pc l = .triggering ∨ (e.state m).shared.held = true ∨
        (e.state m).shared.ctxErr l = true) := by
  have hall : ∀ m, OneLoop (e.state m) ∧ Budgeted (e.state m) :=
    Execution.invariant (P := fun s => OneLoop s ∧ Budgeted s) (fun _ _ _ h hs => ⟨hs.1.step h, hs.2.step h hs.1⟩)
      (he ▸ ⟨OneLoop.initial, Budgeted.initial⟩)
  have hone := fun m => (hall m).1
  have hwithin := (hall n).2 l d hd hbackoff
  refine ⟨hwithin.begun, fun ep f hpc => ?_, fun ep hrec hepoch hprompt => ?_⟩
  · have hep : ep ≤ (e.state n).shared.epoch := by
      rw [hpc] at hwithin
      exact hwithin.2.2.1
    have hset := fun m hnm => settling_of_persisting hone hd hpc hep (m := m) hnm
    refine ⟨fun m hnm hm => ⟨fun htrig => ?_, fun hended => ?_⟩, fun hprompt hrec => ?_⟩
    · simpa [htrig, Settling] using hset m hnm hm
    · simpa [hended, Settling] using hset m hnm hm
    · by_contra hnone
      have hepoch : ∀ m, n ≤ m → (e.state m).shared.epoch = ep := fun m hm =>
        Classical.byContradiction fun h => hnone ⟨m, hm, .inr h⟩
      obtain ⟨m, hm, hended⟩ := exhausted_ends hone hprompt hrec (fun m hm => hset m hm (hepoch m hm)) hepoch
      exact hnone ⟨m, hm, .inl hended⟩
  · have hlt : ep < (e.state n).shared.epoch := lt_of_le_of_ne (hwithin.recording hrec) (Ne.symm hepoch)
    exact returns hone hprompt (.inl hrec) hlt

section

variable {n k : ℕ} {hn : 0 < n} {q : LoopPc} {os : List OpPc}

lemma run_refused (hk : k + 1 < n) :
    Run SupervisionStep (.of (triggering (attempts n hn) k) [.triggering, q] os) (List.replicate 7 (.loop 0))
      (.of (triggering (attempts n hn) (k + 1)) [.triggering, q] os) :=
  .cons (.loop_of (l := 0) (by simp) rfl (.refuse _ false)) <|
  .cons (.loop_of (l := 0) (by simp) rfl (.refusedAgain rfl (by simp [attempts]))) <|
  .cons (.loop_of (l := 0) (by simp) rfl (.restartUnhealthy rfl (.inr hk))) <|
  .cons (.loop_of (l := 0) (by simp) rfl (.timer _)) <|
  .cons (.loop_of (l := 0) (by simp) rfl (.again rfl)) <|
  .cons (.loop_of (l := 0) (by simp) rfl (.check rfl)) <|
  .cons (.loop_of (l := 0) (by simp) rfl (.attempt rfl)) <|
  .nil _

def exhausted (d : Worker) : Shared :=
  { reloaded d with failures := d.maxRestartAttempts, begun := d.maxRestartAttempts }

lemma run_exhausted :
    Run SupervisionStep (.of (triggering (attempts (k + 1) k.succ_pos) k) [.triggering, q] os)
      (List.replicate 3 (.loop 0))
      (.of (exhausted (attempts (k + 1) k.succ_pos)) [.persisting 1 (k + 1), q] os) :=
  .cons (.loop_of (l := 0) (by simp) rfl (.refuse _ false)) <|
  .cons (.loop_of (l := 0) (by simp) rfl (.refusedAgain rfl (by simp [attempts]))) <|
  .cons (.loop_of (l := 0) (by simp) rfl (.exhaust rfl rfl le_rfl)) <|
  .nil _

def retired (d : Worker) : Shared :=
  { exhausted d with
    exhaustion := some d.maxRestartAttempts
    announced := Function.update (fun _ => 0) 0 1
    retiring := true }

variable (hn q os) in
lemma run_retired :
    Run SupervisionStep (.of (exhausted (attempts n hn)) [.persisting 1 n, q] os) (List.replicate 7 (.loop 0))
      (.of ((retired (attempts n hn)).finish 0) [.ended, q] os) :=
  .cons (.loop_of (l := 0) (by simp) rfl (.mark rfl rfl rfl)) <|
  .cons (.loop_of (l := 0) (by simp) rfl (.save ⟨rfl, rfl⟩)) <|
  .cons (.loop_of (l := 0) (by simp) rfl (.stored _ _ _)) <|
  .cons (.loop_of (l := 0) (by simp) rfl (.announce _ _)) <|
  .cons (.loop_of (l := 0) (by simp) rfl (.retire rfl)) <|
  .cons (.loop_of (l := 0) (by simp) rfl (.exitIdle rfl)) <|
  .cons (.loop_of (l := 0) (by simp) rfl (.finish _)) <|
  .nil _

end

abbrev twoAttempts : Worker := attempts 2 Nat.two_pos

/-- Both attempts are refused; the second refusal uses the budget up, and the loop ends. -/
theorem restart_budget_two_attempts :
    ∃ (e : Execution SupervisionStep) (n : ℕ), e.state 0 = {} ∧ (e.state n).pc 0 = .persisting 1 2 ∧
      (e.state n).shared.begun = 2 ∧ Prompt e ∧ Recovers e 0 ∧
      (∀ m, n ≤ m → (e.state m).shared.epoch = 1 → (e.state m).pc 0 ≠ .triggering) ∧
      ∃ m, n ≤ m ∧ ((e.state m).pc 0 = .ended ∨ (e.state m).shared.epoch ≠ 1) := by
  have hs :=
    (run_reloaded _).append (run_triggering.append ((run_refused Nat.one_lt_two).append (run_exhausted (k := 1))))
  have hu := run_retired Nat.two_pos .unborn [.idle, .idle, .idle]
  have hloops : ∀ l, ([LoopPc.ended, .unborn].getD l .unborn).passing = false
    | 0 | 1 | _ + 2 => rfl
  have hops : ∀ x run, [OpPc.idle, .idle, .idle].getD x .idle ≠ .stopping run
    | 0, _ | 1, _ | 2, _ | _ + 3, _ => nofun
  obtain ⟨e₁, k, hzero, hlast⟩ := Execution.prepend hu (.constant _ _) rfl
  obtain ⟨e, n, he, hn⟩ := Execution.prepend hs e₁ hzero
  have hfinal : ∀ m, n + k ≤ m →
      e.state m = .of ((retired twoAttempts).finish 0) [.ended, .unborn] [.idle, .idle, .idle] := by
    intro m hm
    obtain ⟨j, rfl⟩ := Nat.exists_eq_add_of_le hm
    rw [Nat.add_assoc, hn, hlast]
    rfl
  have hstate : e.state n = .of (exhausted twoAttempts) [.persisting 1 2, .unborn] [.idle, .idle, .idle] :=
    (hn 0).trans hzero
  have hprompt : Prompt e := Prompt.of_final hfinal hloops hops
  have hrec : Recovers e 0 := by
    intro m hsaving
    obtain ⟨j, ep, f, hj, hpc⟩ := hsaving (max m (n + k)) (le_max_left _ _)
    rw [hfinal j (le_of_max_le_right hj)] at hpc
    cases hpc
  have hpc : (e.state n).pc 0 = .persisting 1 2 := by rw [hstate]; rfl
  have hdefs : (e.state n).shared.defs 0 = some twoAttempts := by rw [hstate]; rfl
  obtain ⟨hsafe, hends⟩ := (restart_budget he hdefs rfl).2.1 1 2 hpc
  exact ⟨e, n, he, hpc, by rw [hstate]; rfl, hprompt, hrec, fun m hm hepoch => (hsafe m hm hepoch).1,
    hends hprompt hrec⟩

theorem deleted_worker_ends_unrecorded :
    ∃ is s js u, Run SupervisionStep {} is s ∧ s.pc 0 = .persisting 1 1 ∧ s.shared.epoch = 1 ∧
      Run (guarded SupervisionStep fun s _ => s.shared.revision = oneAttempt.revision) s js u ∧
      u.shared.revision = oneAttempt.revision ∧ u.shared.deleted = true ∧ u.shared.epoch = 1 ∧
      u.shared.ctxErr 0 = false ∧ u.pc 0 = .ended ∧ u.shared.exhaustion = none ∧ u.shared.announced 0 = 0 := by
  have hs := (run_reloaded _).append (run_triggering.append (run_exhausted (k := 0)))
  exact ⟨_, _, _, _, hs, rfl, rfl,
    .cons ⟨rfl, .edit _ 4 true⟩ <|
    .cons ⟨rfl, .loop_of (l := 0) (by simp) rfl (.mark rfl rfl rfl)⟩ <|
    .cons ⟨rfl, .loop_of (l := 0) (by simp) rfl (.saveStale fun h => nomatch h.2)⟩ <|
    .cons ⟨rfl, .loop_of (l := 0) (by simp) rfl (.stale _ _ _)⟩ <|
    .cons ⟨rfl, .loop_of (l := 0) (by simp) rfl (.retire rfl)⟩ <|
    .cons ⟨rfl, .loop_of (l := 0) (by simp) rfl (.exitIdle rfl)⟩ <|
    .cons ⟨rfl, .loop_of (l := 0) (by simp) rfl (.finish _)⟩ <|
    .nil _, rfl, rfl, rfl, rfl, rfl, rfl, rfl⟩

end Minicrond.Supervisor
