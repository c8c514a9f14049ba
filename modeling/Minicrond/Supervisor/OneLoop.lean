import Minicrond.Supervisor.Worker
import Mathlib.Algebra.Order.Group.Nat

/-! A worker has at most one loop and at most one run. -/

namespace Minicrond.Supervisor

open Minicrond.Library

variable {s t : Supervision} {i : SupervisionEvent} {d : Worker} {l x r : ℕ} {w w' : Shared} {p p' : LoopPc}
    {o o' : OpPc}

/-! ## Steps of a loop -/

lemma Shared.live_stop (w : Shared) (r q : ℕ) : ((w.stop r).runs q).live = (w.runs q).live := by
  simp only [Shared.stop]
  split_ifs with hr
  · by_cases hq : q = r
    · rw [hq, Function.update_self, hr]
      rfl
    · rw [Function.update_of_ne hq]
  · rfl

structure LoopFrame (w w' : Shared) : Prop where
  closing : w'.closing = w.closing
  held : w'.held = w.held
  epoch : w'.epoch = w.epoch
  lifecycle : w'.lifecycle = w.lifecycle
  nextLoop : w'.nextLoop = w.nextLoop
  defs : w'.defs = w.defs
  cancelled : w'.cancelled = w.cancelled

lemma LoopStep.frame (h : LoopStep d l w p w' p') : LoopFrame w w' := by
  cases h <;> constructor <;> rfl

lemma LoopStep.alive (h : LoopStep d l w p w' p') : p.alive = true := by
  cases h <;> rfl

lemma LoopStep.ne_of_dead {k : ℕ} (h : LoopStep d l w (s.pc l) w' p') (hk : (s.pc k).alive = false) : k ≠ l := by
  rintro rfl
  exact Bool.false_ne_true (hk.symm.trans h.alive)

lemma LoopStep.registered (h : LoopStep d l w p w' p') :
    p'.alive = true ∧ w'.loop = w.loop ∧ w'.done = w.done ∨
      p' = .ended ∧ w'.loop = none ∧ w'.done = Function.update w.done l true := by
  cases h
  case finish => exact .inr ⟨rfl, rfl, rfl⟩
  all_goals exact .inl ⟨rfl, rfl, rfl⟩

lemma LoopStep.live (h : LoopStep d l w p w' p') (hr : (w'.runs r).live = true) :
    p'.run? = some r ∨ (w.runs r).live = true ∧ p.run? ≠ some r := by
  cases h
  case trigger =>
    by_cases heq : r = w.nextRun
    · exact .inl (heq ▸ rfl)
    · exact .inr ⟨by simpa [Shared.trigger, Shared.setRun,
        Function.update_of_ne heq] using hr, by simp [LoopPc.run?]⟩
  case refuseTerminal =>
    by_cases heq : r = w.nextRun
    · simp [heq, Shared.trigger, Shared.setRun, RunStatus.live] at hr
    · exact .inr ⟨by simpa [Shared.trigger, Shared.setRun,
        Function.update_of_ne heq] using hr, by simp [LoopPc.run?]⟩
  case record q | watch q =>
    by_cases heq : q = r
    · exact .inl (heq ▸ rfl)
    · exact .inr ⟨hr, by simpa [LoopPc.run?] using heq⟩
  case stopHeld q | stopCancelled q _ =>
    rw [Shared.live_stop] at hr
    by_cases heq : q = r
    · exact .inl (heq ▸ rfl)
    · exact .inr ⟨hr, by simpa [LoopPc.run?] using heq⟩
  case runOver q hover | stopped q hover =>
    refine .inr ⟨hr, fun heq => ?_⟩
    cases heq
    exact Bool.false_ne_true (hover.symm.trans hr)
  case exitStop q _ =>
    rw [Shared.live_stop] at hr
    exact .inr ⟨hr, by simp [LoopPc.run?]⟩
  all_goals exact .inr ⟨hr, by simp [LoopPc.run?]⟩

lemma LoopStep.active (h : LoopStep d l w p w' p') (hp : p'.recorded? = some r)
    (hw : ∀ r, p.recorded? = some r → w.active = some r) : w'.active = some r := by
  cases h
  case record => exact hp
  all_goals first
    | exact hw r hp
    | simp [LoopPc.recorded?] at hp

lemma LoopStep.recorded (h : LoopStep d l w p w' p') (hr : w'.active = some r)
    (hw : ∀ r, p.recorded? = some r → w.active = some r) :
    p'.recorded? = some r ∨ w.active = some r ∧ p.recorded? ≠ some r := by
  cases h
  case record => exact .inl hr
  case stopped q _ | dropRun q =>
    simp [Shared.drop, hw q rfl] at hr
  case watch q | stopHeld q | stopCancelled q _ | runOver q _ =>
    exact .inl ((hw q rfl).symm.trans hr)
  case finish => simp [Shared.finish] at hr
  all_goals exact .inr ⟨hr, by simp [LoopPc.recorded?]⟩

/-! ## Steps of an operation -/

structure OpFrame (w w' : Shared) : Prop where
  closing : w'.closing = w.closing
  loop : w'.loop = w.loop
  done : w'.done = w.done
  nextLoop : w'.nextLoop = w.nextLoop
  defs : w'.defs = w.defs
  active : w'.active = w.active
  announced : w'.announced = w.announced
  live : ∀ r, (w'.runs r).live = (w.runs r).live

lemma OpStep.frame (h : OpStep x w o w' o') : OpFrame w w' := by
  cases h
  case restartStop run | stop run =>
    cases run with
    | none => constructor <;> intros <;> rfl
    | some q =>
      exact { live := w.live_stop q, closing := rfl, loop := rfl, done := rfl, nextLoop := rfl, defs := rfl,
                        active := rfl, announced := rfl }
  case restartCancel old => cases old <;> constructor <;> intros <;> rfl
  all_goals constructor <;> intros <;> rfl

lemma OpStep.lifecycle (h : OpStep x w o w' o') :
    w'.lifecycle = w.lifecycle ∧ o'.inside = o.inside ∨
      w.lifecycle = none ∧ w'.lifecycle = some x ∧ o'.inside = true ∨
      w'.lifecycle = none ∧ o.inside = true ∧ o'.inside = false := by
  cases h
  case enter op hfree => cases op <;> exact .inr (.inl ⟨hfree, rfl, rfl⟩)
  case replaceEnter hfree => exact .inr (.inl ⟨hfree, rfl, rfl⟩)
  case reset op ok _ => cases op <;> exact .inl ⟨rfl, rfl⟩
  case restartStop run | stop run => cases run <;> exact .inl ⟨rfl, rfl⟩
  case restartCancel old => cases old <;> exact .inl ⟨rfl, rfl⟩
  all_goals first
    | exact .inl ⟨rfl, rfl⟩
    | exact .inr (.inr ⟨rfl, rfl, rfl⟩)

lemma OpStep.replaces {old : Option ℕ} (h : OpStep x w o w' o') (hold : o'.replaces = some old) :
    w.loop = none ∨ w.loop = old := by
  cases h
  case enter op _ => cases op <;> simp [Operation.enter, OpPc.replaces] at hold
  case reset op _ _ => cases op <;> simp [Operation.next, OpPc.replaces] at hold
  case startJoin hl _ => exact .inr (hl.trans (Option.some.inj hold))
  case reloadReplace want _ hl _ =>
    cases want with
    | none => simp [OpPc.replaces] at hold
    | some _ => exact .inr (hl.trans (Option.some.inj hold))
  case reloadFresh hl => exact .inl hl
  all_goals simp [OpPc.replaces] at hold

lemma OpPc.inside_of_replaces {old : Option ℕ} (h : o.replaces = some old) : o.inside = true := by
  cases o <;> first | rfl | simp [OpPc.replaces] at h

lemma Launches.inside (h : Launches w o d) : o.inside = true := by
  cases h <;> rfl

lemma Launches.open (h : Launches w o d) : w.closing = false := by
  cases h with
  | start _ h | join _ h =>
    simp only [Shared.startable, Bool.and_eq_true, Bool.not_eq_true_eq_eq_false] at h
    exact h.1.1
  | reload _ h => exact h

/-! ## The invariant -/

structure OneLoop (s : Supervision) : Prop where
  lifecycle : ∀ x, s.shared.lifecycle = some x ↔ (s.op x).inside = true
  alive : ∀ l, (s.pc l).alive = true ↔ s.shared.loop = some l
  unborn : ∀ l, s.shared.nextLoop ≤ l → s.pc l = .unborn
  done : ∀ l, s.shared.done l = true → s.pc l = .ended
  replaces : ∀ x old, (s.op x).replaces = some old → s.shared.loop = none ∨ s.shared.loop = old
  runs : ∀ r, (s.shared.runs r).live = true → ∃ l, (s.pc l).run? = some r
  active : ∀ l r, (s.pc l).recorded? = some r → s.shared.active = some r
  recorded : ∀ r, s.shared.active = some r → ∃ l, (s.pc l).recorded? = some r

lemma OneLoop.initial : OneLoop {} where
  lifecycle x := by simp [OpPc.inside]
  alive l := by simp [LoopPc.alive]
  unborn _ _ := rfl
  done l h := by simp at h
  replaces x old h := by simp [OpPc.replaces] at h
  runs r h := by simp [RunStatus.live] at h
  active l r h := by simp [LoopPc.recorded?] at h
  recorded r h := by simp at h

lemma LoopPc.alive_of_run? (h : p.run? = some r) : p.alive = true := by
  cases p <;> first | rfl | simp [LoopPc.run?] at h

lemma LoopPc.alive_of_recorded? (h : p.recorded? = some r) : p.alive = true := by
  cases p <;> first | rfl | simp [LoopPc.recorded?] at h

lemma OneLoop.loop_unique (hs : OneLoop s) {k : ℕ} (hl : (s.pc l).alive = true) (hk : (s.pc k).alive = true) :
    l = k :=
  Option.some.inj (((hs.alive l).1 hl).symm.trans ((hs.alive k).1 hk))

lemma OneLoop.loop_step (hs : OneLoop s) (h : LoopStep d l s.shared (s.pc l) w p) :
    OneLoop { s with shared := w, pc := Function.update s.pc l p } := by
  have hl : s.shared.loop = some l := (hs.alive l).1 h.alive
  have hframe := h.frame
  refine ⟨fun x => ?_, fun k => ?_, fun k hk => ?_, fun k hk => ?_, fun x old hold => ?_, fun r hr => ?_,
    fun k r hk => ?_, fun r hr => ?_⟩
  · exact hframe.lifecycle ▸ hs.lifecycle x
  · by_cases hkl : k = l
    · subst hkl
      rcases h.registered with ⟨hp, hloop, -⟩ | ⟨rfl, hloop, -⟩
      · simp [hp, hloop, hl]
      · simp [hloop, LoopPc.alive]
    · have hne : ¬ s.shared.loop = some k := fun hk => hkl (Option.some.inj (hk.symm.trans hl))
      have hdead : ¬ (s.pc k).alive = true := fun hk => hne ((hs.alive k).1 hk)
      rcases h.registered with ⟨-, hloop, -⟩ | ⟨-, hloop, -⟩
      · simp [Function.update_of_ne hkl, hloop, hne, hdead]
      · simp [Function.update_of_ne hkl, hloop, hdead]
  · have hunborn := hs.unborn k (hframe.nextLoop ▸ hk)
    have hkl : k ≠ l := h.ne_of_dead (hunborn ▸ rfl)
    simpa [Function.update_of_ne hkl] using hunborn
  · rcases h.registered with ⟨-, -, hdone⟩ | ⟨rfl, -, hdone⟩
    · have hended := hs.done k (hdone ▸ hk)
      have hkl : k ≠ l := h.ne_of_dead (hended ▸ rfl)
      simpa [Function.update_of_ne hkl] using hended
    · by_cases hkl : k = l
      · simp [hkl]
      · rw [hdone, Function.update_of_ne hkl] at hk
        simpa [Function.update_of_ne hkl] using hs.done k hk
  · rcases h.registered with ⟨-, hloop, -⟩ | ⟨-, hloop, -⟩
    · exact hloop ▸ hs.replaces x old hold
    · exact .inl hloop
  · rcases h.live hr with hp | ⟨hlive, hp⟩
    · exact ⟨l, by simpa using hp⟩
    · obtain ⟨k, hk⟩ := hs.runs r hlive
      have hkl : k ≠ l := fun hkl => hp (hkl ▸ hk)
      exact ⟨k, by simpa [Function.update_of_ne hkl] using hk⟩
  · by_cases hkl : k = l
    · subst hkl
      exact h.active (by simpa using hk) (hs.active k)
    · simp only [Function.update_of_ne hkl] at hk
      exact absurd (hs.loop_unique (LoopPc.alive_of_recorded? hk) h.alive) hkl
  · rcases h.recorded hr (hs.active l) with hp | ⟨hactive, hp⟩
    · exact ⟨l, by simpa using hp⟩
    · obtain ⟨k, hk⟩ := hs.recorded r hactive
      have hkl : k ≠ l := fun hkl => hp (hkl ▸ hk)
      exact ⟨k, by simpa [Function.update_of_ne hkl] using hk⟩

lemma OneLoop.lifecycle_step (hs : OneLoop s) (h : OpStep x s.shared (s.op x) w o) (y : ℕ) :
    w.lifecycle = some y ↔ (Function.update s.op x o y).inside = true := by
  have hx := hs.lifecycle x
  have hy := hs.lifecycle y
  rcases h.lifecycle with ⟨hsame, ho⟩ | ⟨hfree, htaken, ho⟩ | ⟨hfree, hin, ho⟩
  · rw [hsame]
    by_cases hyx : y = x
    · rw [hyx, Function.update_self, ho, hx]
    · rw [Function.update_of_ne hyx, hy]
  · rw [htaken]
    by_cases hyx : y = x
    · simp [hyx, ho]
    · rw [Function.update_of_ne hyx, ← hy, hfree]
      simp [Ne.symm hyx]
  · rw [hfree]
    by_cases hyx : y = x
    · simp [hyx, ho]
    · rw [Function.update_of_ne hyx, ← hy, hx.2 hin]
      simp [Ne.symm hyx]

lemma OneLoop.op_step (hs : OneLoop s) (h : OpStep x s.shared (s.op x) w o) :
    OneLoop { s with shared := w, op := Function.update s.op x o } := by
  have hframe := h.frame
  refine ⟨hs.lifecycle_step h, fun k => ?_, fun k hk => ?_, fun k hk => ?_, fun y old hold => ?_, fun r hr => ?_,
    fun k r hk => ?_, fun r hr => ?_⟩
  · exact hframe.loop ▸ hs.alive k
  · exact hs.unborn k (hframe.nextLoop ▸ hk)
  · exact hs.done k (hframe.done ▸ hk)
  · rw [hframe.loop]
    by_cases hyx : y = x
    · subst hyx
      exact h.replaces (by simpa using hold)
    · exact hs.replaces y old (by simpa [Function.update_of_ne hyx] using hold)
  · exact hs.runs r (hframe.live r ▸ hr)
  · exact hframe.active.trans (hs.active k r hk)
  · exact hs.recorded r (hframe.active ▸ hr)

lemma OneLoop.free_of_launches (hs : OneLoop s) (h : Launches s.shared (s.op x) d) : s.shared.loop = none := by
  have hended : ∀ l, s.shared.done l = true → s.shared.loop ≠ some l := by
    intro l hl hloop
    have halive := (hs.alive l).2 hloop
    rw [hs.done l hl] at halive
    exact Bool.false_ne_true halive
  generalize ho : s.op x = o at h
  cases h with
  | start hl _ => exact hl
  | @join _ l hl _ => exact (hs.replaces x (some l) (ho ▸ rfl)).resolve_right (hended l hl)
  | @reload _ old hold _ =>
    rcases hs.replaces x old (ho ▸ rfl) with hnone | hsame
    · exact hnone
    · cases old with
      | none => exact hsame
      | some l => exact absurd hsame (hended l hold)

lemma OneLoop.launch_step (hs : OneLoop s) (h : Launches s.shared (s.op x) d) :
    OneLoop
      { shared := (s.shared.startLocked d).unlock
        pc := Function.update s.pc s.shared.nextLoop .starting
        op := Function.update s.op x .idle } := by
  have hfree := hs.free_of_launches h
  have hx : s.shared.lifecycle = some x := (hs.lifecycle x).2 h.inside
  have houtside : ∀ y, y ≠ x → ¬ (s.op y).inside = true := fun y hyx hy =>
    hyx (Option.some.inj (((hs.lifecycle y).2 hy).symm.trans hx))
  have hdead : ∀ k, ¬ (s.pc k).alive = true := fun k hk => by simpa [hfree] using (hs.alive k).1 hk
  refine ⟨fun y => ?_, fun k => ?_, fun k hk => ?_, fun k hk => ?_, fun y old hold => ?_, fun r hr => ?_,
    fun k r hk => ?_, fun r hr => ?_⟩
  · by_cases hyx : y = x
    · simp [hyx, Shared.unlock, OpPc.inside]
    · simp [Function.update_of_ne hyx, Shared.unlock, houtside y hyx]
  · by_cases hk : k = s.shared.nextLoop
    · simp [hk, Shared.unlock, Shared.startLocked, LoopPc.alive]
    · simp [Function.update_of_ne hk, Shared.unlock, Shared.startLocked, hdead k, Ne.symm hk]
  · have hlt : s.shared.nextLoop < k := hk
    simpa [Function.update_of_ne hlt.ne'] using hs.unborn k hlt.le
  · have hended := hs.done k hk
    have hne : k ≠ s.shared.nextLoop := fun heq => by simp [hs.unborn k heq.ge] at hended
    simpa [Function.update_of_ne hne] using hended
  · by_cases hyx : y = x
    · simp [hyx, OpPc.replaces] at hold
    · simp only [Function.update_of_ne hyx] at hold
      exact absurd (OpPc.inside_of_replaces hold) (houtside y hyx)
  · obtain ⟨k, hk⟩ := hs.runs r hr
    exact absurd (LoopPc.alive_of_run? hk) (hdead k)
  · by_cases hk' : k = s.shared.nextLoop
    · simp [hk', LoopPc.recorded?] at hk
    · simp only [Function.update_of_ne hk'] at hk
      exact hs.active k r hk
  · obtain ⟨k, hk⟩ := hs.recorded r hr
    exact absurd (LoopPc.alive_of_recorded? hk) (hdead k)

lemma OneLoop.begin_step (hs : OneLoop s) (hidle : s.op x = .idle) (ho : o.inside = false) (held : Bool) :
    OneLoop { s with shared := { s.shared with held }, op := Function.update s.op x o } := by
  refine ⟨fun y => ?_, hs.alive, hs.unborn, hs.done, fun y old hold => ?_, hs.runs, hs.active, hs.recorded⟩
  · by_cases hyx : y = x
    · have hx := hs.lifecycle x
      rw [hidle] at hx
      simp only [hyx, Function.update_self, ho]
      exact hx
    · simpa [Function.update_of_ne hyx] using hs.lifecycle y
  · by_cases hyx : y = x
    · simp only [hyx, Function.update_self] at hold
      exact absurd (OpPc.inside_of_replaces hold) (by simp [ho])
    · exact hs.replaces y old (by simpa [Function.update_of_ne hyx] using hold)

lemma OneLoop.step (h : SupervisionStep s i t) (hs : OneLoop s) : OneLoop t := by
  cases h with
  | loop _ h => exact hs.loop_step h
  | op h => exact hs.op_step h
  | launch h => exact hs.launch_step h
  | call o hidle => exact hs.begin_step hidle rfl s.shared.held
  | stop hidle => exact hs.begin_step hidle rfl true
  | @runEnds r _ =>
    refine ⟨hs.lifecycle, hs.alive, hs.unborn, hs.done, hs.replaces, fun q hq => hs.runs q ?_, hs.active,
      hs.recorded⟩
    by_cases hqr : q = r
    · simp [hqr, Shared.setRun, RunStatus.live] at hq
    · simpa [Shared.setRun, Function.update_of_ne hqr] using hq
  | edit | shutdown =>
    exact ⟨hs.lifecycle, hs.alive, hs.unborn, hs.done, hs.replaces, hs.runs, hs.active, hs.recorded⟩

lemma OneLoop.of_run {is : List SupervisionEvent} (h : Run SupervisionStep {} is s) : OneLoop s :=
  h.invariant (fun _ _ _ h => OneLoop.step h) OneLoop.initial

lemma OneLoop.run_unique (hs : OneLoop s) {q : ℕ} (hr : (s.shared.runs r).live = true)
    (hq : (s.shared.runs q).live = true) : r = q := by
  obtain ⟨l, hl⟩ := hs.runs r hr
  obtain ⟨k, hk⟩ := hs.runs q hq
  obtain rfl := hs.loop_unique (LoopPc.alive_of_run? hl) (LoopPc.alive_of_run? hk)
  exact Option.some.inj (hl.symm.trans hk)

lemma OneLoop.idle_of_exiting (hs : OneLoop s) (hl : s.pc l = .exiting) : s.shared.active = none := by
  rw [Option.eq_none_iff_forall_ne_some]
  intro r hr
  obtain ⟨k, hk⟩ := hs.recorded r hr
  obtain rfl := hs.loop_unique (LoopPc.alive_of_recorded? hk) (l := k) (k := l) (hl ▸ rfl)
  simp [hl, LoopPc.recorded?] at hk

lemma SupervisionStep.loop_of_ne (h : SupervisionStep s i t) (hs : OneLoop s) (hl : (s.pc l).alive = true)
    (hne : t.pc l ≠ s.pc l) :
    ∃ d, s.shared.defs l = some d ∧ LoopStep d l s.shared (s.pc l) t.shared (t.pc l) := by
  cases h with
  | @loop k d w p hd h =>
    by_cases hkl : l = k
    · subst hkl
      exact ⟨d, hd, by simpa using h⟩
    · exact absurd (Function.update_of_ne hkl _ _) hne
  | launch h =>
    have hkl : l ≠ s.shared.nextLoop := fun heq => by simp [hs.unborn l heq.ge, LoopPc.alive] at hl
    exact absurd (Function.update_of_ne hkl _ _) hne
  | op | call | stop | runEnds | edit | shutdown => exact absurd rfl hne

lemma loop_leaves {R : Supervision → SupervisionEvent → Supervision → Prop} {e : Execution R} {m : ℕ}
    (hR : ∀ s i t, R s i t → SupervisionStep s i t) (hone : ∀ m, OneLoop (e.state m)) (hprompt : Prompt e)
    (hl : (e.state m).pc l = p) (hp : p.passing = true) :
    ∃ k d, m ≤ k ∧ (e.state k).pc l = p ∧
      LoopStep d l (e.state k).shared p (e.state (k + 1)).shared ((e.state (k + 1)).pc l) := by
  obtain ⟨m', hm', hmoved⟩ := hprompt.loop m l (hl ▸ hp)
  obtain ⟨k, i, hk, hbefore, hstep, hleft⟩ :=
    Execution.leaves (P := fun s : Supervision => s.pc l = p) hl ⟨m', hm', hl ▸ hmoved⟩
  have hsame := hbefore k hk le_rfl
  have halive : ((e.state k).pc l).alive = true := by
    rw [hsame]
    cases p <;> first | rfl | simp [LoopPc.passing] at hp
  obtain ⟨d, -, h⟩ := (hR _ _ _ hstep).loop_of_ne (hone k) halive (by rwa [hsame])
  exact ⟨k, d, hk, hsame, hsame ▸ h⟩

lemma Prompt.of_final {R : Supervision → SupervisionEvent → Supervision → Prop} {e : Execution R} {n : ℕ}
    (hfinal : ∀ m, n ≤ m → e.state m = t) (hpc : ∀ l, (t.pc l).passing = false)
    (hop : ∀ x run, t.op x ≠ .stopping run) : Prompt e where
  loop m l hm := by
    refine ⟨max m n, le_max_left _ _, fun hsame => ?_⟩
    rw [← hsame, hfinal _ (le_max_right _ _), hpc l] at hm
    exact Bool.false_ne_true hm
  stop m x run _ := ⟨max m n, le_max_left _ _, by rw [hfinal _ (le_max_right _ _)]; exact hop x run⟩

lemma closing_step (h : SupervisionStep s i t) (hs : s.shared.closing = true) :
    t.shared.closing = true ∧ ∀ l, (t.pc l).alive = true → (s.pc l).alive = true := by
  cases h with
  | @loop l _ _ _ _ h =>
    refine ⟨h.frame.closing.trans hs, fun k hk => ?_⟩
    by_cases hkl : k = l
    · exact hkl ▸ h.alive
    · simpa [Function.update_of_ne hkl] using hk
  | op h => exact ⟨h.frame.closing.trans hs, fun _ hk => hk⟩
  | launch h => exact absurd (h.open.symm.trans hs) Bool.false_ne_true
  | call | stop | runEnds | edit => exact ⟨hs, fun _ hk => hk⟩
  | shutdown => exact ⟨rfl, fun _ hk => hk⟩

/-- In every interleaving of the operations, the loops and the ends of runs. -/
theorem one_loop_one_run {is : List SupervisionEvent} (h : Run SupervisionStep {} is t) :
    (∀ l k, (t.pc l).alive = true → (t.pc k).alive = true → l = k) ∧
      (∀ r q, (t.shared.runs r).live = true → (t.shared.runs q).live = true → r = q) ∧
      (t.shared.closing = true →
        ∀ js u, Run SupervisionStep t js u → ∀ l, (u.pc l).alive = true → (t.pc l).alive = true) := by
  have ht := OneLoop.of_run h
  refine ⟨fun _ _ => ht.loop_unique, fun _ _ => ht.run_unique, fun hclosing js u hu => ?_⟩
  have hlater :=
    hu.invariant (P := fun u => u.shared.closing = true ∧ ∀ l, (u.pc l).alive = true → (t.pc l).alive = true)
    (fun _ _ _ hstep ⟨hc, hold⟩ => ⟨(closing_step hstep hc).1,
      fun l hl => hold l ((closing_step hstep hc).2 l hl)⟩)
    ⟨hclosing, fun _ hl => hl⟩
  exact hlater.2

/-! ## Runs of a worker that restarts always -/

/-- The loops are at `ps` and the operations at `os`. -/
def Supervision.of (w : Shared) (ps : List LoopPc) (os : List OpPc) : Supervision :=
  ⟨w, fun l => ps.getD l .unborn, fun x => os.getD x .idle⟩

section

variable {w w' : Shared} {ps : List LoopPc} {os : List OpPc} {p : LoopPc} {o : OpPc} {d : Worker} {l x : ℕ}

lemma update_getD {α : Type} {xs : List α} {i : ℕ} (hi : i < xs.length) (v default : α) :
    Function.update (fun j => xs.getD j default) i v = fun j => (xs.set i v).getD j default := by
  funext j
  by_cases h : j = i
  · subst h
    simp [hi]
  · simp [Function.update_of_ne h, List.getElem?_set_ne (Ne.symm h)]

lemma SupervisionStep.loop_of (hl : l < ps.length) (hd : w.defs l = some d)
    (h : LoopStep d l w (ps.getD l .unborn) w' p) :
    SupervisionStep (.of w ps os) (.loop l) (.of w' (ps.set l p) os) := by
  have hstep : SupervisionStep (.of w ps os) (.loop l) _ := .loop hd h
  rwa [Supervision.of, update_getD hl] at hstep

lemma SupervisionStep.op_of (hx : x < os.length) (h : OpStep x w (os.getD x .idle) w' o) :
    SupervisionStep (.of w ps os) (.op x) (.of w' ps (os.set x o)) := by
  have hstep : SupervisionStep (.of w ps os) (.op x) _ := .op h
  rwa [Supervision.of, update_getD hx] at hstep

lemma SupervisionStep.call_of (hx : x < os.length) (o : Operation) (h : os.getD x .idle = .idle) :
    SupervisionStep (.of w ps os) (.call x o) (.of w ps (os.set x (.called o))) := by
  have hstep : SupervisionStep (.of w ps os) (.call x o) _ := .call o h
  rwa [Supervision.of, update_getD hx] at hstep

lemma SupervisionStep.launch_of (hl : w.nextLoop < ps.length) (hx : x < os.length)
    (h : Launches w (os.getD x .idle) d) :
    SupervisionStep (.of w ps os) (.launch x)
      (.of (w.startLocked d).unlock (ps.set w.nextLoop .starting) (os.set x .idle)) := by
  have hstep : SupervisionStep (.of w ps os) (.launch x) _ := .launch h
  rwa [Supervision.of, update_getD hl, update_getD hx] at hstep

end

def attempts (n : ℕ) (hn : 0 < n) : Worker := ⟨true, true, .always, n, 0, 4, some 9, hn⟩

abbrev oneAttempt : Worker := attempts 1 Nat.one_pos

def reloaded (d : Worker) : Shared := Shared.startLocked { started := true, epoch := 1, revision := 4 } d

def triggering (d : Worker) (k : ℕ) : Shared := { reloaded d with failures := k, begun := k + 1 }

section

variable {n k : ℕ} {hn : 0 < n}

lemma of_idle : Supervision.of {} [.unborn, .unborn] [.idle, .idle, .idle] = {} := by
  have hpc : ∀ l, [LoopPc.unborn, .unborn].getD l .unborn = .unborn
    | 0 | 1 | _ + 2 => rfl
  have hop : ∀ x, [OpPc.idle, .idle, .idle].getD x .idle = .idle
    | 0 | 1 | 2 | _ + 3 => rfl
  simp only [Supervision.of, hpc, hop]

variable (hn) in
lemma run_reloaded :
    Run SupervisionStep {} [.edit, .call 0 (.reload (some (attempts n hn))), .op 0, .op 0, .op 0, .op 0, .op 0,
      .op 0, .launch 0] (.of (reloaded (attempts n hn)) [.starting, .unborn] [.idle, .idle, .idle]) := by
  rw [← of_idle]
  exact .cons (.edit _ 4 false) <|
    .cons (.call_of (x := 0) (by simp) _ rfl) <|
    .cons (.op_of (x := 0) (by simp) (.enter rfl)) <|
    .cons (.op_of (x := 0) (by simp) (.reloadBegin rfl)) <|
    .cons (.op_of (x := 0) (by simp) (.resetBegin rfl rfl)) <|
    .cons (.op_of (x := 0) (by simp) (.clear _ _)) <|
    .cons (.op_of (x := 0) (by simp) (.reset (.inl rfl))) <|
    .cons (.op_of (x := 0) (by simp) (.reloadFresh rfl)) <|
    .cons (.launch_of (x := 0) Nat.zero_lt_two (by simp) (.reload rfl rfl)) <|
    .nil _

lemma run_triggering {q : LoopPc} {os : List OpPc} :
    Run SupervisionStep (.of (reloaded (attempts n hn)) [.starting, q] os) [.loop 0, .loop 0, .loop 0]
      (.of (triggering (attempts n hn) 0) [.triggering, q] os) :=
  .cons (.loop_of (l := 0) (by simp) rfl (.start rfl)) <|
  .cons (.loop_of (l := 0) (by simp) rfl (.check rfl)) <|
  .cons (.loop_of (l := 0) (by simp) rfl (.attempt rfl)) <|
  .nil _

end

lemma run_running {n : ℕ} {hn : 0 < n} {q : LoopPc} {os : List OpPc} :
    Run SupervisionStep (.of (triggering (attempts n hn) 0) [.triggering, q] os) [.loop 0]
      (.of ((triggering (attempts n hn) 0).trigger .running) [.started 0, q] os) :=
  .cons (.loop_of (l := 0) (by simp) rfl (.trigger _)) (.nil _)

theorem one_loop_one_run_shutdown :
    ∃ is t, Run SupervisionStep {} is t ∧ (t.pc 0).alive = true ∧ (t.shared.runs 0).live = true ∧
      (∀ l, (t.pc l).alive = true → l = 0) ∧ (∀ r, (t.shared.runs r).live = true → r = 0) ∧
      (∀ js u, Run SupervisionStep t js u → ∀ l, (u.pc l).alive = true → l = 0) := by
  have hrun := (run_reloaded Nat.one_pos).append (run_triggering.append run_running)
  have h := hrun.append (.cons (.shutdown _) (.nil _))
  obtain ⟨hloop, hruns, hclosed⟩ := one_loop_one_run h
  exact ⟨_, _, h, rfl, rfl, fun l hl => hloop l 0 hl rfl, fun r hr => hruns r 0 hr rfl,
    fun js u hu l hl => hloop l 0 (hclosed rfl js u hu l hl) rfl⟩

end Minicrond.Supervisor
