import Minicrond.Supervisor.OneLoop

/-! A hold placed by `Stop`, and the runs that start after it. -/

namespace Minicrond.Supervisor

open Minicrond.Library

variable {s t u : Supervision} {i : SupervisionEvent} {d : Worker} {l x r : ℕ} {w w' : Shared} {p p' : LoopPc}
    {o o' : OpPc}

lemma SupervisionStep.stop_of_ne {run : Option ℕ} (h : SupervisionStep s i t) (hx : s.op x = .stopping run)
    (hne : t.op x ≠ .stopping run) : OpStep x s.shared (.stopping run) t.shared (t.op x) := by
  rw [← hx] at hne ⊢
  cases h with
  | @op y w o h =>
    by_cases hxy : x = y
    · subst hxy
      simpa using h
    · exact absurd (Function.update_of_ne hxy _ _) hne
  | @launch y _ h =>
    have hxy : x ≠ y := by
      rintro rfl
      simpa [hx, OpPc.inside] using h.inside
    exact absurd (Function.update_of_ne hxy _ _) hne
  | @call y _ h | @stop y h =>
    have hxy : x ≠ y := by
      rintro rfl
      simp [hx] at h
    exact absurd (Function.update_of_ne hxy _ _) hne
  | loop | runEnds | edit | shutdown => exact absurd rfl hne

def OpPc.settled : OpPc → Bool
  | .idle | .stopping _ => true
  | _ => false

def InFlight (s : Supervision) : Prop := ∃ l, s.pc l = .triggering

def StopDue (s : Supervision) (r : ℕ) : Prop :=
  (∃ l, s.pc l = .started r ∨ s.pc l = .recorded r true) ∨ ∃ x, s.op x = .stopping (some r)

structure Down (first : ℕ) (inFlight : Prop) (s : Supervision) : Prop where
  one : OneLoop s
  held : s.shared.held = true
  settled : ∀ x, (s.op x).settled = true
  started : s.shared.nextRun = first ∧ (InFlight s → inFlight) ∨
    s.shared.nextRun = first + 1 ∧ inFlight ∧ ¬ InFlight s
  stopped : ∀ r, s.shared.runs r = .running → StopDue s r

lemma OneLoop.stopDue (hs : OneLoop s) (hr : s.shared.runs r = .running) :
    (∃ l, s.pc l = .started r) ∨ s.shared.active = some r := by
  obtain ⟨l, hl⟩ := hs.runs r (hr ▸ rfl)
  cases hp : s.pc l with
  | started q =>
    rw [hp] at hl
    exact .inl ⟨l, hp.trans (congrArg _ (Option.some.inj hl))⟩
  | recorded | waiting | stopping => exact .inr (hs.active l r (by rw [hp] at hl ⊢; exact hl))
  | _ => simp [hp, LoopPc.run?] at hl

lemma Down.of_stop (hs : OneLoop s) (h : SupervisionStep s (.stop x) t) (hset : ∀ y, (s.op y).settled = true) :
    Down s.shared.nextRun (InFlight s) t := by
  have hone := hs.step h
  cases h with
  | stop hidle =>
    refine ⟨hone, rfl, fun y => ?_, .inl ⟨rfl, id⟩, fun r hr => ?_⟩
    · by_cases hyx : y = x
      · simp [hyx, OpPc.settled]
      · simpa [Function.update_of_ne hyx] using hset y
    · rcases hs.stopDue hr with ⟨l, hl⟩ | hactive
      · exact .inl ⟨l, .inl hl⟩
      · exact .inr ⟨x, by simp [hactive]⟩

lemma Shared.running_of_stop {q : ℕ} (h : (w.stop q).runs r = .running) : w.runs r = .running ∧ r ≠ q := by
  simp only [Shared.stop] at h
  split_ifs at h with hq
  · by_cases hrq : r = q
    · simp [hrq] at h
    · exact ⟨by simpa [Function.update_of_ne hrq] using h, hrq⟩
  · exact ⟨h, fun hrq => hq (hrq ▸ h)⟩

lemma LoopStep.nextRun (h : LoopStep d l w p w' p') (hheld : w.held = true) :
    p' ≠ .triggering ∧ (w'.nextRun = w.nextRun ∨ p = .triggering ∧ w'.nextRun = w.nextRun + 1) := by
  cases h
  case attempt hfree => exact absurd (hfree.symm.trans hheld) Bool.false_ne_true
  case trigger | refuseTerminal => exact ⟨by simp, .inr ⟨rfl, rfl⟩⟩
  all_goals exact ⟨by simp, .inl rfl⟩

lemma LoopStep.running (h : LoopStep d l w p w' p') (hheld : w.held = true) (hr : w'.runs r = .running) :
    p' = .started r ∨ w.runs r = .running ∧ (p = .started r → p' = .recorded r true) ∧ p ≠ .recorded r true := by
  cases h
  case trigger =>
    by_cases hnew : r = w.nextRun
    · exact .inl (hnew ▸ rfl)
    · exact .inr ⟨by simpa [Shared.trigger, Shared.setRun, Function.update_of_ne hnew] using hr, by simp, by simp⟩
  case refuseTerminal =>
    by_cases hnew : r = w.nextRun
    · simp [hnew, Shared.trigger, Shared.setRun] at hr
    · exact .inr ⟨by simpa [Shared.trigger, Shared.setRun, Function.update_of_ne hnew] using hr, by simp, by simp⟩
  case record q => exact .inr ⟨hr, fun heq => by simpa [hheld] using heq, by simp⟩
  case stopHeld q =>
    obtain ⟨hr, hrq⟩ := Shared.running_of_stop hr
    exact .inr ⟨hr, by simp, by simpa using Ne.symm hrq⟩
  case stopCancelled q _ | exitStop q _ =>
    exact .inr ⟨(Shared.running_of_stop hr).1, by simp, by simp⟩
  all_goals exact .inr ⟨hr, by simp, by simp⟩

variable {n : ℕ} {P : Prop}

lemma Down.loop_step (hs : Down n P s) (h : LoopStep d l s.shared (s.pc l) w p)
    (hone : OneLoop { s with shared := w, pc := Function.update s.pc l p }) :
    Down n P { s with shared := w, pc := Function.update s.pc l p } := by
  obtain ⟨hp, hnext⟩ := h.nextRun hs.held
  have hflight : InFlight { s with shared := w, pc := Function.update s.pc l p } → ∃ k, k ≠ l ∧
      s.pc k = .triggering := by
    rintro ⟨k, hk⟩
    have hkl : k ≠ l := fun hkl => hp (by simpa [hkl] using hk)
    exact ⟨k, hkl, by simpa [Function.update_of_ne hkl] using hk⟩
  refine ⟨hone, h.frame.held.trans hs.held, hs.settled, ?_, fun r hr => ?_⟩
  · rcases hnext with hsame | ⟨hl, hnew⟩
    · rw [hsame]
      refine hs.started.imp (fun ⟨hn, hP⟩ => ⟨hn, fun hf => ?_⟩) fun ⟨hn, hP, hnone⟩ => ⟨hn, hP, fun hf => ?_⟩
      all_goals obtain ⟨k, -, hk⟩ := hflight hf
      · exact hP ⟨k, hk⟩
      · exact hnone ⟨k, hk⟩
    · obtain ⟨hn, hP⟩ := hs.started.resolve_right fun hlate => hlate.2.2 ⟨l, hl⟩
      refine .inr ⟨hnew.trans (congrArg (· + 1) hn), hP ⟨l, hl⟩, fun hf => ?_⟩
      obtain ⟨k, hkl, hk⟩ := hflight hf
      exact hkl (hs.one.loop_unique (hk ▸ rfl) h.alive)
  · rcases h.running hs.held hr with rfl | ⟨hrunning, hrecord, hpast⟩
    · exact .inl ⟨l, .inl (by simp)⟩
    · rcases hs.stopped r hrunning with ⟨k, hk⟩ | hop
      · by_cases hkl : k = l
        · subst hkl
          exact .inl ⟨k, .inr (by simpa using hrecord (hk.resolve_right hpast))⟩
        · exact .inl ⟨k, by simpa [Function.update_of_ne hkl] using hk⟩
      · exact .inr hop

lemma Down.op_step (hs : Down n P s) (h : OpStep x s.shared (s.op x) w o)
    (hone : OneLoop { s with shared := w, op := Function.update s.op x o }) :
    Down n P { s with shared := w, op := Function.update s.op x o } := by
  have hset := hs.settled x
  generalize hx : s.op x = o₀ at h hset
  cases h
  case stop run =>
    refine ⟨hone, ?_, fun y => ?_, ?_, fun r hr => ?_⟩
    · cases run <;> exact hs.held
    · by_cases hyx : y = x
      · simp [hyx, OpPc.settled]
      · simpa [Function.update_of_ne hyx] using hs.settled y
    · cases run <;> exact hs.started
    · have hrunning : s.shared.runs r = .running ∧ run ≠ some r := by
        cases run with
        | none => exact ⟨hr, by simp⟩
        | some q =>
          obtain ⟨hrunning, hrq⟩ := Shared.running_of_stop hr
          exact ⟨hrunning, by simpa using Ne.symm hrq⟩
      rcases hs.stopped r hrunning.1 with hl | ⟨y, hy⟩
      · exact .inl hl
      · have hyx : y ≠ x := by
          rintro rfl
          exact hrunning.2 (by simpa [hx] using hy)
        exact .inr ⟨y, by simpa [Function.update_of_ne hyx] using hy⟩
  all_goals simp [OpPc.settled] at hset

def SupervisionEvent.isCall : SupervisionEvent → Bool
  | .call _ _ => true
  | _ => false

lemma Down.step (h : SupervisionStep s i t) (hi : i.isCall = false) (hs : Down n P s) : Down n P t := by
  have hone := hs.one.step h
  cases h with
  | loop _ h => exact hs.loop_step h hone
  | op h => exact hs.op_step h hone
  | @launch x _ h =>
    have hset := hs.settled x
    have hin := h.inside
    generalize s.op x = o at hset hin
    cases o <;> simp [OpPc.settled, OpPc.inside] at hset hin
  | call => simp [SupervisionEvent.isCall] at hi
  | @stop x hidle =>
    refine ⟨hone, rfl, fun y => ?_, hs.started, fun r hr => ?_⟩
    · by_cases hyx : y = x
      · simp [hyx, OpPc.settled]
      · simpa [Function.update_of_ne hyx] using hs.settled y
    · rcases hs.stopped r hr with hl | ⟨y, hy⟩
      · exact .inl hl
      · have hyx : y ≠ x := by
          rintro rfl
          simp [hidle] at hy
        exact .inr ⟨y, by simpa [Function.update_of_ne hyx] using hy⟩
  | @runEnds q _ =>
    refine ⟨hone, hs.held, hs.settled, hs.started, fun r hr => hs.stopped r ?_⟩
    by_cases hrq : r = q
    · simp [hrq, Shared.setRun] at hr
    · simpa [Shared.setRun, Function.update_of_ne hrq] using hr
  | edit | shutdown => exact ⟨hone, hs.held, hs.settled, hs.started, hs.stopped⟩

lemma LoopStep.of_started (h : LoopStep d l w (.started r) w' p') : p' = .recorded r w.held := by
  cases h
  rfl

lemma LoopStep.of_recorded (h : LoopStep d l w (.recorded r true) w' p') : w' = w.stop r := by
  cases h
  rfl

lemma OpStep.of_stopping (h : OpStep x w (.stopping (some r)) w' o') : w' = w.stop r := by
  cases h
  rfl

section Arrives

variable {e : Execution (guarded SupervisionStep fun _ i => i.isCall = false)} (hprompt : Prompt e)
  (hdown : ∀ m, Down n P (e.state m))

include hprompt

lemma stop_arrives_of_call {m : ℕ} (hx : (e.state m).op x = .stopping (some r)) :
    ∃ k, m ≤ k ∧ (e.state k).shared.runs r ≠ .running := by
  obtain ⟨k, i, hk, hbefore, ⟨-, hstep⟩, hleft⟩ :=
    Execution.leaves (P := fun s : Supervision => s.op x = .stopping (some r)) hx (hprompt.stop m x _ hx)
  have hop := hstep.stop_of_ne (hbefore k hk le_rfl) hleft
  refine ⟨k + 1, by omega, fun hr => ?_⟩
  rw [hop.of_stopping] at hr
  exact (Shared.running_of_stop hr).2 rfl

include hdown

lemma stop_arrives_of_recorded {m : ℕ} (hl : (e.state m).pc l = .recorded r true) :
    ∃ k, m ≤ k ∧ (e.state k).shared.runs r ≠ .running := by
  obtain ⟨k, d, hk, -, h⟩ := loop_leaves (fun _ _ _ h => h.2) (fun m => (hdown m).one) hprompt hl rfl
  refine ⟨k + 1, by omega, fun hr => ?_⟩
  rw [h.of_recorded] at hr
  exact (Shared.running_of_stop hr).2 rfl

lemma stop_arrives {m : ℕ} (hr : (e.state m).shared.runs r = .running) :
    ∃ k, m ≤ k ∧ (e.state k).shared.runs r ≠ .running := by
  rcases (hdown m).stopped r hr with ⟨l, hl | hl⟩ | ⟨x, hx⟩
  · obtain ⟨k, d, hk, -, h⟩ := loop_leaves (fun _ _ _ h => h.2) (fun m => (hdown m).one) hprompt hl rfl
    obtain ⟨k', hk', hstopped⟩ :=
      stop_arrives_of_recorded hprompt hdown (h.of_started.trans (by rw [(hdown k).held]))
    exact ⟨k', by omega, hstopped⟩
  · exact stop_arrives_of_recorded hprompt hdown hl
  · exact stop_arrives_of_call hprompt hx

end Arrives

/-- A `Stop` that no start, restart or reload overlaps. The only run that may start until the next one is called is
a run whose `Trigger` was in flight, and every run is stopped. -/
theorem held_worker_stays_down {is : List SupervisionEvent} (hs : Run SupervisionStep {} is s)
    (h : SupervisionStep s (.stop x) t) (hset : ∀ y, (s.op y).settled = true) :
    (∀ js u, (∀ i ∈ js, i.isCall = false) → Run SupervisionStep t js u →
      (u.shared.nextRun = s.shared.nextRun ∨
        u.shared.nextRun = s.shared.nextRun + 1 ∧ InFlight s ∧ ¬ InFlight u) ∧
      u.shared.held = true ∧ ∀ r, u.shared.runs r = .running → StopDue u r) ∧
    ∀ e : Execution (guarded SupervisionStep fun _ i => i.isCall = false), e.state 0 = t → Prompt e →
      ∀ n r, (e.state n).shared.runs r = .running → ∃ m, n ≤ m ∧ (e.state m).shared.runs r ≠ .running := by
  have hstart := Down.of_stop (OneLoop.of_run hs) h hset
  refine ⟨fun js u hjs hu => ?_, fun e he hprompt n r hr => ?_⟩
  · have hdown := (hu.of_labels hjs).invariant (fun _ _ _ h hs => hs.step h.2 h.1) hstart
    exact ⟨hdown.started.imp And.left id, hdown.held, hdown.stopped⟩
  · exact stop_arrives hprompt (Execution.invariant (fun _ _ _ h hs => hs.step h.2 h.1) (he ▸ hstart)) hr

theorem held_worker_stays_down_in_flight :
    ∃ is s t, Run SupervisionStep {} is s ∧ SupervisionStep s (.stop 1) t ∧ InFlight s ∧
      ∀ js u, (∀ i ∈ js, i.isCall = false) → Run SupervisionStep t js u →
        u.shared.nextRun ≤ 1 ∧ ∀ r, u.shared.runs r = .running → StopDue u r := by
  have hs := (run_reloaded Nat.one_pos).append run_triggering
  have hset : ∀ y, ([OpPc.idle, .idle, .idle].getD y .idle).settled = true
    | 0 | 1 | 2 | _ + 3 => rfl
  refine ⟨_, _, _, hs, .stop rfl, ⟨0, rfl⟩, fun js u hjs hu => ?_⟩
  obtain ⟨hnext, -, hstop⟩ := (held_worker_stays_down hs (.stop rfl) hset).1 js u hjs hu
  refine ⟨?_, hstop⟩
  rcases hnext with hnext | ⟨hnext, -⟩
  · exact hnext.trans_le (Nat.zero_le 1)
  · exact hnext.le

section

variable {n : ℕ} {hn : 0 < n} {q : LoopPc} {o o' : OpPc}

def running (d : Worker) : Shared := { (triggering d 0).trigger .running with active := some 0 }

lemma run_waiting {os : List OpPc} :
    Run SupervisionStep (.of ((triggering (attempts n hn) 0).trigger .running) [.started 0, q] os) [.loop 0,
      .loop 0] (.of (running (attempts n hn)) [.waiting 0, q] os) :=
  .cons (.loop_of (l := 0) (by simp) rfl (.record _ _)) <|
  .cons (.loop_of (l := 0) (by simp) rfl (.watch _ _)) <|
  .nil _

def replacing (d : Worker) : Shared := ({ (running d).reset with held := true }.stop 0).cancel 0

lemma run_replacing :
    Run SupervisionStep (.of (running (attempts n hn)) [.waiting 0, q] [o, .idle, o'])
      (.call 1 (.restart (attempts n hn)) :: List.replicate 9 (.op 1))
      (.of (replacing (attempts n hn)) [.waiting 0, q] [o, .replacing (attempts n hn) (some 0) 2, o']) :=
  .cons (.call_of (x := 1) (by simp) (.restart _) rfl) <|
  .cons (.op_of (x := 1) (by simp) (.enter rfl)) <|
  .cons (.op_of (x := 1) (by simp) (.resetBegin rfl rfl)) <|
  .cons (.op_of (x := 1) (by simp) (.clear _ _)) <|
  .cons (.op_of (x := 1) (by simp) (.reset (.inl rfl))) <|
  .cons (.op_of (x := 1) (by simp) (.restartRead rfl)) <|
  .cons (.op_of (x := 1) (by simp) (.restartHold _ _ _)) <|
  .cons (.op_of (x := 1) (by simp) (.restartStop _ _ _ _)) <|
  .cons (.op_of (x := 1) (by simp) (.restartCancel _ _ _)) <|
  .cons (.op_of (x := 1) (by simp) (.restartSpawn rfl)) <|
  .nil _

def vacated (d : Worker) : Shared := ((((replacing d).setRun 0 .over).stop 0).drop 0).finish 0

lemma run_vacated {os : List OpPc} :
    Run SupervisionStep (.of (replacing (attempts n hn)) [.waiting 0, q] os)
      [.runEnds 0, .loop 0, .loop 0, .loop 0, .loop 0] (.of (vacated (attempts n hn)) [.ended, q] os) :=
  .cons (.runEnds (r := 0) rfl) <|
  .cons (.loop_of (l := 0) (by simp) rfl (.stopCancelled rfl)) <|
  .cons (.loop_of (l := 0) (by simp) rfl (.stopped rfl)) <|
  .cons (.loop_of (l := 0) (by simp) rfl (.exitIdle rfl)) <|
  .cons (.loop_of (l := 0) (by simp) rfl (.finish _)) <|
  .nil _

end

theorem replacement_lifts_hold :
    ∃ is s t js u, Run SupervisionStep {} is s ∧ SupervisionStep s (.stop 2) t ∧
      Run SupervisionStep t (.op 2 :: js) u ∧ (∀ i ∈ js, i.isCall = false) ∧ ¬ InFlight s ∧
      u.shared.nextRun = s.shared.nextRun + 1 ∧ u.shared.held = false ∧ u.shared.runs 1 = .running ∧
      u.pc 1 = .waiting 1 := by
  have hrunning := (run_reloaded Nat.one_pos).append (run_triggering.append (run_running.append run_waiting))
  have hs := hrunning.append (run_replacing.append run_vacated)
  refine ⟨_, _, _, _, _, hs, .stop rfl,
    .cons (.op (x := 2) (.stop _ _)) <|
    .cons (.op (x := 1) (.replaceJoin rfl)) <|
    .cons (.op (x := 1) (.replaceEnter rfl)) <|
    .cons (.op (x := 1) (.replace ⟨rfl, rfl⟩)) <|
    .cons (.launch (x := 1) (.start rfl rfl)) <|
    .cons (.loop (l := 1) rfl (.start rfl)) <|
    .cons (.loop (l := 1) rfl (.check rfl)) <|
    .cons (.loop (l := 1) rfl (.attempt rfl)) <|
    .cons (.loop (l := 1) rfl (.trigger _)) <|
    .cons (.loop (l := 1) rfl (.record _ _)) <|
    .cons (.loop (l := 1) rfl (.watch _ _)) <|
    .nil _, by decide, ?_, rfl, rfl, rfl, rfl⟩
  have hidle : ∀ l, [LoopPc.ended, .unborn].getD l .unborn ≠ .triggering
    | 0 | 1 | _ + 2 => nofun
  exact fun ⟨l, hl⟩ => hidle l hl

end Minicrond.Supervisor
