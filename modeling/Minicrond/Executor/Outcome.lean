import Minicrond.Executor.History

/-! What `executeRun` makes of a started process. The select loop reacts to the process, its deadline, a stop
request, the running-state write and the two log pumps in the order in which they come. -/

namespace Minicrond.Executor.Outcome

open Minicrond.Library Minicrond.Executor.History Minicrond.Store

/-! ## The process and the loop that watches it -/

inductive Leader
  | running
  | exited (result : Option WaitError)
  | signalled

/-- What `persistStart` hands to the loop. Only a transition that the store refuses is an error, but a panic
becomes one as well. -/
inductive Persisted
  | recorded
  | refused
  | panicked

inductive PumpResult
  | eof
  | closed
  | failed

structure Watch where
  leader : Leader
  leaderDone : Bool
  waitErr : Option WaitError
  cause : Option Cause
  persisting : Bool
  startErr : Bool
  pumpsRemaining : ℕ
  pumpFailed : Bool
  terminal : Option Terminal

def Watch.start : Watch := ⟨.running, false, none, none, true, false, 2, false, none⟩

def Leader.signal : Leader → Leader
  | .running => .signalled
  | l => l

def Leader.wait (result : Option WaitError) : Leader → Option WaitError
  | .exited own => own
  | _ => result

/-- `stopGroup` and `killGroup`: the group is signalled and the leader waited for. A leader that is gone keeps its
own result, another one ends with `result`. -/
def Watch.stopGroup (s : Watch) (result : Option WaitError) : Watch :=
  { s with leader := s.leader.signal, waitErr := s.leader.wait result, leaderDone := true }

def Watch.settlePersist (s : Watch) : Persisted → Watch
  | .recorded => { s with persisting := false }
  | _ => { s with persisting := false, startErr := true }

def Watch.persisted (s : Watch) (reply : Persisted) (result : Option WaitError) : Watch :=
  let t := s.settlePersist reply
  if s.leaderDone = false ∧ t.startErr = true then t.stopGroup result else t

def Watch.pumped (s : Watch) (reply : PumpResult) (result : Option WaitError) : Watch :=
  let t := { s with pumpsRemaining := s.pumpsRemaining - 1 }
  match reply with
  | .failed =>
    let t := { t with pumpFailed := true }
    if s.leaderDone then t else t.stopGroup result
  | _ => t

def Watch.finish (s : Watch) (success : List ℤ) (x : Remains) (sealFailed : Bool) : Terminal :=
  let x := { x with truncated := x.truncated || s.pumpFailed || sealFailed }
  if s.startErr then x.startError else x.exit s.waitErr s.cause success

inductive WatchEvent
  | exits (result : Option WaitError)
  | waited
  | persisted (reply : Persisted) (result : Option WaitError)
  | pumped (reply : PumpResult) (result : Option WaitError)
  | deadline (result : Option WaitError)
  | stop (result : Option WaitError)
  | drainDeadline
  | sealed (x : Remains) (sealFailed : Bool)

inductive WatchStep (success : List ℤ) : Watch → WatchEvent → Watch → Prop
  | exits {s : Watch} {result : Option WaitError} (hl : s.leader = .running) :
    WatchStep success s (.exits result) { s with leader := .exited result }
  | waited {s : Watch} {result : Option WaitError} (hd : s.leaderDone = false) (hl : s.leader = .exited result) :
    WatchStep success s .waited { s with waitErr := result, leaderDone := true }
  | persisted {s : Watch} {reply : Persisted} {result : Option WaitError} (hp : s.persisting = true) :
    WatchStep success s (.persisted reply result) (s.persisted reply result)
  -- once the process is gone the running-state write is settled before the pipes are drained
  | pumped {s : Watch} {reply : PumpResult} {result : Option WaitError} (hr : 0 < s.pumpsRemaining)
    (hp : s.leaderDone = true → s.persisting = false) :
    WatchStep success s (.pumped reply result) (s.pumped reply result)
  | deadline {s : Watch} {result : Option WaitError} (hd : s.leaderDone = false) :
    WatchStep success s (.deadline result) (Watch.stopGroup { s with cause := some .deadline } result)
  | stop {s : Watch} {result : Option WaitError} (hd : s.leaderDone = false) :
    WatchStep success s (.stop result) (Watch.stopGroup { s with cause := some .stop } result)
  -- the pipes are closed and the descendants that hold them killed
  | drainDeadline {s : Watch} (hd : s.leaderDone = true) (hp : s.persisting = false) (hr : 0 < s.pumpsRemaining) :
    WatchStep success s .drainDeadline s
  | sealed {s : Watch} {x : Remains} {sealFailed : Bool} (hd : s.leaderDone = true) (hp : s.persisting = false)
    (hr : s.pumpsRemaining = 0) (ht : s.terminal = none) :
    WatchStep success s (.sealed x sealFailed) { s with terminal := some (s.finish success x sealFailed) }

/-! ## What the outcome should be -/

def exitCode : Option WaitError → Option ℤ
  | none => some 0
  | some (.exit code _) => some code
  | some .other => none

def Succeeds (success : List ℤ) (result : Option WaitError) : Prop :=
  ∃ code, exitCode result = some code ∧ code ∈ success

def WatchEvent.cause : WatchEvent → Option Cause
  | .deadline _ => some .deadline
  | .stop _ => some .stop
  | _ => none

def acted (es : List WatchEvent) : Option Cause := es.findSome? WatchEvent.cause

def ExecutionFirst (success : List ℤ) (es : List WatchEvent) (leader : Leader) (status : Status) : Prop :=
  match acted es with
  | some .deadline => status = .timeout
  | some .stop => status = .stopped
  | none => ∃ result, leader = .exited result ∧ (status = .succeeded ↔ Succeeds success result) ∧
      (status ≠ .succeeded → status = .failed)

/-- The events that leave the outcome alone: a log pump fails only once the process is gone, `Wait` tells how a
process ended that the deadline or a stop request ended, and the running-state write panics at most after the
process failed by itself. -/
def Untroubled (success : List ℤ) (s : Watch) : WatchEvent → Prop
  | .persisted .panicked _ => s.cause = none ∧ ∃ result, s.leader = .exited result ∧ ¬Succeeds success result
  | .pumped .failed _ => s.leader ≠ .running
  | .deadline result => s.leader.wait result ≠ some .other
  | .stop result => s.leader.wait result ≠ some .other
  | _ => True

def NotRefused : WatchEvent → Prop
  | .persisted .refused _ => False
  | _ => True

/-! ## The loop in every order of events -/

variable {success : List ℤ} {s t : Watch} {i : WatchEvent} {es : List WatchEvent}

structure Watched (success : List ℤ) (s : Watch) : Prop where
  open_cause : s.leaderDone = false → s.cause = none
  open_leader : s.leaderDone = false → s.leader ≠ .signalled
  open_start : s.leaderDone = false → s.startErr = false
  done_leader : s.leaderDone = true → s.leader ≠ .running
  done_wait : s.leaderDone = true → ∀ result, s.leader = .exited result → s.waitErr = result
  closed : ∀ x, s.terminal = some x → s.leaderDone = true ∧ s.persisting = false ∧ s.pumpsRemaining = 0 ∧
    ∃ y sealFailed, x = s.finish success y sealFailed

structure Sound (success : List ℤ) (s : Watch) : Prop where
  signalled : s.leader = .signalled → s.cause ≠ none
  ended : s.cause ≠ none → s.waitErr ≠ some .other
  start : s.startErr = true → s.cause = none ∧ ¬Succeeds success s.waitErr

lemma Leader.signal_ne_running (l : Leader) : l.signal ≠ .running := by
  cases l <;> nofun

lemma Leader.signal_eq_exited {l : Leader} {result : Option WaitError} (h : l.signal = .exited result) :
    l = .exited result := by
  cases l with
  | running => cases h
  | exited _ => exact h
  | signalled => cases h

-- `nofun` would split on the fields of the terminal state
lemma Watched.start : Watched success .start :=
  ⟨fun _ => rfl, nofun, fun _ => rfl, nofun, nofun, fun x h => absurd h (Option.some_ne_none x).symm⟩

lemma Watched.stopGroup (ht : s.terminal = none) (result : Option WaitError) :
    Watched success (s.stopGroup result) where
  open_cause := nofun
  open_leader := nofun
  open_start := nofun
  done_leader _ := s.leader.signal_ne_running
  done_wait _ own h := by
    show s.leader.wait result = own
    rw [Leader.signal_eq_exited h]
    rfl
  closed x h := by
    rw [show (s.stopGroup result).terminal = none from ht] at h
    cases h

lemma Watched.terminal_of_open (h : Watched success s) (hd : s.leaderDone = false) : s.terminal = none := by
  cases ht : s.terminal with
  | none => rfl
  | some x => exact absurd (hd.symm.trans (h.closed x ht).1) nofun

lemma Watched.frame (h : Watched success s) (hl : t.leader = s.leader) (hd : t.leaderDone = s.leaderDone)
    (hw : t.waitErr = s.waitErr) (hc : t.cause = s.cause) (hs : t.leaderDone = false → t.startErr = false)
    (ht : t.terminal = none) : Watched success t where
  open_cause ho := hc.trans (h.open_cause (hd.symm.trans ho))
  open_leader ho := hl ▸ h.open_leader (hd.symm.trans ho)
  open_start := hs
  done_leader ho := hl ▸ h.done_leader (hd.symm.trans ho)
  done_wait ho result hr := hw.trans (h.done_wait (hd.symm.trans ho) result (hl.symm.trans hr))
  closed _ hx := nomatch ht.symm.trans hx

lemma persisted_cases (s : Watch) (reply : Persisted) (result : Option WaitError) :
    s.leaderDone = false ∧ (s.settlePersist reply).startErr = true ∧
        s.persisted reply result = (s.settlePersist reply).stopGroup result ∨
      (s.leaderDone = false → (s.settlePersist reply).startErr = false) ∧
        s.persisted reply result = s.settlePersist reply := by
  by_cases hs : s.leaderDone = false ∧ (s.settlePersist reply).startErr = true
  · exact .inl ⟨hs.1, hs.2, if_pos hs⟩
  · exact .inr ⟨fun hd => Bool.eq_false_iff.mpr fun hr => hs ⟨hd, hr⟩, if_neg hs⟩

lemma Watched.persisted (h : Watched success s) (hp : s.persisting = true) (reply : Persisted)
    (result : Option WaitError) : Watched success (s.persisted reply result) := by
  have hopen : s.terminal = none := by
    cases ht : s.terminal with
    | none => rfl
    | some x => exact absurd (hp.symm.trans (h.closed x ht).2.1) nofun
  have hsettle : (s.settlePersist reply).terminal = none := by cases reply <;> exact hopen
  obtain ⟨_, _, heq⟩ | ⟨hstart, heq⟩ := persisted_cases s reply result
  · rw [heq]
    exact .stopGroup hsettle result
  · have hdone : (s.settlePersist reply).leaderDone = s.leaderDone := by cases reply <;> rfl
    rw [heq]
    refine h.frame ?_ hdone ?_ ?_ (fun ho => hstart (hdone.symm.trans ho)) hsettle <;> cases reply <;> rfl

lemma pumped_cases (s : Watch) (reply : PumpResult) (result : Option WaitError) :
    ∃ u : Watch, u = { s with pumpsRemaining := u.pumpsRemaining, pumpFailed := u.pumpFailed } ∧
      (s.pumped reply result = u ∧ (reply = .failed → s.leaderDone = true) ∨
        reply = .failed ∧ s.leaderDone = false ∧ s.pumped reply result = u.stopGroup result) := by
  cases reply with
  | failed =>
    refine ⟨{ s with pumpsRemaining := s.pumpsRemaining - 1, pumpFailed := true }, rfl, ?_⟩
    by_cases hd : s.leaderDone = true
    · exact .inl ⟨if_pos hd, fun _ => hd⟩
    · exact .inr ⟨rfl, Bool.eq_false_iff.mpr hd, if_neg hd⟩
  | eof | closed => exact ⟨_, rfl, .inl ⟨rfl, nofun⟩⟩

lemma Watched.pumped (h : Watched success s) (hr : 0 < s.pumpsRemaining) (reply : PumpResult)
    (result : Option WaitError) : Watched success (s.pumped reply result) := by
  have hopen : s.terminal = none := by
    cases ht : s.terminal with
    | none => rfl
    | some x => exact absurd (h.closed x ht).2.2.1 hr.ne'
  obtain ⟨u, hu, ⟨heq, _⟩ | ⟨_, _, heq⟩⟩ := pumped_cases s reply result
  · rw [heq, hu]
    exact h.frame rfl rfl rfl rfl h.open_start hopen
  · rw [heq, hu]
    apply Watched.stopGroup
    exact hopen

lemma Watched.step (hs : WatchStep success s i t) (h : Watched success s) : Watched success t := by
  cases hs with
  | exits hl =>
    have hd : s.leaderDone = false := Bool.eq_false_iff.mpr fun hd => h.done_leader hd hl
    have ht := h.terminal_of_open hd
    exact ⟨h.open_cause, fun _ => nofun, h.open_start, fun _ => nofun, fun ho => (nomatch hd.symm.trans ho),
      fun _ hx => nomatch ht.symm.trans hx⟩
  | waited hd hl =>
    have ht := h.terminal_of_open hd
    refine ⟨nofun, nofun, nofun, fun _ hr => ?_, fun _ result hr => ?_, fun _ hx => nomatch ht.symm.trans hx⟩
    · cases hl.symm.trans hr
    · cases hl.symm.trans hr
      rfl
  | persisted hp => exact h.persisted hp _ _
  | pumped hr _ => exact h.pumped hr _ _
  | deadline hd | stop hd =>
    apply Watched.stopGroup
    exact h.terminal_of_open hd
  | drainDeadline _ _ _ => exact h
  | sealed hd hp hr _ =>
    refine ⟨h.open_cause, h.open_leader, h.open_start, h.done_leader, h.done_wait, fun x hx => ?_⟩
    cases hx
    exact ⟨hd, hp, hr, _, _, rfl⟩

lemma cause_step (hs : WatchStep success s i t) (h : Watched success s) : t.cause = s.cause.or i.cause := by
  cases hs with
  | deadline hd | stop hd =>
    rw [h.open_cause hd]
    rfl
  | @persisted reply result hp =>
    have hc : (s.settlePersist reply).cause = s.cause := by cases reply <;> rfl
    show _ = s.cause.or none
    rw [Option.or_none]
    obtain ⟨_, _, heq⟩ | ⟨_, heq⟩ := persisted_cases s reply result
    · rw [heq]
      exact hc
    · rw [heq]
      exact hc
  | @pumped reply result _ _ =>
    show _ = s.cause.or none
    rw [Option.or_none]
    obtain ⟨u, hu, ⟨heq, _⟩ | ⟨_, _, heq⟩⟩ := pumped_cases s reply result
    · rw [heq, hu]
    · rw [heq, hu]
      rfl
  | exits _ | waited _ _ | drainDeadline _ _ _ | sealed _ _ _ _ => exact (Option.or_none).symm

lemma cause_run (h : Run (WatchStep success) s es t) (hs : Watched success s) :
    t.cause = s.cause.or (acted es) := by
  induction h with
  | nil => exact (Option.or_none).symm
  | @cons s u t i is he _ ih =>
    rw [ih (hs.step he), cause_step he hs, Option.or_assoc]
    congr 1
    simp only [acted, List.findSome?_cons]
    cases i.cause <;> rfl

/-! ## Which events decide the outcome -/

lemma sound_stopGroup (hl : s.leader ≠ .signalled) (result : Option WaitError) :
    Sound success (s.stopGroup result) ↔ (s.cause = none → s.leader ≠ .running) ∧
      (s.cause ≠ none → s.leader.wait result ≠ some .other) ∧
      (s.startErr = true → s.cause = none ∧ ¬Succeeds success (s.leader.wait result)) := by
  have hsignal : s.leader.signal = .signalled ↔ s.leader = .running := by
    cases hr : s.leader with
    | running => exact ⟨fun _ => rfl, fun _ => rfl⟩
    | exited _ => exact ⟨nofun, nofun⟩
    | signalled => exact absurd hr hl
  constructor
  · intro h
    exact ⟨fun hc hr => h.signalled (hsignal.mpr hr) hc, h.ended, h.start⟩
  · rintro ⟨hrunning, hended, hstart⟩
    exact ⟨fun hr hc => hrunning hc (hsignal.mp hr), hended, hstart⟩

lemma Watched.sound_of_open (h : Watched success s) (hd : s.leaderDone = false) : Sound success s :=
  ⟨fun hl => (h.open_leader hd hl).elim, fun hc => (hc (h.open_cause hd)).elim,
    fun hs => nomatch (h.open_start hd).symm.trans hs⟩

lemma sound_persisted (h : Watched success s) (result : Option WaitError) :
    Sound success (s.persisted .panicked result) ↔
      Sound success s ∧ s.cause = none ∧ ∃ own, s.leader = .exited own ∧ ¬Succeeds success own := by
  obtain ⟨hd, _, heq⟩ | ⟨hd, heq⟩ := persisted_cases s .panicked result
  · have hc : s.cause = none := h.open_cause hd
    have hl : (s.settlePersist .panicked).leader ≠ .signalled := h.open_leader hd
    rw [heq, sound_stopGroup hl, and_iff_right (h.sound_of_open hd)]
    show (s.cause = none → s.leader ≠ .running) ∧ (s.cause ≠ none → s.leader.wait result ≠ some .other) ∧
      (true = true → s.cause = none ∧ ¬Succeeds success (s.leader.wait result)) ↔ _
    cases hr : s.leader with
    | running => exact ⟨fun hs => (hs.1 hc rfl).elim, fun ⟨_, _, hs, _⟩ => nomatch hs⟩
    | exited own =>
      constructor
      · rintro ⟨_, _, hstart⟩
        exact ⟨hc, own, rfl, (hstart rfl).2⟩
      · rintro ⟨_, _, hown, hfails⟩
        cases hown
        exact ⟨fun _ => nofun, fun hcause => (hcause hc).elim, fun _ => ⟨hc, hfails⟩⟩
    | signalled => exact (h.open_leader hd hr).elim
  · have hdone : s.leaderDone = true := by
      cases hdone : s.leaderDone with
      | true => rfl
      | false => cases hd hdone
    rw [heq]
    constructor
    · intro hs
      have hsignalled : s.leader = .signalled → s.cause ≠ none := hs.signalled
      have hended : s.cause ≠ none → s.waitErr ≠ some .other := hs.ended
      obtain ⟨hc, hfails⟩ : s.cause = none ∧ ¬Succeeds success s.waitErr := hs.start rfl
      refine ⟨⟨hsignalled, hended, fun _ => ⟨hc, hfails⟩⟩, hc, ?_⟩
      cases hr : s.leader with
      | running => exact (h.done_leader hdone hr).elim
      | exited own => exact ⟨own, rfl, h.done_wait hdone own hr ▸ hfails⟩
      | signalled => exact (hsignalled hr hc).elim
    · rintro ⟨hs, hc, own, hr, hfails⟩
      refine ⟨hs.signalled, hs.ended, fun _ => ⟨hc, ?_⟩⟩
      rw [← h.done_wait hdone own hr] at hfails
      exact hfails

lemma sound_pumped (h : Watched success s) (reply : PumpResult) (result : Option WaitError) :
    Sound success (s.pumped reply result) ↔ Sound success s ∧ (reply = .failed → s.leader ≠ .running) := by
  obtain ⟨u, hu, ⟨heq, hd⟩ | ⟨hf, hd, heq⟩⟩ := pumped_cases s reply result
  · rw [heq, hu, and_iff_left fun hf => h.done_leader (hd hf)]
    exact ⟨fun hs => ⟨hs.signalled, hs.ended, hs.start⟩, fun hs => ⟨hs.signalled, hs.ended, hs.start⟩⟩
  · have hc : s.cause = none := h.open_cause hd
    have hl : u.leader ≠ .signalled := by
      rw [hu]
      exact h.open_leader hd
    rw [heq, sound_stopGroup hl, and_iff_right (h.sound_of_open hd), hu]
    constructor
    · rintro ⟨hrunning, _⟩ _
      exact hrunning hc
    · intro hrunning
      exact ⟨fun _ => hrunning hf, fun hcause => (hcause hc).elim,
        fun hs => nomatch (h.open_start hd).symm.trans hs⟩

lemma sound_stop (h : Watched success s) (hd : s.leaderDone = false) (cause : Cause) (result : Option WaitError) :
    Sound success (Watch.stopGroup { s with cause := some cause } result) ↔
      Sound success s ∧ s.leader.wait result ≠ some .other := by
  have hl : ({ s with cause := some cause } : Watch).leader ≠ .signalled := h.open_leader hd
  rw [sound_stopGroup hl, and_iff_right (h.sound_of_open hd)]
  constructor
  · rintro ⟨_, hended, _⟩
    exact hended nofun
  · intro hended
    exact ⟨nofun, fun _ => hended, fun hs => nomatch (h.open_start hd).symm.trans hs⟩

lemma sound_step (hs : WatchStep success s i t) (h : Watched success s) (hi : NotRefused i) :
    Sound success t ↔ Sound success s ∧ Untroubled success s i := by
  have ht := h.step hs
  cases hs with
  | exits hl =>
    have hd : s.leaderDone = false := Bool.eq_false_iff.mpr fun hd => h.done_leader hd hl
    exact iff_of_true (ht.sound_of_open hd) ⟨h.sound_of_open hd, trivial⟩
  | waited hd hl =>
    refine iff_of_true ⟨fun hr => ?_, fun hc => ?_, fun hr => ?_⟩ ⟨h.sound_of_open hd, trivial⟩
    · cases hl.symm.trans hr
    · exact (hc (h.open_cause hd)).elim
    · cases (h.open_start hd).symm.trans hr
  | @persisted reply result _ =>
    cases reply with
    | recorded =>
      have heq : s.persisted .recorded result = { s with persisting := false } := by
        apply if_neg
        rintro ⟨hd, hs⟩
        have hs : s.startErr = true := hs
        exact nomatch (h.open_start hd).symm.trans hs
      rw [heq]
      exact ⟨fun hs => ⟨⟨hs.signalled, hs.ended, hs.start⟩, trivial⟩,
        fun hs => ⟨hs.1.signalled, hs.1.ended, hs.1.start⟩⟩
    | refused => exact hi.elim
    | panicked => exact sound_persisted h result
  | @pumped reply result _ _ =>
    rw [sound_pumped h]
    apply and_congr_right
    intro _
    cases reply with
    | failed => exact ⟨fun hr => hr rfl, fun hr _ => hr⟩
    | eof | closed => exact iff_of_true nofun trivial
  | deadline hd => exact sound_stop h hd .deadline _
  | stop hd => exact sound_stop h hd .stop _
  | drainDeadline _ _ _ => exact (and_iff_left trivial).symm
  | sealed _ _ _ _ =>
    exact ⟨fun hs => ⟨⟨hs.signalled, hs.ended, hs.start⟩, trivial⟩,
      fun hs => ⟨hs.1.signalled, hs.1.ended, hs.1.start⟩⟩

lemma WatchStep.unique {u : Watch} (ht : WatchStep success s i t) (hu : WatchStep success s i u) : t = u := by
  cases ht with
  | waited _ hl =>
    cases hu with
    | waited _ hl' =>
      cases hl.symm.trans hl'
      rfl
  | _ =>
    cases hu
    rfl

lemma sound_run (h : Run (WatchStep success) s es t) (hs : Watched success s) (hes : ∀ i ∈ es, NotRefused i) :
    Sound success t ↔ Sound success s ∧ Run (guarded (WatchStep success) (Untroubled success)) s es t := by
  induction h with
  | nil s => exact (and_iff_left (Run.nil s)).symm
  | @cons s u t i is he hr ih =>
    obtain ⟨hi, his⟩ := List.forall_mem_cons.mp hes
    rw [ih (hs.step he) his, sound_step he hs hi, and_assoc]
    apply and_congr_right
    intro _
    constructor
    · rintro ⟨hguard, hrest⟩
      exact .cons ⟨hguard, he⟩ hrest
    · rintro (_ | ⟨⟨hguard, he'⟩, hrest⟩)
      rw [← he.unique he'] at hrest
      exact ⟨hguard, hrest⟩

lemma finish_of_cause {c : Cause} {status : Status} (hc : s.cause = some c)
    (hstatus : ∀ code signal, (classifyExit (some c) success code signal).1 = status) (hfailed : status ≠ .failed)
    (x : Remains) (sealFailed : Bool) : (s.finish success x sealFailed).status = status ↔ Sound success s := by
  have hcause : s.cause ≠ none := by
    rw [hc]
    nofun
  cases hs : s.startErr with
  | true =>
    refine iff_of_false ?_ fun h => hcause (h.start hs).1
    rw [Watch.finish, if_pos hs]
    exact hfailed.symm
  | false =>
    have hsound : Sound success s ↔ s.waitErr ≠ some .other :=
      ⟨fun h => h.ended hcause, fun h => ⟨fun _ => hcause, fun _ => h, fun ho => nomatch hs.symm.trans ho⟩⟩
    rw [hsound, Watch.finish, if_neg (Bool.eq_false_iff.mp hs), hc]
    show (classify s.waitErr (some c) success).1 = status ↔ _
    rcases s.waitErr with _ | (⟨code, signal⟩ | _)
    · exact iff_of_true (hstatus 0 "") nofun
    · exact iff_of_true (hstatus code signal) nofun
    · exact iff_of_false hfailed.symm fun h => h rfl

lemma classify_own (result : Option WaitError) :
    ((classify result none success).1 = .succeeded ↔ Succeeds success result) ∧
      ((classify result none success).1 ≠ .succeeded → (classify result none success).1 = .failed) := by
  have hexit : ∀ code signal, ((classifyExit none success code signal).1 = .succeeded ↔ code ∈ success) ∧
      ((classifyExit none success code signal).1 ≠ .succeeded →
        (classifyExit none success code signal).1 = .failed) := by
    intro code signal
    simp only [classifyExit, List.contains_iff_mem]
    split_ifs with hcode hsignal
    · exact ⟨iff_of_true rfl hcode, fun h => (h rfl).elim⟩
    · exact ⟨iff_of_false nofun hcode, fun _ => rfl⟩
    · exact ⟨iff_of_false nofun hcode, fun _ => rfl⟩
  rcases result with _ | (⟨code, signal⟩ | _)
  · refine ⟨(hexit 0 "").1.trans ?_, (hexit 0 "").2⟩
    exact ⟨fun h => ⟨0, rfl, h⟩, fun ⟨_, h, hm⟩ => Option.some.inj h ▸ hm⟩
  · refine ⟨(hexit code signal).1.trans ?_, (hexit code signal).2⟩
    exact ⟨fun h => ⟨code, rfl, h⟩, fun ⟨_, h, hm⟩ => Option.some.inj h ▸ hm⟩
  · exact ⟨iff_of_false nofun fun ⟨_, h, _⟩ => (nomatch h), fun _ => rfl⟩

lemma Watched.finish_own (h : Watched success s) (hd : s.leaderDone = true) (hc : s.cause = none) (x : Remains)
    (sealFailed : Bool) :
    (∃ result, s.leader = .exited result ∧
        ((s.finish success x sealFailed).status = .succeeded ↔ Succeeds success result) ∧
        ((s.finish success x sealFailed).status ≠ .succeeded → (s.finish success x sealFailed).status = .failed)) ↔
      Sound success s := by
  cases hl : s.leader with
  | running => exact (h.done_leader hd hl).elim
  | signalled => exact iff_of_false (fun ⟨_, ho, _⟩ => nomatch ho) fun hs => hs.signalled hl hc
  | exited result =>
    have hwait : s.waitErr = result := h.done_wait hd result hl
    have hsound : Sound success s ↔ (s.startErr = true → ¬Succeeds success result) := by
      constructor
      · intro hs hstart
        exact hwait ▸ (hs.start hstart).2
      · intro hs
        exact ⟨fun ho => (nomatch hl.symm.trans ho), fun ho => (ho hc).elim, fun hstart => ⟨hc, hwait ▸ hs hstart⟩⟩
    rw [hsound]
    constructor
    · rintro ⟨_, ho, hsucceeded, _⟩ hstart
      cases ho
      rw [← hsucceeded, Watch.finish, if_pos hstart]
      nofun
    · intro hs
      refine ⟨result, rfl, ?_⟩
      rw [Watch.finish, hwait, hc]
      split_ifs with hstart
      · exact ⟨iff_of_false nofun (hs hstart), fun _ => rfl⟩
      · exact classify_own result

theorem execution_first (h : Run (WatchStep success) .start es s) (hes : ∀ i ∈ es, NotRefused i) {x : Terminal}
    (hx : s.terminal = some x) :
    ExecutionFirst success es s.leader x.status ↔
      Run (guarded (WatchStep success) (Untroubled success)) .start es s := by
  have hw : Watched success s := h.invariant (fun _ _ _ => Watched.step) .start
  have hc : s.cause = acted es := cause_run h .start
  have hstart : Sound success .start := Watched.start.sound_of_open rfl
  have hrun : Sound success s ↔ Run (guarded (WatchStep success) (Untroubled success)) .start es s :=
    (sound_run h .start hes).trans (and_iff_right hstart)
  obtain ⟨hd, _, _, y, sealFailed, rfl⟩ := hw.closed x hx
  rw [← hrun, ExecutionFirst]
  rcases hacted : acted es with _ | (_ | _)
  · exact hw.finish_own hd (hc.trans hacted) y sealFailed
  · exact finish_of_cause (hc.trans hacted) (fun _ _ => rfl) nofun y sealFailed
  · exact finish_of_cause (hc.trans hacted) (fun _ _ => rfl) nofun y sealFailed

def pumpsEnded : Watch := ⟨.exited none, true, none, none, false, false, 0, true, none⟩

lemma run_pumpsEnded :
    Run (guarded (WatchStep [0]) (Untroubled [0])) .start
      [.exits none, .pumped .failed none, .persisted .recorded none, .pumped .eof none] pumpsEnded :=
  .cons ⟨trivial, .exits rfl⟩ <|
  .cons ⟨nofun, .pumped (by decide) nofun⟩ <|
  .cons ⟨trivial, .persisted rfl⟩ <|
  .cons ⟨trivial, .pumped (by decide) fun _ => rfl⟩ <|
  .nil _

theorem execution_first_late_pump_error :
    ∃ (s : Watch) (x : Terminal) (es : List WatchEvent), Run (WatchStep [0]) .start es s ∧ s.terminal = some x ∧
      x.truncated = true ∧ ExecutionFirst [0] es s.leader x.status := by
  have hsealed : Run (guarded (WatchStep [0]) (Untroubled [0])) pumpsEnded [.sealed ⟨7, 3, false, none⟩ false] _ :=
    .cons ⟨trivial, .sealed rfl rfl rfl rfl⟩ (.nil _)
  have hrun := run_pumpsEnded.append hsealed
  have hwatch := hrun.imp fun _ _ _ h => h.2
  exact ⟨_, _, _, hwatch, rfl, rfl, (execution_first hwatch (by simp [NotRefused]) rfl).mpr hrun⟩

def interrupted : Watch :=
  ⟨.signalled, true, some (.exit (-1) "terminated"), none, false, false, 0, true, none⟩

lemma run_interrupted :
    Run (WatchStep [0]) .start
      [.pumped .failed (some (.exit (-1) "terminated")), .persisted .recorded none, .pumped .eof none]
      interrupted :=
  .cons (.pumped (by decide) nofun) <|
  .cons (.persisted rfl) <|
  .cons (.pumped (by decide) fun _ => rfl) <|
  .nil _

theorem pump_error_stops_process :
    ∃ (s : Watch) (x : Terminal) (es : List WatchEvent), Run (WatchStep [0]) .start es s ∧
      (∀ i ∈ es, NotRefused i) ∧ s.terminal = some x ∧ acted es = none ∧ s.leader = .signalled ∧
      x.status = .failed ∧ x.reason = "signal" := by
  have hsealed : Run (WatchStep [0]) interrupted [.sealed ⟨7, 3, false, none⟩ false] _ :=
    .cons (.sealed rfl rfl rfl rfl) (.nil _)
  exact ⟨_, _, _, run_interrupted.append hsealed, by simp [NotRefused], rfl, rfl, rfl, rfl, rfl⟩

end Minicrond.Executor.Outcome
