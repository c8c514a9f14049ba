import Minicrond.Library.Machine
import Mathlib.Data.List.Basic
import Mathlib.Tactic.Common

/-! The init that runs the daemon when minicrond is PID 1 of a container, from the point where the daemon has
been started. The kernel raises one pending SIGCHLD however many children ended, and the channel that carries it
holds one value. -/

namespace Minicrond.Cli.Init

open Minicrond.Library

inductive WaitStatus
  | exited (status : ℕ)
  | signaled (signal : ℕ)
  | other
  deriving DecidableEq

def WaitStatus.code : WaitStatus → ℕ
  | .exited status => status
  | .signaled signal => 128 + signal
  | .other => 1

inductive Pc
  | select
  -- In `reapAll(daemonPID)`, with its two results so far.
  | reaping (code : ℕ) (daemonExited : Bool)
  -- In `stopLeftovers`: before the SIGTERM to all, in `reapAll(-1)`, before the probe, and waiting.
  | terminating (code : ℕ)
  | sweeping (code : ℕ)
  | probing (code : ℕ)
  | leftovers (code : ℕ)
  | returned (code : ℕ)

def Pc.awake : Pc → Bool
  | .reaping .. | .terminating _ | .sweeping _ | .returned _ => true
  | _ => false

def Pc.code : Pc → Option ℕ
  | .select => none
  | .reaping code daemonExited => if daemonExited then some code else none
  | .terminating code | .sweeping code | .probing code | .leftovers code | .returned code => some code

structure State where
  live : List ℕ
  zombies : List (ℕ × WaitStatus)
  -- A SIGCHLD that the Go runtime has not yet offered to the channel, and the channel's one slot.
  pending : Bool
  children : Bool
  sigs : List ℕ
  pc : Pc
  -- What happened: how the daemon ended, the signals in the order in which os/signal relays them, and
  -- those sent on.
  ended : Option WaitStatus
  received : List ℕ
  forwarded : List ℕ

def start (daemonPID : ℕ) : State := ⟨[daemonPID], [], false, false, [], .select, none, [], []⟩

inductive Event
  | spawn (pid : ℕ)
  | exit (pid : ℕ) (status : WaitStatus)
  | gone (pid : ℕ)
  | signal (sig : ℕ)
  | deliver
  | forward
  | notified
  | reap (pid : ℕ)
  | reaped
  | terminate
  | probe
  | deadline

def Event.own : Event → Bool
  | .spawn _ | .exit .. | .gone _ | .signal _ | .deadline => false
  | _ => true

def State.empty (s : State) : Bool := s.live.isEmpty && s.zombies.isEmpty

section

variable (daemonPID : ℕ)

inductive Step : State → Event → State → Prop
  | spawn {s : State} {pid : ℕ} : pid ≠ daemonPID → Step s (.spawn pid) { s with live := pid :: s.live }
  -- A child ends, or a process that has ended becomes a child of init.
  | exit {s : State} {pid : ℕ} {status : WaitStatus} : pid ∈ s.live → Step s (.exit pid status)
      { s with
        live := s.live.filter (· ≠ pid), zombies := s.zombies ++ [(pid, status)], pending := true
        ended := if pid = daemonPID then some status else s.ended }
  -- A process whose own parent waits for it.
  | gone {s : State} {pid : ℕ} : pid ≠ daemonPID → Step s (.gone pid) { s with live := s.live.filter (· ≠ pid) }
  | signal {s : State} {sig : ℕ} : Step s (.signal sig)
      { s with
        received := s.received ++ [sig]
        sigs := if s.sigs.length < 8 then s.sigs ++ [sig] else s.sigs }
  | deliver {s : State} : s.pending = true → Step s .deliver { s with pending := false, children := true }
  | forward {s : State} {sig : ℕ} {rest : List ℕ} : s.pc = .select → s.sigs = sig :: rest →
      Step s .forward { s with sigs := rest, forwarded := s.forwarded ++ [sig] }
  | notified {s : State} : s.pc = .select → s.children = true →
      Step s .notified { s with children := false, pc := .reaping 0 false }
  | reap {s : State} {pid code : ℕ} {status : WaitStatus} {daemonExited : Bool} :
      s.pc = .reaping code daemonExited →
      (pid, status) ∈ s.zombies → Step s (.reap pid)
      { s with
        zombies := s.zombies.erase (pid, status)
        pc := if pid = daemonPID then .reaping status.code true else .reaping code daemonExited }
  | reaped {s : State} {code : ℕ} {daemonExited : Bool} : s.pc = .reaping code daemonExited → s.zombies = [] →
      Step s .reaped { s with pc := if daemonExited then .terminating code else .select }
  | terminate {s : State} {code : ℕ} : s.pc = .terminating code →
      Step s .terminate { s with pc := if s.empty then .returned code else .sweeping code }
  | sweep {s : State} {pid code : ℕ} {status : WaitStatus} : s.pc = .sweeping code → (pid, status) ∈ s.zombies →
      Step s (.reap pid) { s with zombies := s.zombies.erase (pid, status) }
  | swept {s : State} {code : ℕ} : s.pc = .sweeping code → s.zombies = [] →
      Step s .reaped { s with pc := .probing code }
  | probe {s : State} {code : ℕ} : s.pc = .probing code →
      Step s .probe { s with pc := if s.empty then .returned code else .leftovers code }
  | wake {s : State} {code : ℕ} : s.pc = .leftovers code → s.children = true →
      Step s .notified { s with children := false, pc := .sweeping code }
  | deadline {s : State} {code : ℕ} : s.pc = .leftovers code → Step s .deadline { s with pc := .returned code }

structure Sound (s : State) : Prop where
  noticed : s.zombies ≠ [] → s.pending = true ∨ s.children = true ∨ s.pc.awake = true
  once : daemonPID ∈ s.live → s.ended = none
  zombie : ∀ status, (daemonPID, status) ∈ s.zombies → s.ended = some status
  code : ∀ code, s.pc.code = some code → s.ended.map WaitStatus.code = some code
  signals : (s.forwarded ++ s.sigs).Sublist s.received

end

section

variable {daemonPID : ℕ} {s t : State} {e : Event} {events : List Event}

lemma Step.noticed (h : Step daemonPID s e t) (hs : Sound daemonPID s) (hz : t.zombies ≠ []) :
    t.pending = true ∨ t.children = true ∨ t.pc.awake = true := by
  have hn := hs.noticed
  cases h with
  | exit => exact .inl rfl
  | deliver => exact .inr (.inl rfl)
  -- The loop goes back to sleep only when it has seen that no zombie is left.
  | reaped _ hnone | swept _ hnone => exact absurd hnone hz
  | _ => grind [Pc.awake, State.empty]

lemma Step.once (h : Step daemonPID s e t) (hs : Sound daemonPID s) (hl : daemonPID ∈ t.live) :
    t.ended = none := by
  have ho := hs.once
  cases h with
  | spawn | exit | gone => grind
  | _ => exact ho hl

lemma Step.zombie (h : Step daemonPID s e t) (hs : Sound daemonPID s) (status : WaitStatus)
    (hz : (daemonPID, status) ∈ t.zombies) : t.ended = some status := by
  have hz' := hs.zombie status
  have ho := hs.once
  cases h with
  | exit => grind
  | reap | sweep => exact hz' (List.mem_of_mem_erase hz)
  | _ => exact hz' hz

lemma Step.code (h : Step daemonPID s e t) (hs : Sound daemonPID s) (code : ℕ) (hc : t.pc.code = some code) :
    t.ended.map WaitStatus.code = some code := by
  have hc' := hs.code code
  have ho := hs.once
  cases h with
  | @reap pid c status daemonExited hpc hz =>
    by_cases hpid : pid = daemonPID
    · subst hpid
      have hcode : status.code = code := by simpa [Pc.code] using hc
      rw [hs.zombie status hz, Option.map_some, hcode]
    · apply hc'
      simpa only [hpid, if_false, ← hpc] using hc
  | _ => grind [Pc.code]

lemma Step.signals (h : Step daemonPID s e t) (hs : Sound daemonPID s) :
    (t.forwarded ++ t.sigs).Sublist t.received := by
  have hq := hs.signals
  cases h with
  | @signal sig =>
    simp only
    split_ifs
    · rw [← List.append_assoc]
      exact hq.append (List.Sublist.refl _)
    · exact hq.trans (List.sublist_append_left _ _)
  | forward _ hsigs => simpa [hsigs] using hq
  | _ => exact hq

lemma Step.sound (h : Step daemonPID s e t) (hs : Sound daemonPID s) : Sound daemonPID t :=
  ⟨h.noticed hs, h.once hs, h.zombie hs, h.code hs, h.signals hs⟩

lemma sound_run (h : Run (Step daemonPID) (start daemonPID) events s) : Sound daemonPID s := by
  refine h.invariant (fun _ _ _ h hs => h.sound hs) ⟨?_, ?_, ?_, ?_, ?_⟩ <;> simp [start, Pc.code]

def Clears (daemonPID n : ℕ) (s : State) : Prop :=
  ∃ is t, Run (Step daemonPID) s is t ∧ (∀ i ∈ is, Event.own i = true) ∧ is.length ≤ n ∧ t.zombies = []

lemma Clears.nil {n : ℕ} (h : s.zombies = []) : Clears daemonPID n s :=
  ⟨[], s, .nil s, by simp, Nat.zero_le n, h⟩

lemma Clears.mono {m n : ℕ} (h : Clears daemonPID m s) (hmn : m ≤ n) : Clears daemonPID n s := by
  obtain ⟨is, u, hrun, hown, hlen, hu⟩ := h
  exact ⟨is, u, hrun, hown, Nat.le_trans hlen hmn, hu⟩

lemma Clears.step {n : ℕ} (hstep : Step daemonPID s e t) (he : e.own = true) (h : Clears daemonPID n t) :
    Clears daemonPID (n + 1) s := by
  obtain ⟨is, u, hrun, hown, hlen, hu⟩ := h
  exact ⟨e :: is, u, .cons hstep hrun, List.forall_mem_cons.mpr ⟨he, hown⟩, Nat.succ_le_succ hlen, hu⟩

lemma clears_busy (hpc : (∃ code daemonExited, s.pc = .reaping code daemonExited) ∨
    ∃ code, s.pc = .sweeping code) :
    Clears daemonPID s.zombies.length s := by
  generalize hz : s.zombies = zs
  induction zs generalizing s with
  | nil => exact .nil hz
  | cons z zs ih =>
    have hmem : (z.1, z.2) ∈ s.zombies := by simp [hz]
    have herase : s.zombies.erase (z.1, z.2) = zs := by simp [hz]
    rcases hpc with ⟨code, daemonExited, hpc⟩ | ⟨code, hpc⟩
    · refine .step (.reap hpc hmem) rfl (ih (.inl ?_) herase)
      simp only
      split_ifs
      · exact ⟨_, _, rfl⟩
      · exact ⟨_, _, rfl⟩
    · exact .step (.sweep hpc hmem) rfl (ih (.inr ⟨code, hpc⟩) herase)

lemma clears_awake (h : s.pc.awake = true) (hz : s.zombies ≠ []) (hr : ∀ code, s.pc ≠ .returned code) :
    Clears daemonPID (s.zombies.length + 1) s := by
  cases hpc : s.pc with
  | select | probing | leftovers => simp [hpc, Pc.awake] at h
  | returned code => exact absurd hpc (hr code)
  | reaping code daemonExited => exact (clears_busy (.inl ⟨code, daemonExited, hpc⟩)).mono (Nat.le_succ _)
  | sweeping code => exact (clears_busy (.inr ⟨code, hpc⟩)).mono (Nat.le_succ _)
  | terminating code =>
    exact .step (.terminate hpc) rfl (clears_busy (.inr ⟨code, by simp [State.empty, hz]⟩))

lemma clears_leftovers (code : ℕ) (h : s.children = true) (hpc : s.pc = .leftovers code) :
    Clears daemonPID (s.zombies.length + 1) s :=
  .step (.wake hpc h) rfl (clears_busy (.inr ⟨code, rfl⟩))

lemma clears_notified (h : s.children = true) (hz : s.zombies ≠ []) (hr : ∀ code, s.pc ≠ .returned code) :
    Clears daemonPID (s.zombies.length + 2) s := by
  by_cases ha : s.pc.awake = true
  · exact (clears_awake ha hz hr).mono (Nat.le_succ _)
  cases hpc : s.pc with
  | reaping | terminating | sweeping | returned => simp [hpc, Pc.awake] at ha
  | select => exact (Clears.step (.notified hpc h) rfl (clears_busy (.inl ⟨0, false, rfl⟩))).mono (Nat.le_succ _)
  | probing code => exact .step (.probe hpc) rfl (clears_leftovers code h (by simp [State.empty, hz]))
  | leftovers code => exact (clears_leftovers code h hpc).mono (Nat.le_succ _)

end

/-- From every reachable state init gets rid of all zombies by its own steps, one each and at most three more: no
child ends unnoticed, whenever and however many at once. -/
theorem init_reaps (daemonPID : ℕ) (events : List Event) (s : State)
    (h : Run (Step daemonPID) (start daemonPID) events s) (hr : ∀ code, s.pc ≠ .returned code) :
    Clears daemonPID (s.zombies.length + 3) s := by
  by_cases hz : s.zombies = []
  · exact .nil hz
  rcases (sound_run h).noticed hz with hp | hc | ha
  · exact .step (.deliver hp) rfl (clears_notified rfl hz hr)
  · exact (clears_notified hc hz hr).mono (Nat.le_succ _)
  · exact (clears_awake ha hz hr).mono (Nat.add_le_add_left (by decide) _)

theorem init_reaps_orphan : ∃ events s, Run (Step 7) (start 7) events s ∧ s.zombies.length = 1 ∧ Clears 7 4 s := by
  have hrun : Run (Step 7) (start 7) [.spawn 8, .exit 8 .other] _ :=
    .cons (.spawn (by decide)) (.cons (.exit (by decide)) (.nil _))
  exact ⟨_, _, hrun, rfl, init_reaps 7 _ _ hrun fun _ h => by simp [start] at h⟩

/-- Init returns the daemon's own exit code, and it sent the signals on in the order in which they were
relayed to it. -/
theorem init_returns (daemonPID : ℕ) (events : List Event) (s : State)
    (h : Run (Step daemonPID) (start daemonPID) events s) :
    (∀ code, s.pc = .returned code → ∃ status, s.ended = some status ∧ code = status.code) ∧
      s.forwarded.Sublist s.received := by
  have hs := sound_run h
  refine ⟨fun code hpc => ?_, (List.sublist_append_left _ _).trans hs.signals⟩
  obtain ⟨status, he, hcode⟩ := Option.map_eq_some_iff.mp (hs.code code (by rw [hpc]; rfl))
  exact ⟨status, he, hcode.symm⟩

def terminated : State where
  live := []
  zombies := [(7, .signaled 15)]
  pending := true
  children := false
  sigs := []
  pc := .select
  ended := some (.signaled 15)
  received := [15]
  forwarded := [15]

lemma run_terminated : Run (Step 7) (start 7) [.signal 15, .forward, .exit 7 (.signaled 15)] terminated :=
  .cons .signal <|
  .cons (.forward rfl rfl) <|
  .cons (.exit (by decide)) <|
  .nil _

lemma run_returned : Run (Step 7) terminated [.deliver, .notified, .reap 7, .reaped, .terminate]
    { terminated with zombies := [], pending := false, pc := .returned 143 } :=
  .cons (.deliver rfl) <|
  .cons (.notified rfl rfl) <|
  .cons (.reap rfl (.head _)) <|
  .cons (.reaped rfl rfl) <|
  .cons (.terminate rfl) <|
  .nil _

theorem init_returns_signaled : ∃ events s, Run (Step 7) (start 7) events s ∧ s.pc = .returned 143 ∧
    ∃ status, s.ended = some status ∧ 143 = status.code := by
  have hrun := run_terminated.append run_returned
  exact ⟨_, _, hrun, rfl, (init_returns 7 _ _ hrun).1 143 rfl⟩

end Minicrond.Cli.Init
