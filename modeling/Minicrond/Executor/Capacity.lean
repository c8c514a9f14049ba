import Minicrond.Library.Interleaving
import Minicrond.Store.Runs

/-! The executor's capacity channel: trigger calls, drain steps, runs and operator stops as processes, one
step for each critical section, channel operation or transaction. Slots are numbered in the order in which
they are taken. -/

namespace Minicrond.Executor

open Minicrond.Library Minicrond.Store

structure Options where
  maxConcurrentRuns : ℤ
  queueDisabled : Bool

def Options.slots (o : Options) : ℕ := if o.maxConcurrentRuns ≤ 0 then 32 else o.maxConcurrentRuns.toNat

structure Spec where
  name : String
  kind : Kind
  enabled : Bool
  skipOverlap : Bool
  skipUnrecorded : Bool

def Spec.isJob (d : Spec) : Bool := d.kind = .job

def queueable (o : Options) (trigger : Trigger) : Bool := !o.queueDisabled && trigger ≠ .startup

/-- The shared state. `taken` and `returned` record which slots were taken and which were given back, by the number
of the slot that the releasing path had taken. -/
structure Shared where
  tokens : ℕ
  admission : Bool
  closing : Bool
  active : List (ℕ × String)
  nextID : ℕ
  taken : ℕ
  returned : List (Option ℕ)

namespace Shared

variable (s : Shared)

def activeOf (name : String) : ℕ := s.active.countP (·.2 = name)

def take : Shared := { s with tokens := s.tokens + 1, taken := s.taken + 1 }

def release (slot : Option ℕ) : Shared := { s with tokens := s.tokens - 1, returned := s.returned ++ [slot] }

def register (name : String) : Shared :=
  { s with active := s.active ++ [(s.nextID, name)], nextID := s.nextID + 1 }

def unregister (id : ℕ) : Shared := { s with active := s.active.filter (·.1 ≠ id) }

def lock : Shared := { s with admission := true }

def unlock : Shared := { s with admission := false }

end Shared

def Released (own : Bool) (slot : Option ℕ) (s s' : Shared) : Prop :=
  if own then 0 < s.tokens ∧ s' = s.release slot else s' = s

inductive TriggerPc
  | entering
  | waiting
  | checking
  | deciding
  | placing
  | reserving
  | recording
  | storing
  | releasing
  | launching (recorded : Bool)
  | refused
  | unwinding
  | leaving

structure TriggerCall where
  d : Spec
  trigger : Trigger
  keyed : Bool
  ctxDone : Bool
  capacityOwned : Bool
  slot : Option ℕ
  pc : TriggerPc

inductive DrainPc
  | expiring
  | reserving
  | acquiring
  | checking
  | choosing
  | validating (d : Spec)
  | confirming (d : Spec)
  | dequeuing (d : Spec)
  | launching (d : Spec)
  | refused (d : Spec)
  | started
  | unlocking
  | settling

structure DrainStep where
  consumedSlot : Bool
  slot : Option ℕ
  pc : DrainPc

inductive RunPc
  | executing
  | unregistering
  | releasing

structure JobRun where
  id : ℕ
  d : Spec
  slot : Option ℕ
  pc : RunPc

inductive StopPc
  | waiting
  | cancelling
  | leaving

structure StopCall where
  ctxDone : Bool
  pc : StopPc

inductive Proc
  | trigger (c : TriggerCall)
  | drain (w : DrainStep)
  | run (r : JobRun)
  | stop (c : StopCall)

def TriggerCall.goto (c : TriggerCall) (pc : TriggerPc) : List Proc := [.trigger { c with pc := pc }]

def TriggerCall.disown (c : TriggerCall) (pc : TriggerPc) : List Proc :=
  [.trigger { c with capacityOwned := false, pc := pc }]

def DrainStep.goto (w : DrainStep) (pc : DrainPc) : List Proc := [.drain { w with pc := pc }]

def launched (s : Shared) (d : Spec) (slot : Option ℕ) : Proc := .run ⟨s.nextID, d, slot, .executing⟩

inductive TriggerStep (o : Options) : Shared → TriggerCall → Shared → List Proc → Prop
  | shut {s c} (h : c.pc = .entering) (hc : s.closing = true) : TriggerStep o s c s []
  | entered {s c} (h : c.pc = .entering) (hc : s.closing = false) : TriggerStep o s c s (c.goto .waiting)
  -- `acquireAdmission`
  | admitted {s c} (h : c.pc = .waiting) (ha : s.admission = false) : TriggerStep o s c s.lock (c.goto .checking)
  | gaveUp {s c} (h : c.pc = .waiting) (hd : c.ctxDone = true ∨ s.closing = true) : TriggerStep o s c s []
  | closed {s c} (h : c.pc = .checking) (hc : s.closing = true) : TriggerStep o s c s (c.goto .leaving)
  | proceed {s c} (h : c.pc = .checking) (hc : s.closing = false) : TriggerStep o s c s (c.goto .deciding)
  | declined {s c} (h : c.pc = .deciding) (hd : c.ctxDone = true ∨ c.d.enabled = false) :
      TriggerStep o s c s (c.goto .leaving)
  | overlap {s c} (h : c.pc = .deciding) (hd : c.ctxDone = false ∧ c.d.enabled = true) (hk : c.d.isJob = true)
      (ho : c.d.skipOverlap = true ∧ 0 < s.activeOf c.d.name) : TriggerStep o s c s (c.goto .recording)
  | job {s c} (h : c.pc = .deciding) (hd : c.ctxDone = false ∧ c.d.enabled = true) (hk : c.d.isJob = true)
      (ho : ¬ (c.d.skipOverlap = true ∧ 0 < s.activeOf c.d.name)) : TriggerStep o s c s (c.goto .placing)
  | worker {s c} (h : c.pc = .deciding) (hd : c.ctxDone = false ∧ c.d.enabled = true) (hk : c.d.isJob = false) :
      TriggerStep o s c s (c.goto .storing)
  -- a queueable trigger joins a queue that is not empty
  | behind {s c} (h : c.pc = .placing) (hq : queueable o c.trigger = true) :
      TriggerStep o s c s (c.goto .recording)
  | direct {s c} (h : c.pc = .placing) : TriggerStep o s c s (c.goto .reserving)
  | reserved {s c} (h : c.pc = .reserving) (ht : s.tokens < o.slots) :
      TriggerStep o s c s.take [.trigger { c with slot := some s.taken, capacityOwned := true, pc := .storing }]
  | full {s c} (h : c.pc = .reserving) (ht : o.slots ≤ s.tokens)
      (hr : queueable o c.trigger = true ∨ c.trigger ≠ .retry) : TriggerStep o s c s (c.goto .recording)
  | deferredRetry {s c} (h : c.pc = .reserving) (ht : o.slots ≤ s.tokens)
      (hr : queueable o c.trigger = false ∧ c.trigger = .retry) : TriggerStep o s c s (c.goto .leaving)
  -- `enqueue` or `recordSkipped`
  | recorded {s c} (h : c.pc = .recording) : TriggerStep o s c s (c.goto .leaving)
  -- `AdmitIdempotentRun` or `CreateRun`: refused or a replay, stored, or the database cannot take the row
  | rejected {s c} (h : c.pc = .storing) : TriggerStep o s c s (c.goto .releasing)
  | stored {s c} (h : c.pc = .storing) : TriggerStep o s c s (c.disown (.launching true))
  | skipped {s c} (h : c.pc = .storing) (hk : c.keyed = false)
      (hs : c.d.isJob = true ∧ c.d.skipUnrecorded = true) :
      TriggerStep o s c s (c.goto .releasing)
  | deferred {s c} (spooled : Bool) (h : c.pc = .storing) (hk : c.keyed = false)
      (hs : ¬ (c.d.isJob = true ∧ c.d.skipUnrecorded = true)) : TriggerStep o s c s (c.disown (.launching spooled))
  | panicked {s c} (h : c.pc = .storing) : TriggerStep o s c s (c.goto .unwinding)
  | released {s c s'} (h : c.pc = .releasing) (hr : Released c.capacityOwned c.slot s s') :
      TriggerStep o s c s' (c.disown .unwinding)
  -- `launch` registers the run or is refused
  | registered {s c recorded} (h : c.pc = .launching recorded) (hc : s.closing = false) :
      TriggerStep o s c (s.register c.d.name) (c.goto .unwinding ++ [launched s c.d c.slot])
  | refused {s c recorded} (h : c.pc = .launching recorded) (hc : s.closing = true) :
      TriggerStep o s c s (c.goto .refused)
  | gaveBack {s c s'} (h : c.pc = .refused) (hr : Released c.d.isJob c.slot s s') :
      TriggerStep o s c s' (c.goto .unwinding)
  -- the deferred calls
  | unwound {s c s'} (h : c.pc = .unwinding) (hr : Released c.capacityOwned c.slot s s') :
      TriggerStep o s c s' (c.disown .leaving)
  | left {s c} (h : c.pc = .leaving) : TriggerStep o s c s.unlock []

inductive DrainMove (o : Options) : Shared → DrainStep → Shared → List Proc → Prop
  | idle {s w} (h : w.pc = .expiring) : DrainMove o s w s []
  | expired {s w} (h : w.pc = .expiring) : DrainMove o s w s (w.goto .reserving)
  | full {s w} (h : w.pc = .reserving) (ht : o.slots ≤ s.tokens) : DrainMove o s w s []
  | reserved {s w} (h : w.pc = .reserving) (ht : s.tokens < o.slots) :
      DrainMove o s w s.take [.drain { w with consumedSlot := false, slot := some s.taken, pc := .acquiring }]
  | admitted {s w} (h : w.pc = .acquiring) (ha : s.admission = false) : DrainMove o s w s.lock (w.goto .checking)
  | gaveUp {s w} (h : w.pc = .acquiring) (hc : s.closing = true) : DrainMove o s w s (w.goto .settling)
  | closed {s w} (h : w.pc = .checking) (hc : s.closing = true) : DrainMove o s w s (w.goto .unlocking)
  | proceed {s w} (h : w.pc = .checking) (hc : s.closing = false) : DrainMove o s w s (w.goto .choosing)
  -- no item, an error or a panic
  | none {s w} (h : w.pc = .choosing) : DrainMove o s w s (w.goto .unlocking)
  | item {s w} (d : Spec) (h : w.pc = .choosing) : DrainMove o s w s (w.goto (.validating d))
  -- `startQueued`: dropped, failed, or ended elsewhere
  | dropped {s w d} (h : w.pc = .validating d) : DrainMove o s w s (w.goto .unlocking)
  | valid {s w d} (h : w.pc = .validating d) (hk : d.isJob = true) (he : d.enabled = true)
      (ho : ¬ (d.skipOverlap = true ∧ 0 < s.activeOf d.name)) : DrainMove o s w s (w.goto (.confirming d))
  | stopping {s w d} (h : w.pc = .confirming d) (hc : s.closing = true) : DrainMove o s w s (w.goto .unlocking)
  | confirmed {s w d} (h : w.pc = .confirming d) (hc : s.closing = false) :
      DrainMove o s w s (w.goto (.dequeuing d))
  | kept {s w d} (h : w.pc = .dequeuing d) : DrainMove o s w s (w.goto .unlocking)
  | dequeued {s w d} (h : w.pc = .dequeuing d) : DrainMove o s w s (w.goto (.launching d))
  | registered {s w d} (h : w.pc = .launching d) (hc : s.closing = false) :
      DrainMove o s w (s.register d.name) (w.goto .started ++ [launched s d w.slot])
  | refused {s w d} (h : w.pc = .launching d) (hc : s.closing = true) : DrainMove o s w s (w.goto (.refused d))
  | gaveBack {s w d s'} (h : w.pc = .refused d) (hr : Released d.isJob w.slot s s') :
      DrainMove o s w s' (w.goto .started)
  | consumed {s w} (h : w.pc = .started) :
      DrainMove o s w s [.drain { w with consumedSlot := true, pc := .unlocking }]
  -- the deferred calls
  | unlocked {s w} (h : w.pc = .unlocking) : DrainMove o s w s.unlock (w.goto .settling)
  | settled {s w s'} (h : w.pc = .settling) (hr : Released (!w.consumedSlot) w.slot s s') : DrainMove o s w s' []

inductive RunStep : Shared → JobRun → Shared → List Proc → Prop
  -- the run completed or panicked
  | completed {s r} (h : r.pc = .executing) : RunStep s r s [.run { r with pc := .unregistering }]
  | unregistered {s r} (h : r.pc = .unregistering) :
      RunStep s r (s.unregister r.id) [.run { r with pc := .releasing }]
  | released {s r s'} (h : r.pc = .releasing) (hr : Released r.d.isJob r.slot s s') : RunStep s r s' []

inductive StopStep : Shared → StopCall → Shared → List Proc → Prop
  | admitted {s c} (h : c.pc = .waiting) (ha : s.admission = false) :
      StopStep s c s.lock [.stop { c with pc := .cancelling }]
  | gaveUp {s c} (h : c.pc = .waiting) (hd : c.ctxDone = true ∨ s.closing = true) : StopStep s c s []
  | cancelled {s c} (h : c.pc = .cancelling) : StopStep s c s [.stop { c with pc := .leaving }]
  | left {s c} (h : c.pc = .leaving) : StopStep s c s.unlock []

def Local (o : Options) (s : Shared) : Proc → Shared → List Proc → Prop
  | .trigger c => TriggerStep o s c
  | .drain w => DrainMove o s w
  | .run r => RunStep s r
  | .stop c => StopStep s c

inductive Expires : Shared → Proc → Shared → List Proc → Prop
  | trigger (s : Shared) (c : TriggerCall) : Expires s (.trigger c) s [.trigger { c with ctxDone := true }]
  | stop (s : Shared) (c : StopCall) : Expires s (.stop c) s [.stop { c with ctxDone := true }]

def Proc.isDrain : Proc → Bool
  | .drain _ => true
  | _ => false

inductive Event
  | internal
  | trigger (d : Spec) (trigger : Trigger) (keyed : Bool)
  | wake
  | stop
  | expire
  | shutdown

abbrev State := Config Shared Proc

inductive Step (o : Options) : State → Event → State → Prop
  | internal {c c'} (h : Interleave (Local o) c c') : Step o c .internal c'
  | trigger (c : State) (d : Spec) (trigger : Trigger) (keyed : Bool) :
      Step o c (.trigger d trigger keyed) (c.spawn (.trigger ⟨d, trigger, keyed, false, false, none, .entering⟩))
  -- the single drain loop starts its next step
  | wake {c : State} (hc : c.shared.closing = false) (hd : ∀ p ∈ c.procs, p.isDrain = false) :
      Step o c .wake (c.spawn (.drain ⟨false, none, .expiring⟩))
  | stop (c : State) : Step o c .stop (c.spawn (.stop ⟨false, .waiting⟩))
  | expire {c c'} (h : Interleave Expires c c') : Step o c .expire c'
  | shutdown (c : State) : Step o c .shutdown ⟨{ c.shared with closing := true }, c.procs⟩

def State.initial : State := ⟨⟨0, false, false, [], 0, 0, []⟩, []⟩

end Minicrond.Executor
