import Minicrond.Library.Execution
import Minicrond.Supervisor.Exhaustion
import Mathlib.Data.Option.Basic

/-! The supervision of one worker: its loops, the operations on it and the runs it starts. Operations on other
workers take part only by holding the locks for a while. -/

namespace Minicrond.Supervisor

open Minicrond.Library

inductive RestartPolicy where
  | never
  | onFailure
  | always
  deriving DecidableEq

structure Worker where
  enabled : Bool
  autostart : Bool
  restart : RestartPolicy
  maxRestartAttempts : ℕ
  restartBackoffMax : ℕ
  revision : ℕ
  hash : Option ℕ
  attempts_pos : 0 < maxRestartAttempts
  deriving DecidableEq

def sameDefinition (a b : Worker) : Bool :=
  a.hash.isSome && b.hash.isSome && a.revision == b.revision && a.hash == b.hash

def desired (d : Option Worker) : Option Worker := d.filter fun d => d.enabled && d.autostart

def RestartPolicy.ends : RestartPolicy → Bool → Bool
  | .never, _ => true
  | .onFailure, succeeded => succeeded
  | .always, _ => false

inductive RunStatus where
  | absent
  | running
  -- The run was asked to stop.
  | stopping
  | over
  deriving DecidableEq

def RunStatus.live : RunStatus → Bool
  | .running | .stopping => true
  | _ => false

/-! ## Shared state -/

structure Shared where
  closing : Bool := false
  -- `ctx` is set.
  started : Bool := false
  held : Bool := false
  failures : ℕ := 0
  active : Option ℕ := none
  -- The loop whose entries are in `workerCancels`, `workerDone` and `workerDefs`.
  loop : Option ℕ := none
  retiring : Bool := false
  epoch : ℕ := 0
  lifecycle : Option ℕ := none
  stateMu : Bool := false
  nextLoop : ℕ := 0
  defs : ℕ → Option Worker := fun _ => none
  cancelled : ℕ → Bool := fun _ => false
  done : ℕ → Bool := fun _ => false
  nextRun : ℕ := 0
  runs : ℕ → RunStatus := fun _ => .absent
  -- The definition in the store.
  revision : ℕ := 0
  deleted : Bool := false
  -- The failures in the stored exhaustion.
  exhaustion : Option ℕ := none
  -- Calls of `onExhausted` by each loop.
  announced : ℕ → ℕ := fun _ => 0
  -- Attempts begun since the loop started, the last healthy lifetime and the last reset.
  begun : ℕ := 0

namespace Shared

def ctxErr (w : Shared) (l : ℕ) : Bool := w.closing || w.cancelled l

def cancel (w : Shared) (l : ℕ) : Shared := { w with cancelled := Function.update w.cancelled l true }

def setRun (w : Shared) (r : ℕ) (st : RunStatus) : Shared := { w with runs := Function.update w.runs r st }

def stop (w : Shared) (r : ℕ) : Shared :=
  { w with runs := if w.runs r = .running then Function.update w.runs r .stopping else w.runs }

def trigger (w : Shared) (st : RunStatus) : Shared := { w.setRun w.nextRun st with nextRun := w.nextRun + 1 }

def drop (w : Shared) (r : ℕ) : Shared := { w with active := if w.active = some r then none else w.active }

def unlock (w : Shared) : Shared := { w with lifecycle := none }

def reset (w : Shared) : Shared := { w with epoch := w.epoch + 1, failures := 0, begun := 0 }

def lift (w : Shared) : Shared := { w with held := false, failures := 0, begun := 0 }

def startLocked (w : Shared) (d : Worker) : Shared :=
  { w with
    failures := 0
    begun := 0
    held := false
    loop := some w.nextLoop
    defs := Function.update w.defs w.nextLoop (some d)
    nextLoop := w.nextLoop + 1
    retiring := false }

def finish (w : Shared) (l : ℕ) : Shared :=
  { w with active := none, loop := none, retiring := false, done := Function.update w.done l true }

def startable (w : Shared) (d : Worker) : Bool := !w.closing && w.started && d.enabled

end Shared

/-! ## Loops -/

inductive LoopPc where
  | unborn
  | starting
  -- Before `ctx.Err()` at the top.
  | checking
  -- Before `held` at the top.
  | looking
  | triggering
  -- `Trigger` returned an error, and perhaps a terminal run.
  | refused (shutdown : Bool) (run : Option ℕ)
  -- `Trigger` returned the run, which is not yet the active one.
  | started (r : ℕ)
  | recorded (r : ℕ) (held : Bool)
  | waiting (r : ℕ)
  -- The context ended and the run was asked to stop.
  | stopping (r : ℕ)
  | finished (r : ℕ)
  -- The outcome of a run that is over is about to decide.
  | judging
  | restarting (healthy : Bool)
  -- In `persistExhaustion`, before it takes `stateMu`.
  | persisting (epoch failures : ℕ)
  | saving (epoch failures : ℕ)
  | saved (epoch failures : ℕ) (err : SaveResult)
  | retrying (epoch failures : ℕ)
  | announcing (epoch : ℕ)
  -- `persistExhaustion` returned `true`.
  | persisted (epoch : ℕ)
  | delaying
  -- The timer fired.
  | delayed
  -- In the deferred function.
  | exiting
  | closing (r : ℕ)
  | finishing
  | ended
  deriving DecidableEq

namespace LoopPc

def alive : LoopPc → Bool
  | .unborn | .ended => false
  | _ => true

def run? : LoopPc → Option ℕ
  | .started r | .recorded r _ | .waiting r | .stopping r => some r
  | _ => none

def recorded? : LoopPc → Option ℕ
  | .recorded r _ | .waiting r | .stopping r | .finished r => some r
  | _ => none

def passing : LoopPc → Bool
  | .unborn | .triggering | .waiting _ | .stopping _ | .closing _ | .ended => false
  | _ => true

end LoopPc

inductive LoopStep (d : Worker) (l : ℕ) : Shared → LoopPc → Shared → LoopPc → Prop
  | invalid {w} (h : d.hash = none) : LoopStep d l w .starting w .exiting
  | start {w} (h : d.hash.isSome = true) : LoopStep d l w .starting w .checking
  | over {w} (h : w.ctxErr l = true) : LoopStep d l w .checking w .exiting
  | check {w} (h : w.ctxErr l = false) : LoopStep d l w .checking w .looking
  | hold {w} (h : w.held = true) : LoopStep d l w .looking w .exiting
  | attempt {w} (h : w.held = false) : LoopStep d l w .looking { w with begun := w.begun + 1 } .triggering
  | trigger (w) : LoopStep d l w .triggering (w.trigger .running) (.started w.nextRun)
  | refuse (w) (shutdown : Bool) : LoopStep d l w .triggering w (.refused shutdown none)
  -- A terminal run whose log could not be opened.
  | refuseTerminal (w) (shutdown : Bool) :
      LoopStep d l w .triggering (w.trigger .over) (.refused shutdown (some w.nextRun))
  | refusedOver {w shutdown run} (h : w.ctxErr l = true ∨ shutdown = true ∨ w.held = true) :
      LoopStep d l w (.refused shutdown run) w .exiting
  | refusedNever {w} (h : w.held = false) (hd : d.restart = .never) :
      LoopStep d l w (.refused false none) w .exiting
  | refusedAgain {w} (h : w.held = false) (hd : d.restart ≠ .never) :
      LoopStep d l w (.refused false none) w (.restarting false)
  | refusedRun {w r} (h : w.held = false) : LoopStep d l w (.refused false (some r)) w (.started r)
  | record (w r) : LoopStep d l w (.started r) { w with active := some r } (.recorded r w.held)
  | watch (w r) : LoopStep d l w (.recorded r false) w (.waiting r)
  | stopHeld (w r) : LoopStep d l w (.recorded r true) (w.stop r) (.waiting r)
  | stopCancelled {w r} (h : w.ctxErr l = true) : LoopStep d l w (.waiting r) (w.stop r) (.stopping r)
  | runOver {w r} (h : (w.runs r).live = false) : LoopStep d l w (.waiting r) w (.finished r)
  | stopped {w r} (h : (w.runs r).live = false) : LoopStep d l w (.stopping r) (w.drop r) .exiting
  | dropRun (w r) : LoopStep d l w (.finished r) (w.drop r) .judging
  -- The context ended while the outcome was read from the store.
  | lost {w} (h : w.ctxErr l = true) : LoopStep d l w .judging w .exiting
  | judgeHeld {w} (h : w.held = true) : LoopStep d l w .judging w .exiting
  | judgeEnds {w} (succeeded : Bool) (h : w.held = false) (hd : d.restart.ends succeeded = true) :
      LoopStep d l w .judging w .exiting
  -- `long` says that the run reached `healthy_after`. A run left without a terminal row counts as
  -- failed.
  | judgeAgain {w} (succeeded long : Bool) (h : w.held = false) (hd : d.restart.ends succeeded = false) :
      LoopStep d l w .judging w (.restarting (succeeded || long))
  | restartOver {w healthy} (h : w.ctxErr l = true) : LoopStep d l w (.restarting healthy) w .exiting
  | restartHealthy {w} (h : w.ctxErr l = false) :
      LoopStep d l w (.restarting true) { w with failures := 0, begun := 0 } .delaying
  | restartUnhealthy {w} (h : w.ctxErr l = false)
      (hd : 0 < d.restartBackoffMax ∨ w.failures + 1 < d.maxRestartAttempts) :
      LoopStep d l w (.restarting false) { w with failures := w.failures + 1 } .delaying
  | exhaust {w} (h : w.ctxErr l = false) (hd : d.restartBackoffMax = 0)
      (hmax : d.maxRestartAttempts ≤ w.failures + 1) :
      LoopStep d l w (.restarting false) { w with failures := w.failures + 1 }
        (.persisting w.epoch (w.failures + 1))
  | giveUp {w e f} (hfree : w.stateMu = false) (h : w.ctxErr l = true ∨ w.epoch ≠ e) :
      LoopStep d l w (.persisting e f) w .delaying
  | mark {w e f} (hfree : w.stateMu = false) (h : w.ctxErr l = false) (he : w.epoch = e) :
      LoopStep d l w (.persisting e f) { w with stateMu := true } (.saving e f)
  | save {w e f} (hrow : w.revision = d.revision ∧ w.deleted = false) :
      LoopStep d l w (.saving e f) { w with exhaustion := some f } (.saved e f .ok)
  | saveStale {w e f} (hrow : ¬ (w.revision = d.revision ∧ w.deleted = false)) :
      LoopStep d l w (.saving e f) w (.saved e f .stale)
  -- A write that fails may or may not have been applied.
  | saveFailed {w e f} (applied : Bool) (hrow : applied = true → w.revision = d.revision ∧ w.deleted = false) :
      LoopStep d l w (.saving e f) { w with exhaustion := if applied = true then some f else w.exhaustion }
        (.saved e f .failed)
  | stored (w e f) : LoopStep d l w (.saved e f .ok) { w with stateMu := false } (.announcing e)
  | stale (w e f) : LoopStep d l w (.saved e f .stale) { w with stateMu := false } (.persisted e)
  | failed (w e f) : LoopStep d l w (.saved e f .failed) { w with stateMu := false } (.retrying e f)
  | retryOver {w e f} (h : w.ctxErr l = true) : LoopStep d l w (.retrying e f) w .delaying
  | retry (w e f) : LoopStep d l w (.retrying e f) w (.persisting e f)
  | announce (w e) :
      LoopStep d l w (.announcing e)
        { w with announced := Function.update w.announced l (w.announced l + 1) } (.persisted e)
  | retire {w e} (h : w.epoch = e) : LoopStep d l w (.persisted e) { w with retiring := true } .exiting
  -- A reset won the race.
  | resume {w e} (h : w.epoch ≠ e) : LoopStep d l w (.persisted e) w .delaying
  | delayOver {w} (h : w.ctxErr l = true) : LoopStep d l w .delaying w .exiting
  | timer (w) : LoopStep d l w .delaying w .delayed
  | delayHeld {w} (h : w.held = true) : LoopStep d l w .delayed w .exiting
  | again {w} (h : w.held = false) : LoopStep d l w .delayed w .checking
  | exitIdle {w} (h : w.active = none) : LoopStep d l w .exiting w .finishing
  | exitStop {w r} (h : w.active = some r) : LoopStep d l w .exiting (w.stop r) (.closing r)
  | exitJoin {w r} (h : (w.runs r).live = false) : LoopStep d l w (.closing r) w .finishing
  | finish (w) : LoopStep d l w .finishing (w.finish l) .ended

/-! ## Operations -/

inductive Operation where
  | start (d : Worker)
  | restart (d : Worker)
  -- With the definition of the worker, if it is among those of the reload.
  | reload (d : Option Worker)

def Operation.isReload : Operation → Bool
  | .reload _ => true
  | _ => false

inductive OpPc where
  | idle
  -- Before `lifecycle`.
  | called (o : Operation)
  -- `Reload`, before its first section.
  | entered (d : Option Worker)
  -- In `resetExhaustion`, before it takes `stateMu`.
  | resetting (o : Operation)
  | clearing (o : Operation)
  | cleared (o : Operation) (ok : Bool)
  -- Before the first section of `startDefinitionLocked`.
  | starting (d : Worker)
  | joining (d : Worker) (l : ℕ)
  | reloading (d : Option Worker)
  -- Waits for the loop that it replaces, with the definition to launch.
  | reloadJoining (d : Option Worker) (old : Option ℕ)
  | restarting (d : Worker)
  -- Before the section of the `Stop` in `Restart`.
  | restartHolding (d : Worker) (old : Option ℕ)
  | restartStopping (d : Worker) (old run : Option ℕ)
  | restartCancelling (d : Worker) (old : Option ℕ)
  | restartSpawning (d : Worker) (old : Option ℕ)
  -- The goroutine of `Restart`, while it waits for the old loop.
  | replacing (d : Worker) (old : Option ℕ) (epoch : ℕ)
  -- Before it takes `lifecycle`.
  | replacement (d : Worker) (epoch : ℕ)
  | replaced (d : Worker) (epoch : ℕ)
  -- `Stop`, after its section.
  | stopping (run : Option ℕ)

namespace OpPc

def inside : OpPc → Bool
  | .idle | .called _ | .replacing _ _ _ | .replacement _ _ | .stopping _ => false
  | _ => true

def replaces : OpPc → Option (Option ℕ)
  | .joining _ l => some (some l)
  | .reloadJoining (some _) old => some old
  | _ => none

end OpPc

def Operation.next : Operation → OpPc
  | .start d => .starting d
  | .restart d => .restarting d
  | .reload d => .reloading (desired d)

def Operation.enter : Operation → OpPc
  | .reload d => .entered d
  | o => .resetting o

def Shared.joined (w : Shared) (old : Option ℕ) : Bool := old.all w.done

def Shared.keeps (w : Shared) (want : Option Worker) (l : ℕ) : Bool :=
  match w.defs l, want with
  | some d, some d' => sameDefinition d d' && !w.held && !w.retiring
  | _, _ => false

inductive OpStep (x : ℕ) : Shared → OpPc → Shared → OpPc → Prop
  | enter {w o} (h : w.lifecycle = none) : OpStep x w (.called o) { w with lifecycle := some x } o.enter
  | reloadClosed {w d} (h : w.closing = true) : OpStep x w (.entered d) w.unlock .idle
  | reloadBegin {w d} (h : w.closing = false) :
      OpStep x w (.entered d) { w with started := true } (.resetting (.reload d))
  | resetClosed {w o} (hfree : w.stateMu = false) (h : w.closing = true) : OpStep x w (.resetting o) w.unlock .idle
  | resetBegin {w o} (hfree : w.stateMu = false) (h : w.closing = false) :
      OpStep x w (.resetting o) { w with stateMu := true } (.clearing o)
  | clear (w o) : OpStep x w (.clearing o) { w with exhaustion := none } (.cleared o true)
  | clearFailed (w o) (applied : Bool) :
      OpStep x w (.clearing o) { w with exhaustion := if applied = true then none else w.exhaustion }
        (.cleared o false)
  | abort {w o} (ho : o.isReload = false) : OpStep x w (.cleared o false) { w.unlock with stateMu := false } .idle
  | reset {w o ok} (ho : ok = true ∨ o.isReload = true) :
      OpStep x w (.cleared o ok) { w.reset with stateMu := false } o.next
  | startJoin {w d l} (hl : w.loop = some l) (ha : w.active = none) :
      OpStep x w (.starting d) (w.lift.cancel l) (.joining d l)
  -- The loop goes on, or nothing may be started.
  | startKeep {w d} (h : w.loop.isSome = true ∧ w.active.isSome = true ∨ w.loop = none ∧ w.startable d = false) :
      OpStep x w (.starting d) w.lift.unlock .idle
  | joinClosed {w d l} (h : w.closing = true ∨ w.done l = true ∧ w.startable d = false) :
      OpStep x w (.joining d l) w.unlock .idle
  | reloadKeep {w want l} (hl : w.loop = some l) (h : w.keeps want l = true) :
      OpStep x w (.reloading want) w (.reloadJoining none none)
  | reloadReplace {w want l} (hl : w.loop = some l) (h : w.keeps want l = false) :
      OpStep x w (.reloading want) (w.cancel l) (.reloadJoining want (some l))
  | reloadFresh {w want} (hl : w.loop = none) : OpStep x w (.reloading want) w (.reloadJoining want none)
  | reloadLeave {w want old} (h : w.closing = true) : OpStep x w (.reloadJoining want old) w.unlock .idle
  | reloadDone {w old} (h : w.closing = false) (hold : w.joined old = true) :
      OpStep x w (.reloadJoining none old) { w.unlock with held := false } .idle
  | restartClosed {w d} (h : w.closing = true) : OpStep x w (.restarting d) w.unlock .idle
  | restartRead {w d} (h : w.closing = false) : OpStep x w (.restarting d) w (.restartHolding d w.loop)
  | restartHold (w d old) :
      OpStep x w (.restartHolding d old) { w with held := true } (.restartStopping d old w.active)
  | restartStop (w d old run) :
      OpStep x w (.restartStopping d old run) (run.elim w w.stop) (.restartCancelling d old)
  | restartCancel (w d old) :
      OpStep x w (.restartCancelling d old) (old.elim w w.cancel) (.restartSpawning d old)
  | restartLeave {w d old} (h : w.closing = true) : OpStep x w (.restartSpawning d old) w.unlock .idle
  | restartSpawn {w d old} (h : w.closing = false) :
      OpStep x w (.restartSpawning d old) w.unlock (.replacing d old w.epoch)
  | replaceLeave {w d old e} (h : w.closing = true) : OpStep x w (.replacing d old e) w .idle
  | replaceJoin {w d old e} (h : w.joined old = true) : OpStep x w (.replacing d old e) w (.replacement d e)
  | replaceEnter {w d e} (h : w.lifecycle = none) :
      OpStep x w (.replacement d e) { w with lifecycle := some x } (.replaced d e)
  | replaceStale {w d e} (h : w.closing = true ∨ w.epoch ≠ e) : OpStep x w (.replaced d e) w.unlock .idle
  | replace {w d e} (h : w.closing = false ∧ w.epoch = e) : OpStep x w (.replaced d e) w (.starting d)
  | stop (w run) : OpStep x w (.stopping run) (run.elim w w.stop) .idle

inductive Launches (w : Shared) : OpPc → Worker → Prop
  | start {d} (hl : w.loop = none) (h : w.startable d = true) : Launches w (.starting d) d
  | join {d l} (hl : w.done l = true) (h : w.startable d = true) : Launches w (.joining d l) d
  | reload {d old} (hold : w.joined old = true) (h : w.closing = false) :
      Launches w (.reloadJoining (some d) old) d

/-! ## The system -/

structure Supervision where
  shared : Shared := {}
  pc : ℕ → LoopPc := fun _ => .unborn
  op : ℕ → OpPc := fun _ => .idle

inductive SupervisionEvent where
  | loop (l : ℕ)
  | op (x : ℕ)
  | launch (x : ℕ)
  | call (x : ℕ) (o : Operation)
  | stop (x : ℕ)
  | runEnds (r : ℕ)
  | edit
  | shutdown

inductive SupervisionStep : Supervision → SupervisionEvent → Supervision → Prop
  | loop {s : Supervision} {l d w p} (hd : s.shared.defs l = some d) (h : LoopStep d l s.shared (s.pc l) w p) :
      SupervisionStep s (.loop l) { s with shared := w, pc := Function.update s.pc l p }
  | op {s : Supervision} {x w o} (h : OpStep x s.shared (s.op x) w o) :
      SupervisionStep s (.op x) { s with shared := w, op := Function.update s.op x o }
  | launch {s : Supervision} {x d} (h : Launches s.shared (s.op x) d) :
      SupervisionStep s (.launch x)
        { shared := (s.shared.startLocked d).unlock
          pc := Function.update s.pc s.shared.nextLoop .starting
          op := Function.update s.op x .idle }
  | call {s : Supervision} {x} (o : Operation) (h : s.op x = .idle) :
      SupervisionStep s (.call x o) { s with op := Function.update s.op x (.called o) }
  -- The section of `Stop`.
  | stop {s : Supervision} {x} (h : s.op x = .idle) :
      SupervisionStep s (.stop x)
        { s with
          shared := { s.shared with held := true }
          op := Function.update s.op x (.stopping s.shared.active) }
  | runEnds {s : Supervision} {r} (h : (s.shared.runs r).live = true) :
      SupervisionStep s (.runEnds r) { s with shared := s.shared.setRun r .over }
  | edit (s : Supervision) (revision : ℕ) (deleted : Bool) :
      SupervisionStep s .edit { s with shared := { s.shared with revision, deleted } }
  | shutdown (s : Supervision) : SupervisionStep s .shutdown { s with shared := { s.shared with closing := true } }

structure Prompt {R : Supervision → SupervisionEvent → Supervision → Prop} (e : Execution R) : Prop where
  loop : ∀ n l, ((e.state n).pc l).passing = true → ∃ m, n ≤ m ∧ (e.state m).pc l ≠ (e.state n).pc l
  stop : ∀ n x run, (e.state n).op x = .stopping run → ∃ m, n ≤ m ∧ (e.state m).op x ≠ .stopping run

end Minicrond.Supervisor
