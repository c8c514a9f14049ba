import Minicrond.Library.Machine
import Minicrond.Scheduler.Schedule

/-! The scheduler loop of one job: `loop` and its passes `runPass`, one step for each clock reading,
database access and executor call. -/

namespace Minicrond.Scheduler

open Minicrond.Library Minicrond.Time

inductive CatchUp
  | none
  | latest
deriving DecidableEq, Repr

structure Job where
  schedule : CompiledSchedule
  hash : String
  catchUp : CatchUp

structure ScheduleMemory where
  known : Bool
  hash : String
  anchor : ℤ
  last : Option ℤ
  persistFailing : Bool

inductive Call
  | trigger (scheduled : ℤ)
  | catchUpLatest (o : OverdueFires)
  | recordMissed (o : OverdueFires)

namespace Call

def scheduled : Call → ℤ
  | trigger scheduled => scheduled
  | catchUpLatest o => o.latest
  | recordMissed o => o.latest

end Call

inductive StateRead
  | noRows
  | failed
  | found (anchor : ℤ) (last next : Option ℤ) (hash : String)

inductive Pc
  | start
  | reading (now : ℤ)
  | flooring (now anchor : ℤ) (last next : Option ℤ)
  | resetting (now : ℤ)
  | ready (now : ℤ)
  | catchingUp (o : OverdueFires)
  | saving
  | choosing
  | publishing (next : ℤ)
  | waiting (next : ℤ)
  | sleeping (next : ℤ)
  | woken (next : ℤ)
  | firing (next : ℤ)
  | following
  | announcing (following : ℤ)
  | leaving
  | failed
  | stopped

inductive Input
  | clock (t : ℤ)
  | state (r : StateRead)
  | fired (r : Except Unit (Option ℤ))
  | wrote (ok : Bool)
  | unchanged
  | calculate (ctx : CatchUpContext)
  | ran (ok : Bool)
  | timer
  | retry
  | cancel

structure LoopState where
  mem : ScheduleMemory
  persisted : Option (Option ℤ × Option ℤ)
  pc : Pc
  calls : List (Call × Bool)

namespace LoopState

variable (s : LoopState)

def goto (pc : Pc) : LoopState := { s with pc := pc }

def adopt (hash : String) (anchor : ℤ) (last : Option ℤ) (persisted : Option (Option ℤ × Option ℤ)) (pc : Pc) :
    LoopState :=
  { s with mem := { s.mem with known := true, hash := hash, anchor := anchor, last := last }
           persisted := persisted
           pc := pc }

def called (call : Call) (ok : Bool) (pc : Pc) : LoopState := { s with calls := s.calls ++ [(call, ok)], pc := pc }

def advanced (call : Call) (pc : Pc) : LoopState :=
  { s with mem := { s.mem with last := some call.scheduled }
           calls := s.calls ++ [(call, true)]
           pc := pc }

def persist (next : Option ℤ) (ok keep : Bool) (pc : Pc) : LoopState :=
  { s with mem := { s.mem with persistFailing := !ok }
           persisted := if ok then some (s.mem.last, next) else if keep then s.persisted else none
           pc := pc }

end LoopState

variable (J : Job)

def Job.catchUpCall (o : OverdueFires) : Call :=
  match J.catchUp with
  | .latest => .catchUpLatest o
  | .none => .recordMissed o

def Job.nextFire (mem : ScheduleMemory) (t : ℤ) : Except ScheduleError ℤ :=
  J.schedule.nextFireDistinct (maxTime mem.last t) mem.anchor mem.last

def Job.overdue (ctx : CatchUpContext) (mem : ScheduleMemory) (now : ℤ) : Except ScheduleError OverdueFires :=
  J.schedule.overdue ctx mem.anchor mem.last now (J.catchUp != .latest)

def before (last : Option ℤ) (now : ℤ) : Bool := last.elim true (· < now)

def firedAfter (fired last : Option ℤ) : Bool := fired.elim false fun f => last.elim true (· < f)

def floorLast (r : Except Unit (Option ℤ)) (last : Option ℤ) : Option ℤ :=
  match r with
  | .error _ => last
  | .ok fired => if firedAfter fired last then fired else last

def Pc.observesCancel : Pc → Bool
  | .start | .reading _ | .flooring .. | .resetting _ | .ready _ | .choosing | .sleeping _ | .failed => true
  | _ => false

inductive Step : LoopState → Input → LoopState → Prop
  | cancel {s} (h : s.pc.observesCancel = true) : Step s .cancel (s.goto .stopped)
  -- `runPass` up to the catch-up check
  | remember {s now} (h : s.pc = .start) (hk : s.mem.known = true ∧ s.mem.hash = J.hash) :
      Step s (.clock now) { s with persisted := none, pc := .ready now }
  | read {s now} (h : s.pc = .start) (hk : ¬ (s.mem.known = true ∧ s.mem.hash = J.hash)) :
      Step s (.clock now) { s with persisted := none, pc := .reading now }
  | found {s now anchor last next} (h : s.pc = .reading now) :
      Step s (.state (.found anchor last next J.hash)) (s.goto (.flooring now anchor last next))
  | unreadable {s now} (h : s.pc = .reading now) :
      Step s (.state .failed) (s.adopt J.hash now none none (.ready now))
  | missing {s now} (h : s.pc = .reading now) : Step s (.state .noRows) (s.goto (.resetting now))
  | changed {s now anchor last next hash} (h : s.pc = .reading now) (hh : hash ≠ J.hash) :
      Step s (.state (.found anchor last next hash)) (s.goto (.resetting now))
  | unfloored {s now anchor last next e} (h : s.pc = .flooring now anchor last next) :
      Step s (.fired (.error e)) (s.adopt J.hash anchor last (some (last, next)) (.ready now))
  | floored {s now anchor last next fired} (h : s.pc = .flooring now anchor last next) :
      Step s (.fired (.ok fired))
        (if firedAfter fired last then s.adopt J.hash anchor fired none (.ready now)
        else s.adopt J.hash anchor last (some (last, next)) (.ready now))
  | reset {s now ok} (h : s.pc = .resetting now) :
      Step s (.wrote ok) ((s.adopt J.hash now none none (.ready now)).persist none ok false (.ready now))
  -- catch-up
  | current {s now ctx} (h : s.pc = .ready now) (hb : before s.mem.last now = false) :
      Step s (.calculate ctx) (s.goto .choosing)
  | onTime {s now ctx o} (h : s.pc = .ready now) (hb : before s.mem.last now = true)
      (ho : J.overdue ctx s.mem now = .ok o) (hc : o.count = 0) : Step s (.calculate ctx) (s.goto .choosing)
  | overdue {s now ctx o} (h : s.pc = .ready now) (hb : before s.mem.last now = true)
      (ho : J.overdue ctx s.mem now = .ok o) (hc : o.count ≠ 0) : Step s (.calculate ctx) (s.goto (.catchingUp o))
  | uncounted {s now ctx e} (h : s.pc = .ready now) (hb : before s.mem.last now = true)
      (ho : J.overdue ctx s.mem now = .error e) : Step s (.calculate ctx) (s.goto .stopped)
  | caughtUp {s o} (h : s.pc = .catchingUp o) : Step s (.ran true) (s.advanced (J.catchUpCall o) .saving)
  | catchUpFailed {s o} (h : s.pc = .catchingUp o) : Step s (.ran false) (s.called (J.catchUpCall o) false .failed)
  | catchUpCancelled {s o} (h : s.pc = .catchingUp o) : Step s .cancel (s.called (J.catchUpCall o) false .stopped)
  | saved {s ok} (h : s.pc = .saving) : Step s (.wrote ok) (s.persist none ok false .choosing)
  -- the firing loop
  | chosen {s t n} (h : s.pc = .choosing) (hn : J.nextFire s.mem t = .ok n) :
      Step s (.clock t) (s.goto (.publishing n))
  | unchosen {s t e} (h : s.pc = .choosing) (hn : J.nextFire s.mem t = .error e) :
      Step s (.clock t) (s.goto .stopped)
  | published {s n ok} (h : s.pc = .publishing n) (hp : s.persisted ≠ some (s.mem.last, some n)) :
      Step s (.wrote ok) (s.persist (some n) ok true (.waiting n))
  | unpublished {s n} (h : s.pc = .publishing n) (hp : s.persisted = some (s.mem.last, some n)) :
      Step s .unchanged (s.goto (.waiting n))
  | early {s n t} (h : s.pc = .waiting n) (ht : t < n) : Step s (.clock t) (s.goto (.sleeping n))
  | due {s n t} (h : s.pc = .waiting n) (ht : n ≤ t) : Step s (.clock t) (s.goto (.firing n))
  | wake {s n} (h : s.pc = .sleeping n) : Step s .timer (s.goto (.woken n))
  | reached {s n t} (h : s.pc = .woken n) (ht : n ≤ t) : Step s (.clock t) (s.goto (.firing n))
  | recomputed {s n t r} (h : s.pc = .woken n) (ht : t < n) (hn : J.nextFire s.mem t = .ok r) :
      Step s (.clock t) (s.goto (.publishing r))
  | unrecomputed {s n t e} (h : s.pc = .woken n) (ht : t < n) (hn : J.nextFire s.mem t = .error e) :
      Step s (.clock t) (s.goto .stopped)
  | fired {s n} (h : s.pc = .firing n) : Step s (.ran true) (s.advanced (.trigger n) .following)
  | fireFailed {s n} (h : s.pc = .firing n) : Step s (.ran false) (s.called (.trigger n) false .failed)
  | fireCancelled {s n} (h : s.pc = .firing n) : Step s .cancel (s.called (.trigger n) false .stopped)
  | followed {s t n} (h : s.pc = .following) (hn : J.nextFire s.mem t = .ok n) :
      Step s (.clock t) (s.goto (.announcing n))
  | unfollowed {s t e} (h : s.pc = .following) (hn : J.nextFire s.mem t = .error e) :
      Step s (.clock t) (s.goto .leaving)
  | announced {s n ok} (h : s.pc = .announcing n) (hp : s.persisted ≠ some (s.mem.last, some n)) :
      Step s (.wrote ok) (s.persist (some n) ok true .choosing)
  | unannounced {s n} (h : s.pc = .announcing n) (hp : s.persisted = some (s.mem.last, some n)) :
      Step s .unchanged (s.goto .choosing)
  | left {s ok} (h : s.pc = .leaving) : Step s (.wrote ok) (s.persist none ok true .stopped)
  -- `loop` starts another pass after a failed one
  | retry {s} (h : s.pc = .failed) : Step s .retry (s.goto .start)

def LoopState.fresh : LoopState := ⟨⟨false, "", 0, none, false⟩, none, .start, []⟩

def ScheduleMemory.position (m : ScheduleMemory) : Bool × String × ℤ × Option ℤ :=
  (m.known, m.hash, m.anchor, m.last)

def Pc.call : Pc → Option Call
  | .catchingUp o => some (J.catchUpCall o)
  | .publishing n | .waiting n | .sleeping n | .woken n | .firing n => some (.trigger n)
  | _ => none

def Pc.loading : Pc → Bool
  | .reading _ | .flooring .. | .resetting _ => true
  | _ => false

inductive Effect (s : LoopState) (i : Input) (t : LoopState) : Prop
  | keep (hm : t.mem.position = s.mem.position) (hc : t.calls = s.calls)
      (hp : t.pc.call J = none ∨ t.pc.call J = s.pc.call J)
  | choose (u n : ℤ) (hi : i = .clock u) (h : s.pc = .choosing) (hn : J.nextFire s.mem u = .ok n)
      (ht : t = s.goto (.publishing n))
  | recompute (m u n : ℤ) (hi : i = .clock u) (h : s.pc = .woken m) (hu : u < m) (hn : J.nextFire s.mem u = .ok n)
      (ht : t = s.goto (.publishing n))
  | overdue (now : ℤ) (ctx : CatchUpContext) (o : OverdueFires) (hi : i = .calculate ctx) (h : s.pc = .ready now)
      (ho : J.overdue ctx s.mem now = .ok o) (hc : o.count ≠ 0) (ht : t = s.goto (.catchingUp o))
  | adopt (now anchor : ℤ) (last : Option ℤ) (h : s.pc.loading = true)
      (hm : t.mem.position = (true, J.hash, anchor, last)) (hc : t.calls = s.calls) (hp : t.pc = .ready now)
      (hsrc : (anchor = now ∧ last = none ∧ (i = .state .failed ∨ s.pc = .resetting now)) ∨
        ∃ r stored next, i = .fired r ∧ s.pc = .flooring now anchor stored next ∧ last = floorLast r stored)
  | fail (call : Call) (pc : Pc) (h : s.pc.call J = some call) (hp : pc.call J = none)
      (ht : t = s.called call false pc)
  | succeed (call : Call) (pc : Pc) (h : s.pc.call J = some call) (hp : pc.call J = none)
      (ht : t = s.advanced call pc)

variable {J}

lemma Step.effect {s t : LoopState} {i : Input} (h : Step J s i t) : Effect J s i t := by
  cases h with
  | chosen h hn => exact .choose _ _ rfl h hn rfl
  | recomputed h ht hn => exact .recompute _ _ _ rfl h ht hn rfl
  | overdue h _ ho hc => exact .overdue _ _ _ rfl h ho hc rfl
  | unreadable h => exact .adopt _ _ _ (by rw [h]; rfl) rfl rfl rfl (.inl ⟨rfl, rfl, .inl rfl⟩)
  | unfloored h => exact .adopt _ _ _ (by rw [h]; rfl) rfl rfl rfl (.inr ⟨_, _, _, rfl, h, rfl⟩)
  | floored h =>
    split_ifs with hf
    · exact .adopt _ _ _ (by rw [h]; rfl) rfl rfl rfl (.inr ⟨_, _, _, rfl,
        h, by simp [floorLast, hf, LoopState.adopt]⟩)
    · exact .adopt _ _ _ (by rw [h]; rfl) rfl rfl rfl (.inr ⟨_, _, _, rfl,
        h, by simp [floorLast, hf, LoopState.adopt]⟩)
  | reset h => exact .adopt _ _ _ (by rw [h]; rfl) rfl rfl rfl (.inl ⟨rfl, rfl, .inr h⟩)
  | caughtUp h => exact .succeed _ _ (by rw [h]; rfl) rfl rfl
  | catchUpFailed h | catchUpCancelled h => exact .fail _ _ (by rw [h]; rfl) rfl rfl
  | fired h => exact .succeed _ _ (by rw [h]; rfl) rfl rfl
  | fireFailed h | fireCancelled h => exact .fail _ _ (by rw [h]; rfl) rfl rfl
  | published h | unpublished h | early h | due h | wake h | reached h =>
    exact .keep rfl rfl (.inr (by rw [h]; rfl))
  | _ => exact .keep rfl rfl (.inl rfl)

def ScheduleMemory.Known (J : Job) (m : ScheduleMemory) : Prop := m.known = true ∧ m.hash = J.hash

def LoopState.Remembers (J : Job) (s : LoopState) : Prop := s.mem.Known J ∧ s.pc.loading = false

lemma Step.remembers {s t : LoopState} {i : Input} (h : Step J s i t) (hs : s.Remembers J) : t.Remembers J := by
  obtain ⟨hk, hl⟩ := hs
  cases h with
  | read _ hn => exact (hn hk).elim
  | found h | unreadable h | missing h | changed h | unfloored h | floored h | reset h =>
    simp [h, Pc.loading] at hl
  | _ => exact ⟨hk, rfl⟩

def LoopState.Phase (J : Job) (s : LoopState) : Prop :=
  s.Remembers J ∨ (¬ s.mem.Known J ∧ s.calls = [] ∧ (s.pc = .start ∨ s.pc.loading = true ∨ s.pc = .stopped))

lemma Step.phase {s t : LoopState} {i : Input} (h : Step J s i t) (hs : s.Phase J) : t.Phase J := by
  rcases hs with hr | ⟨hk, hc, hpc⟩
  · exact .inl (h.remembers hr)
  · have hstart : ∀ pc, s.pc = pc → pc = .start ∨ pc.loading = true ∨ pc = .stopped := fun _ he => he ▸ hpc
    cases h with
    | cancel => exact .inr ⟨hk, hc, .inr (.inr rfl)⟩
    | remember _ hn => exact (hk hn).elim
    | read | found | missing | changed => exact .inr ⟨hk, hc, .inr (.inl rfl)⟩
    | unreadable | unfloored => exact .inl ⟨⟨rfl, rfl⟩, rfl⟩
    | floored => split_ifs <;> exact .inl ⟨⟨rfl, rfl⟩, rfl⟩
    | reset => exact .inl ⟨⟨rfl, rfl⟩, rfl⟩
    | _ h => simpa [Pc.loading] using hstart _ h

lemma LoopState.Phase.known {s : LoopState} (h : s.Phase J)
    (hpc : ¬ (s.pc = .start ∨ s.pc.loading = true ∨ s.pc = .stopped)) : s.mem.Known J := by
  rcases h with h | ⟨_, _, hn⟩
  · exact h.1
  · exact (hpc hn).elim

lemma LoopState.fresh_phase : LoopState.fresh.Phase J := by
  refine .inr ⟨?_, rfl, .inl rfl⟩
  rintro ⟨hk, _⟩
  simp [LoopState.fresh] at hk

end Minicrond.Scheduler
