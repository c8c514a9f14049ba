import Minicrond.Supervisor.OneLoop

/-! The loops and operations of one worker record and reset its exhaustion as the machine of `persistExhaustion`
and `resetExhaustion` does. -/

namespace Minicrond.Supervisor

open Minicrond.Library

abbrev Recorder := ExhaustionState (ℕ ⊕ ℕ) Unit

def Operation.scope (o : Operation) : Option Unit := if o.isReload = true then none else some ()

def OpPc.resets : OpPc → ExhaustionPc Unit
  | .resetting o => .resetting o.scope
  | .clearing o => .clearing o.scope
  | .cleared o ok => .cleared o.scope ok
  | _ => .idle

def Writes (revision epoch failures : ℕ) (v : ExhaustionWrite Unit) : Prop :=
  v.worker = ⟨0, (), revision⟩ ∧ v.epoch = epoch ∧ v.outcome.attempts = failures

def LoopPc.Persists (revision : ℕ) (q : ExhaustionPc Unit) : LoopPc → Prop
  | .persisting e f | .retrying e f => ∃ v, q = .retrying v ∧ Writes revision e f v
  | .saving e f => ∃ v, q = .saving v ∧ Writes revision e f v
  | .saved e f err => ∃ v, q = .saved v err ∧ Writes revision e f v
  | _ => q = .idle

/-- The recorder's memory and store as the worker's shared state has them; the row of the worker is number 0. -/
structure Records (w : Shared) (r : Recorder) : Prop where
  epoch : r.ledger.epochLocked () = w.epoch
  epochSeq : r.ledger.epochSeq = w.epoch
  failures : r.ledger.failures () = w.failures
  definition : r.store.definitions 0 = some ⟨(), w.revision, w.deleted⟩
  exhaustion : (r.store.exhaustions 0).map (·.outcome.attempts) = w.exhaustion
  stateMu : r.stateMu.isSome = w.stateMu
  closing : r.closing = w.closing

/-- One process of the recorder moves, if any, and its memory and store follow the shared state. -/
def Follows (y : ℕ ⊕ ℕ) (w : Shared) (P : ExhaustionPc Unit → Prop) (r : Recorder) : Prop :=
  ∃ is r', Run ExhaustionStep r is r' ∧ Records w r' ∧ P (r'.pc y) ∧ ∀ z ≠ y, r'.pc z = r.pc z

section

variable {d : Worker} {l x : ℕ} {w w' : Shared} {p p' : LoopPc} {o o' : OpPc} {r r' : Recorder} {y : ℕ ⊕ ℕ}
  {P : ExhaustionPc Unit → Prop} {n : ℕ} {v : ExhaustionWrite Unit}

lemma Follows.rest (hw : Records w r) (hp : P (r.pc y)) : Follows y w P r :=
  ⟨[], r, .nil r, hw, hp, fun _ _ => rfl⟩

lemma Follows.move {i : ExhaustionEvent (ℕ ⊕ ℕ) Unit} {q : ExhaustionPc Unit} (h : ExhaustionStep r i r')
    (hpc : r'.pc = Function.update r.pc y q) (hw : Records w r') (hp : P q) : Follows y w P r := by
  refine ⟨[i], r', .cons h (.nil _), hw, ?_, fun z hz => ?_⟩
  · rwa [hpc, Function.update_self]
  · rw [hpc, Function.update_of_ne hz]

lemma Follows.count (hw : Records { w with failures := n } r) (hn : w.failures = 0 ∨ w.failures = n + 1)
    (hp : P (r.pc y)) : Follows y w P r := by
  refine ⟨[_], _, .cons (.count () w.failures (hw.failures ▸ hn)) (.nil _), ?_, hp, fun _ _ => rfl⟩
  exact { hw with failures := by simp [Ledger.count] }

lemma Records.free (hw : Records w r) (h : w.stateMu = false) : r.stateMu = none := by
  rw [← Option.not_isSome_iff_eq_none, hw.stateMu, h]
  exact Bool.false_ne_true

lemma Records.saveWorkerExhaustion (hw : Records w r) {e f : ℕ} (hv : Writes d.revision e f v) :
    (w.revision = d.revision ∧ w.deleted = false → ∃ db, r.store.saveWorkerExhaustion v = some db ∧
      db.definitions = r.store.definitions ∧ (db.exhaustions 0).map (·.outcome.attempts) = some f) ∧
      (¬ (w.revision = d.revision ∧ w.deleted = false) → r.store.saveWorkerExhaustion v = none) := by
  obtain ⟨hworker, -, hattempts⟩ := hv
  rw [WorkerStore.saveWorkerExhaustion, hworker, hw.definition]
  constructor
  · intro hrow
    exact ⟨_, if_pos hrow, rfl, by simp [hattempts]⟩
  · intro hrow
    exact if_neg hrow

lemma LoopStep.persists (h : LoopStep d l w p w' p') (hw : Records w r)
    (hp : p.Persists d.revision (r.pc (.inl l))) : Follows (.inl l) w' (p'.Persists d.revision) r := by
  cases h
  case restartHealthy => exact .count (n := w.failures) { hw with } (.inl rfl) hp
  case restartUnhealthy => exact .count (n := w.failures) { hw with } (.inr rfl) hp
  case exhaust =>
    refine .move (.exhaust ⟨0, (), d.revision⟩ [] "" hp ?_) rfl { hw with failures := ?_ } ?_
    · rw [WorkerStore.nameOf, hw.definition]
      rfl
    · simp [Ledger.count, hw.failures]
    · exact ⟨_, rfl, rfl, hw.epoch, congrArg (· + 1) hw.failures⟩
  case giveUp =>
    obtain ⟨v, hpc, -⟩ := hp
    exact .move (.giveUp hpc) rfl { hw with } rfl
  case mark hfree _ he =>
    obtain ⟨v, hpc, hv⟩ := hp
    refine .move (.mark hpc (hw.free hfree) ?_) rfl { hw with stateMu := rfl } ⟨v, rfl, hv⟩
    exact hw.epoch.trans (he.trans hv.2.1.symm)
  case save hrow =>
    obtain ⟨v, hpc, hv⟩ := hp
    obtain ⟨db, hdb, hdefs, hstored⟩ := (hw.saveWorkerExhaustion hv).1 hrow
    refine .move (.save hpc hdb) rfl { hw with exhaustion := hstored, definition := ?_ } ⟨v, rfl, hv⟩
    exact (congrFun hdefs 0).trans hw.definition
  case saveStale hrow =>
    obtain ⟨v, hpc, hv⟩ := hp
    exact .move (.saveStale hpc ((hw.saveWorkerExhaustion hv).2 hrow)) rfl
      { hw with } ⟨v, rfl, hv⟩
  case saveFailed applied hrow =>
    obtain ⟨v, hpc, hv⟩ := hp
    refine .move (.saveFailed hpc applied) rfl ?_ ⟨v, rfl, hv⟩
    cases applied with
    | false => exact { hw with }
    | true =>
      obtain ⟨db, hdb, hdefs, hstored⟩ := (hw.saveWorkerExhaustion hv).1 (hrow rfl)
      refine { hw with definition := ?_, exhaustion := ?_ }
      · simpa [hdb, hdefs] using hw.definition
      · simpa [hdb] using hstored
  case stored =>
    obtain ⟨v, hpc, -⟩ := hp
    exact .move (.stored hpc) rfl { hw with stateMu := rfl } rfl
  case stale =>
    obtain ⟨v, hpc, -⟩ := hp
    exact .move (.stale hpc) rfl { hw with stateMu := rfl } rfl
  case failed =>
    obtain ⟨v, hpc, hv⟩ := hp
    exact .move (.failed hpc) rfl { hw with stateMu := rfl } ⟨v, rfl, hv⟩
  case retryOver =>
    obtain ⟨v, hpc, -⟩ := hp
    exact .move (.giveUp hpc) rfl { hw with } rfl
  all_goals exact .rest { hw with } hp

lemma Records.clear (hw : Records w r) (scope : Option Unit) :
    (r.store.clearWorkerExhaustion scope).definitions 0 = some ⟨(), w.revision, w.deleted⟩ ∧
      (r.store.clearWorkerExhaustion scope).exhaustions 0 = none := by
  cases scope with
  | none => exact ⟨hw.definition, rfl⟩
  | some _ => exact ⟨hw.definition, if_pos (by rw [WorkerStore.nameOf, hw.definition]; rfl)⟩

lemma OpStep.resets (h : OpStep x w o w' o') (hw : Records w r) (hp : r.pc (.inr x) = o.resets) :
    Follows (.inr x) w' (· = o'.resets) r := by
  cases h
  case enter op _ =>
    cases op with
    | start d | restart d =>
      exact .move (.reset (some ()) hp) rfl { hw with } rfl
    | reload d => exact .rest { hw with } hp
  case reloadBegin => exact .move (.reset none hp) rfl { hw with } rfl
  case resetClosed hfree hclosing =>
    exact .move (.refuse hp (hw.free hfree) (hw.closing.trans hclosing)) rfl
      { hw with } rfl
  case resetBegin hfree hopen =>
    exact .move (.lock hp (hw.free hfree) (hw.closing.trans hopen)) rfl { hw with stateMu := rfl } rfl
  case clear op =>
    obtain ⟨hdefinition, hnone⟩ := hw.clear op.scope
    refine .move (.clear hp) rfl { hw with definition := hdefinition, exhaustion := ?_ } rfl
    exact congrArg (Option.map _) hnone
  case clearFailed op applied =>
    obtain ⟨hdefinition, hnone⟩ := hw.clear op.scope
    refine .move (.clearFailed hp applied) rfl ?_ rfl
    cases applied with
    | false => exact { hw with }
    | true => exact { hw with definition := hdefinition, exhaustion := congrArg (Option.map _) hnone }
  case abort op ho =>
    rw [OpPc.resets, Operation.scope, if_neg (by simp [ho])] at hp
    exact .move (.abort hp) rfl { hw with stateMu := rfl } rfl
  case reset op ok ho =>
    refine .move (.finish hp ?_) rfl ?_ (by cases op <;> rfl)
    · exact ho.imp_right fun hreload => if_pos hreload
    · have hcovers : Covers op.scope () := by cases op <;> simp [Covers, Operation.scope, Operation.isReload]
      refine { hw with epoch := ?_, epochSeq := ?_, failures := ?_, stateMu := rfl }
      · exact (Ledger.epochLocked_reset hcovers).trans (congrArg (· + 1) hw.epochSeq)
      · cases op <;> exact congrArg (· + 1) hw.epochSeq
      · cases op <;> simp [Ledger.reset, Operation.scope, Operation.isReload, Shared.reset]
  case startJoin | startKeep =>
    exact .count (n := w.failures) { hw with } (.inl rfl) hp
  case restartStop run | stop run =>
    cases run <;> exact .rest { hw with } hp
  case restartCancel old => cases old <;> exact .rest { hw with } hp
  all_goals exact .rest { hw with } hp

end

/-! ## Whole runs -/

def Shared.revisionOf (w : Shared) (l : ℕ) : ℕ := (w.defs l).elim 0 Worker.revision

structure Refines (s : Supervision) (r : Recorder) : Prop where
  records : Records s.shared r
  loops : ∀ l, (s.pc l).Persists (s.shared.revisionOf l) (r.pc (.inl l))
  ops : ∀ x, r.pc (.inr x) = (s.op x).resets

section

variable {s t : Supervision} {i : SupervisionEvent} {r : Recorder}

lemma Refines.loop {l : ℕ} {d : Worker} {w : Shared} {p : LoopPc} (hr : Refines s r)
    (hd : s.shared.defs l = some d) (h : LoopStep d l s.shared (s.pc l) w p) :
    ∃ is r', Run ExhaustionStep r is r' ∧ Refines { s with shared := w, pc := Function.update s.pc l p } r' := by
  have hrevision : ∀ k, w.revisionOf k = s.shared.revisionOf k := fun k => by
    rw [Shared.revisionOf, Shared.revisionOf, h.frame.defs]
  have hl : s.shared.revisionOf l = d.revision := by rw [Shared.revisionOf, hd]; rfl
  obtain ⟨is, r', hrun, hw, hp, hrest⟩ := h.persists hr.records (hl ▸ hr.loops l)
  refine ⟨is, r', hrun, hw, fun k => ?_, fun x => (hrest _ Sum.inr_ne_inl).trans (hr.ops x)⟩
  rw [hrevision]
  by_cases hk : k = l
  · subst hk
    simpa only [Function.update_self, hl] using hp
  · simpa only [Function.update_of_ne hk, hrest _ (fun heq => hk (Sum.inl.inj heq))] using hr.loops k

lemma Refines.op {x : ℕ} {w : Shared} {o : OpPc} (hr : Refines s r) (h : OpStep x s.shared (s.op x) w o) :
    ∃ is r', Run ExhaustionStep r is r' ∧ Refines { s with shared := w, op := Function.update s.op x o } r' := by
  obtain ⟨is, r', hrun, hw, hp, hrest⟩ := h.resets hr.records (hr.ops x)
  refine ⟨is, r', hrun, hw, fun k => ?_, fun y => ?_⟩
  · rw [hrest _ Sum.inl_ne_inr, Shared.revisionOf, h.frame.defs]
    exact hr.loops k
  · by_cases hy : y = x
    · subst hy
      simpa only [Function.update_self] using hp
    · simpa only [Function.update_of_ne hy, hrest _ (fun heq => hy (Sum.inr.inj heq))] using hr.ops y

lemma Refines.call {x : ℕ} {o : OpPc} (hr : Refines s r) (hold : (s.op x).resets = .idle) (ho : o.resets = .idle)
    (y : ℕ) : r.pc (.inr y) = (Function.update s.op x o y).resets := by
  by_cases hy : y = x
  · subst hy
    rw [Function.update_self, ho, hr.ops, hold]
  · rw [Function.update_of_ne hy]
    exact hr.ops y

lemma Refines.step (h : SupervisionStep s i t) (hs : OneLoop s) (hr : Refines s r) :
    ∃ is r', Run ExhaustionStep r is r' ∧ Refines t r' := by
  have hw := hr.records
  cases h with
  | loop hd h => exact hr.loop hd h
  | op h => exact hr.op h
  | @launch x d h =>
    have hidle : (s.op x).resets = .idle := by
      revert h
      generalize s.op x = o
      rintro ⟨⟩ <;> rfl
    refine ⟨[_], _, .cons (.count () 0 (.inl rfl)) (.nil _), { hw with failures := ?_ }, fun l => ?_,
      hr.call hidle rfl⟩
    · simp [Ledger.count, Shared.startLocked, Shared.unlock]
    · by_cases hl : l = s.shared.nextLoop
      · subst hl
        have hunborn := hr.loops s.shared.nextLoop
        rw [hs.unborn _ le_rfl] at hunborn
        simp only [Function.update_self]
        exact hunborn
      · simpa [Function.update_of_ne hl, Shared.revisionOf, Shared.startLocked, Shared.unlock] using hr.loops l
  | call o hidle => exact ⟨[], r, .nil r, hw, hr.loops, hr.call (by rw [hidle]; rfl) rfl⟩
  | stop hidle =>
    exact ⟨[], r, .nil r, { hw with }, hr.loops, hr.call (by rw [hidle]; rfl) rfl⟩
  | runEnds => exact ⟨[], r, .nil r, { hw with }, hr.loops, hr.ops⟩
  | edit revision deleted =>
    refine ⟨[_], _, .cons (.edit (Function.update r.store.definitions 0 (some ⟨(), revision, deleted⟩)) ?_)
      (.nil _), { hw with definition := by simp }, hr.loops, hr.ops⟩
    intro id name hname
    by_cases hid : id = 0
    · simp [hid]
    · rwa [Function.update_of_ne hid]
  | shutdown => exact ⟨[_], _, .cons (.shutdown r) (.nil _), { hw with closing := rfl }, hr.loops, hr.ops⟩

def Recorder.initial : Recorder := ⟨{}, ⟨fun _ => some ⟨(), 0, false⟩, fun _ => none⟩, none, false, fun _ => .idle⟩

/-- Whatever the loops of a worker and the operations on it do, they record and reset its exhaustion in a run
of the recorder. -/
lemma worker_refines_recorder {is : List SupervisionEvent} (h : Run SupervisionStep {} is s) :
    ∃ js r, Run ExhaustionStep Recorder.initial js r ∧ Refines s r := by
  have hstep : ∀ s i t r, SupervisionStep s i t → OneLoop s ∧ Refines s r →
      ∃ js r', Run ExhaustionStep r js r' ∧ OneLoop t ∧ Refines t r' := by
    rintro s i t r h ⟨hs, hr⟩
    obtain ⟨js, r', hrun, ht⟩ := hr.step h hs
    exact ⟨js, r', hrun, hs.step h, ht⟩
  have hinitial : Refines {} Recorder.initial := ⟨⟨rfl, rfl, rfl, rfl, rfl, rfl, rfl⟩, fun _ => rfl, fun _ => rfl⟩
  obtain ⟨js, r, hrun, -, hr⟩ := h.simulates _ _ hstep ⟨OneLoop.initial, hinitial⟩
  exact ⟨js, r, hrun, hr⟩

end

end Minicrond.Supervisor
