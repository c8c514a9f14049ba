import Minicrond.Library.Machine
import Mathlib.Algebra.Order.Group.Nat
import Mathlib.Logic.Function.Basic

/-! Recording that a worker has used up its restart attempts, and resetting that record. Each reset starts a new
epoch for the workers it covers, and a write that is retried gives up once its epoch is over. -/

namespace Minicrond.Supervisor

open Minicrond.Library

structure WorkerRef (ν : Type*) where
  id : ℕ
  name : ν
  revision : ℕ

structure WorkerExhaustion where
  reason : List UInt8
  lastRunID : String
  attempts : ℕ
  revision : ℕ

structure ExhaustionWrite (ν : Type*) where
  worker : WorkerRef ν
  epoch : ℕ
  outcome : WorkerExhaustion

def exhaustionReason (attempts : ℕ) (reason : List UInt8) : List UInt8 :=
  (("restart attempts exhausted after " ++ toString attempts ++ " failures: ").toUTF8.toList ++ reason).take 512

/-! ## Store -/

structure DefinitionRow (ν : Type*) where
  name : ν
  revision : ℕ
  deleted : Bool

structure WorkerStore (ν : Type*) where
  definitions : ℕ → Option (DefinitionRow ν)
  exhaustions : ℕ → Option (ExhaustionWrite ν)

namespace WorkerStore

variable {ν : Type*}

def nameOf (db : WorkerStore ν) (id : ℕ) : Option ν := (db.definitions id).map (·.name)

def saveWorkerExhaustion (db : WorkerStore ν) (w : ExhaustionWrite ν) : Option (WorkerStore ν) :=
  match db.definitions w.worker.id with
  | none => none
  | some row =>
    if row.revision = w.worker.revision ∧ row.deleted = false then
      some { db with exhaustions := Function.update db.exhaustions w.worker.id (some w) }
    else none

def clearWorkerExhaustion [DecidableEq ν] (db : WorkerStore ν) : Option ν → WorkerStore ν
  | none => { db with exhaustions := fun _ => none }
  | some name =>
    { db with exhaustions := fun id => if db.nameOf id = some name then none else db.exhaustions id }

end WorkerStore

/-! ## Memory -/

structure Ledger (ν : Type*) where
  epochs : ν → Option ℕ := fun _ => none
  epochBase : ℕ := 0
  epochSeq : ℕ := 0
  failures : ν → ℕ := fun _ => 0
  exhausted : ν → Option (ExhaustionWrite ν) := fun _ => none
  pending : ν → Bool := fun _ => false

namespace Ledger

variable {ν : Type*}

def epochLocked (l : Ledger ν) (name : ν) : ℕ := (l.epochs name).getD l.epochBase

variable [DecidableEq ν]

def reset (l : Ledger ν) : Option ν → Ledger ν
  | none => { epochBase := l.epochSeq + 1, epochSeq := l.epochSeq + 1 }
  | some name =>
    { l with
      epochSeq := l.epochSeq + 1
      epochs := Function.update l.epochs name (some (l.epochSeq + 1))
      failures := Function.update l.failures name 0
      exhausted := Function.update l.exhausted name none
      pending := Function.update l.pending name false }

def count (l : Ledger ν) (name : ν) (failures : ℕ) : Ledger ν :=
  { l with failures := Function.update l.failures name failures }

def mark (l : Ledger ν) (w : ExhaustionWrite ν) : Ledger ν :=
  { l with
    exhausted := Function.update l.exhausted w.worker.name (some w)
    pending := Function.update l.pending w.worker.name true }

def stored (l : Ledger ν) (name : ν) : Ledger ν := { l with pending := Function.update l.pending name false }

def stale (l : Ledger ν) (name : ν) : Ledger ν :=
  { l with
    exhausted := Function.update l.exhausted name none
    pending := Function.update l.pending name false }

end Ledger

/-! ## Steps -/

inductive SaveResult where
  | ok
  | stale
  | failed
  deriving DecidableEq

inductive ExhaustionPc (ν : Type*) where
  | idle
  -- In `persistExhaustion`, before it takes `stateMu`.
  | retrying (w : ExhaustionWrite ν)
  | saving (w : ExhaustionWrite ν)
  | saved (w : ExhaustionWrite ν) (err : SaveResult)
  -- In `resetExhaustion`, before it takes `stateMu`.
  | resetting (scope : Option ν)
  | clearing (scope : Option ν)
  | cleared (scope : Option ν) (ok : Bool)

namespace ExhaustionPc

variable {ν : Type*}

def holds : ExhaustionPc ν → Bool
  | .saving _ | .saved _ _ | .clearing _ | .cleared _ _ => true
  | _ => false

def write? : ExhaustionPc ν → Option (ExhaustionWrite ν)
  | .retrying w | .saving w | .saved w _ => some w
  | _ => none

end ExhaustionPc

structure ExhaustionState (τ ν : Type*) where
  ledger : Ledger ν := {}
  store : WorkerStore ν
  stateMu : Option τ := none
  closing : Bool := false
  pc : τ → ExhaustionPc ν := fun _ => .idle

namespace ExhaustionState

variable {τ ν : Type*} [DecidableEq τ]

def goto (s : ExhaustionState τ ν) (x : τ) (p : ExhaustionPc ν) : ExhaustionState τ ν :=
  { s with pc := Function.update s.pc x p }

def enter (s : ExhaustionState τ ν) (x : τ) (p : ExhaustionPc ν) : ExhaustionState τ ν :=
  { s.goto x p with stateMu := some x }

def leave (s : ExhaustionState τ ν) (x : τ) (p : ExhaustionPc ν) : ExhaustionState τ ν :=
  { s.goto x p with stateMu := none }

end ExhaustionState

inductive ExhaustionEvent (τ ν : Type*) where
  | count (name : ν)
  | exhaust (x : τ)
  | giveUp (x : τ)
  | mark (x : τ)
  | save (x : τ)
  | settle (x : τ)
  | reset (x : τ) (scope : Option ν)
  | refuse (x : τ)
  | clear (x : τ)
  | finish (x : τ)
  | edit
  | shutdown

inductive ExhaustionStep {τ ν : Type*} [DecidableEq τ] [DecidableEq ν] :
    ExhaustionState τ ν → ExhaustionEvent τ ν → ExhaustionState τ ν → Prop
  -- A loop starts, a lifetime was healthy, or a failure leaves attempts.
  | count {s} (name : ν) (failures : ℕ) (hcount : failures = 0 ∨ failures = s.ledger.failures name + 1) :
      ExhaustionStep s (.count name) { s with ledger := s.ledger.count name failures }
  -- `restartAfter` counts the failure, reads the epoch and begins the write for a definition of the
  -- store.
  | exhaust {s x} (d : WorkerRef ν) (reason : List UInt8) (lastRunID : String) (hp : s.pc x = .idle)
      (hd : s.store.nameOf d.id = some d.name) :
      ExhaustionStep s (.exhaust x)
        { s.goto x (.retrying
            ⟨d, s.ledger.epochLocked d.name,
              ⟨exhaustionReason (s.ledger.failures d.name + 1) reason, lastRunID, s.ledger.failures d.name + 1,
                d.revision⟩⟩) with
          ledger := s.ledger.count d.name (s.ledger.failures d.name + 1) }
  -- The context has ended or the epoch is over.
  | giveUp {s x w} (hp : s.pc x = .retrying w) : ExhaustionStep s (.giveUp x) (s.goto x .idle)
  | mark {s x w} (hp : s.pc x = .retrying w) (hfree : s.stateMu = none)
      (hepoch : s.ledger.epochLocked w.worker.name = w.epoch) :
      ExhaustionStep s (.mark x) { s.enter x (.saving w) with ledger := s.ledger.mark w }
  | save {s x w db} (hp : s.pc x = .saving w) (hdb : s.store.saveWorkerExhaustion w = some db) :
      ExhaustionStep s (.save x) { s.goto x (.saved w .ok) with store := db }
  | saveStale {s x w} (hp : s.pc x = .saving w) (hdb : s.store.saveWorkerExhaustion w = none) :
      ExhaustionStep s (.save x) (s.goto x (.saved w .stale))
  | saveFailed {s x w} (hp : s.pc x = .saving w) (applied : Bool) :
      ExhaustionStep s (.save x)
        { s.goto x (.saved w .failed) with
          store := if applied = true then (s.store.saveWorkerExhaustion w).getD s.store else s.store }
  | stored {s x w} (hp : s.pc x = .saved w .ok) :
      ExhaustionStep s (.settle x) { s.leave x .idle with ledger := s.ledger.stored w.worker.name }
  | stale {s x w} (hp : s.pc x = .saved w .stale) :
      ExhaustionStep s (.settle x) { s.leave x .idle with ledger := s.ledger.stale w.worker.name }
  | failed {s x w} (hp : s.pc x = .saved w .failed) : ExhaustionStep s (.settle x) (s.leave x (.retrying w))
  | reset {s x} (scope : Option ν) (hp : s.pc x = .idle) :
      ExhaustionStep s (.reset x scope) (s.goto x (.resetting scope))
  -- `executor.ErrShutdown`
  | refuse {s x scope} (hp : s.pc x = .resetting scope) (hfree : s.stateMu = none) (hclosing : s.closing = true) :
      ExhaustionStep s (.refuse x) (s.goto x .idle)
  | lock {s x scope} (hp : s.pc x = .resetting scope) (hfree : s.stateMu = none) (hopen : s.closing = false) :
      ExhaustionStep s (.clear x) (s.enter x (.clearing scope))
  | clear {s x scope} (hp : s.pc x = .clearing scope) :
      ExhaustionStep s (.clear x)
        { s.goto x (.cleared scope true) with store := s.store.clearWorkerExhaustion scope }
  | clearFailed {s x scope} (hp : s.pc x = .clearing scope) (applied : Bool) :
      ExhaustionStep s (.clear x)
        { s.goto x (.cleared scope false) with
          store := if applied = true then s.store.clearWorkerExhaustion scope else s.store }
  -- A worker whose row could not be cleared is not reset.
  | abort {s x name} (hp : s.pc x = .cleared (some name) false) : ExhaustionStep s (.finish x) (s.leave x .idle)
  | finish {s x scope ok} (hp : s.pc x = .cleared scope ok) (hok : ok = true ∨ scope = none) :
      ExhaustionStep s (.finish x) { s.leave x .idle with ledger := s.ledger.reset scope }
  -- Definitions are added, changed and deleted, but the name that belongs to an id stays.
  | edit {s} (definitions : ℕ → Option (DefinitionRow ν))
      (hnames : ∀ id name, s.store.nameOf id = some name → (definitions id).map (·.name) = some name) :
      ExhaustionStep s .edit { s with store := { s.store with definitions } }
  | shutdown (s) : ExhaustionStep s .shutdown { s with closing := true }

/-! ## Epochs -/

def Covers {ν : Type*} (scope : Option ν) (name : ν) : Prop := scope = none ∨ scope = some name

namespace Ledger

variable {ν : Type*} {l : Ledger ν} {scope : Option ν} {name : ν} {w : ExhaustionWrite ν}

structure Bounded (l : Ledger ν) : Prop where
  base : l.epochBase ≤ l.epochSeq
  epochs : ∀ name e, l.epochs name = some e → e ≤ l.epochSeq

structure Marked (l : Ledger ν) : Prop where
  exhausted : ∀ name w, l.exhausted name = some w → w.epoch = l.epochLocked name
  pending : ∀ name, l.pending name = true → ∃ w, l.exhausted name = some w

lemma Bounded.epochLocked (h : l.Bounded) (name : ν) : l.epochLocked name ≤ l.epochSeq := by
  rw [Ledger.epochLocked]
  cases he : l.epochs name with
  | none => exact h.base
  | some e => exact h.epochs name e he

variable [DecidableEq ν]

lemma Bounded.reset (h : l.Bounded) (scope : Option ν) : (l.reset scope).Bounded := by
  cases scope with
  | none => exact ⟨le_rfl, nofun⟩
  | some name =>
    refine ⟨h.base.trans (Nat.le_succ _), fun n e he => ?_⟩
    by_cases hn : n = name
    · subst hn
      simp only [Ledger.reset, Function.update_self, Option.some.injEq] at he
      exact he.ge
    · simp only [Ledger.reset, Function.update_of_ne hn] at he
      exact (h.epochs n e he).trans (Nat.le_succ _)

lemma epochLocked_reset (h : Covers scope name) : (l.reset scope).epochLocked name = l.epochSeq + 1 := by
  obtain rfl | rfl := h
  · rfl
  · simp [Ledger.reset, Ledger.epochLocked]

lemma epochLocked_reset_of_not (h : ¬ Covers scope name) :
    (l.reset scope).epochLocked name = l.epochLocked name := by
  cases scope with
  | none => exact (h (.inl rfl)).elim
  | some n =>
    have hn : name ≠ n := fun heq => h (.inr (heq ▸ rfl))
    simp [Ledger.reset, Ledger.epochLocked, hn]

lemma exhausted_reset (h : Covers scope name) : (l.reset scope).exhausted name = none := by
  obtain rfl | rfl := h
  · rfl
  · simp [Ledger.reset]

lemma exhausted_reset_of_not (h : ¬ Covers scope name) : (l.reset scope).exhausted name = l.exhausted name := by
  cases scope with
  | none => exact (h (.inl rfl)).elim
  | some n =>
    have hn : name ≠ n := fun heq => h (.inr (heq ▸ rfl))
    simp [Ledger.reset, hn]

lemma pending_reset (hp : (l.reset scope).pending name = true) : ¬ Covers scope name ∧ l.pending name = true := by
  cases scope with
  | none => cases hp
  | some n =>
    by_cases hn : name = n
    · simp [Ledger.reset, hn] at hp
    · simp only [Ledger.reset, Function.update_of_ne hn] at hp
      refine ⟨?_, hp⟩
      rintro (hnone | hsome)
      · cases hnone
      · exact hn (Option.some.inj hsome).symm

lemma Bounded.lt_reset (h : l.Bounded) (hc : Covers scope name) :
    l.epochLocked name < (l.reset scope).epochLocked name := by
  rw [epochLocked_reset hc]
  exact Nat.lt_succ_of_le (h.epochLocked name)

lemma Bounded.le_reset (h : l.Bounded) (scope : Option ν) (name : ν) :
    l.epochLocked name ≤ (l.reset scope).epochLocked name := by
  by_cases hc : Covers scope name
  · exact (h.lt_reset hc).le
  · exact (epochLocked_reset_of_not hc).ge

lemma Marked.mark (h : l.Marked) (he : l.epochLocked w.worker.name = w.epoch) : (l.mark w).Marked := by
  refine ⟨fun name v hv => ?_, fun name hp => ?_⟩
  · by_cases hn : name = w.worker.name
    · subst hn
      simp only [Ledger.mark, Function.update_self, Option.some.injEq] at hv
      exact hv ▸ he.symm
    · simp only [Ledger.mark, Function.update_of_ne hn] at hv
      exact h.exhausted name v hv
  · by_cases hn : name = w.worker.name
    · exact ⟨w, by simp [Ledger.mark, hn]⟩
    · simp only [Ledger.mark, Function.update_of_ne hn] at hp ⊢
      exact h.pending name hp

lemma Marked.stored (h : l.Marked) (name : ν) : (l.stored name).Marked := by
  refine ⟨h.exhausted, fun n hp => h.pending n ?_⟩
  by_cases hn : n = name
  · simp [Ledger.stored, hn] at hp
  · simpa only [Ledger.stored, Function.update_of_ne hn] using hp

lemma Marked.stale (h : l.Marked) (name : ν) : (l.stale name).Marked := by
  refine ⟨fun n w hw => ?_, fun n hp => ?_⟩
  all_goals
    by_cases hn : n = name
    · simp [Ledger.stale, hn] at *
  · simp only [Ledger.stale, Function.update_of_ne hn] at hw
    exact h.exhausted n w hw
  · simp only [Ledger.stale, Function.update_of_ne hn] at hp ⊢
    exact h.pending n hp

lemma Marked.reset (h : l.Marked) (scope : Option ν) : (l.reset scope).Marked := by
  refine ⟨fun name w hw => ?_, fun name hp => ?_⟩
  · by_cases hc : Covers scope name
    · rw [exhausted_reset hc] at hw
      cases hw
    · rw [exhausted_reset_of_not hc] at hw
      rw [epochLocked_reset_of_not hc]
      exact h.exhausted name w hw
  · obtain ⟨hc, hp'⟩ := pending_reset hp
    rw [exhausted_reset_of_not hc]
    exact h.pending name hp'

end Ledger

/-! ## Writes and resets exclude each other -/

section

variable {τ ν : Type*} {s t : ExhaustionState τ ν} {x y : τ} {p : ExhaustionPc ν} {w : ExhaustionWrite ν}
  {db db' : WorkerStore ν} {l l' : Ledger ν}

structure PcOk (l : Ledger ν) (db : WorkerStore ν) (p : ExhaustionPc ν) : Prop where
  named : ∀ w, p.write? = some w → db.nameOf w.worker.id = some w.worker.name
  current : p.holds = true → ∀ w, p.write? = some w → w.epoch = l.epochLocked w.worker.name

def ExhaustionState.Locked (s : ExhaustionState τ ν) : Prop := ∀ x, s.stateMu = some x ↔ (s.pc x).holds = true

structure Coherent (s : ExhaustionState τ ν) : Prop where
  bounded : s.ledger.Bounded
  marked : s.ledger.Marked
  named : ∀ id w, s.store.exhaustions id = some w → ∃ name, s.store.nameOf id = some name
  locked : s.Locked
  tasks : ∀ x, PcOk s.ledger s.store (s.pc x)

namespace ExhaustionState.Locked

lemma outside (h : s.Locked) (hx : (s.pc x).holds = true) (hy : y ≠ x) : (s.pc y).holds = false := by
  rw [← Bool.not_eq_true, ← h y, (h x).mpr hx, Option.some.injEq]
  exact Ne.symm hy

variable [DecidableEq τ]

lemma goto (h : s.Locked) (hp : p.holds = (s.pc x).holds) : (s.goto x p).Locked := by
  intro y
  by_cases hy : y = x
  · subst hy
    simpa [ExhaustionState.goto, hp] using h y
  · simpa [ExhaustionState.goto, hy] using h y

lemma enter (h : s.Locked) (hfree : s.stateMu = none) (hp : p.holds = true) : (s.enter x p).Locked := by
  intro y
  by_cases hy : y = x
  · subst hy
    simp [ExhaustionState.enter, ExhaustionState.goto, hp]
  · have hnot : (s.pc y).holds = false := by
      rw [← Bool.not_eq_true, ← h y, hfree]
      exact nofun
    simp [ExhaustionState.enter, ExhaustionState.goto, hy, hnot, Ne.symm hy]

lemma leave (h : s.Locked) (hx : (s.pc x).holds = true) (hp : p.holds = false) : (s.leave x p).Locked := by
  intro y
  by_cases hy : y = x
  · subst hy
    simp [ExhaustionState.leave, ExhaustionState.goto, hp]
  · simp [ExhaustionState.leave, ExhaustionState.goto, hy, h.outside hx hy]

end ExhaustionState.Locked

lemma PcOk.frame (h : PcOk l db p) (hnames : ∀ id name, db.nameOf id = some name → db'.nameOf id = some name)
    (hepochs : p.holds = true → ∀ name, l'.epochLocked name = l.epochLocked name) : PcOk l' db' p where
  named w hw := hnames _ _ (h.named w hw)
  current hp w hw := (h.current hp w hw).trans (hepochs hp _).symm

lemma PcOk.of_quiet (hp : p.write? = none) : PcOk l db p where
  named w hw := by cases hp.symm.trans hw
  current _ w hw := by cases hp.symm.trans hw

lemma tasks_update [DecidableEq τ] (hc : Coherent s) (hpc : t.pc = Function.update s.pc x p)
    (hnames : ∀ id name, s.store.nameOf id = some name → t.store.nameOf id = some name)
    (hepochs : ∀ y, y ≠ x → (s.pc y).holds = true → ∀ name, t.ledger.epochLocked name = s.ledger.epochLocked name)
    (hx : PcOk t.ledger t.store p) (y : τ) : PcOk t.ledger t.store (t.pc y) := by
  rw [hpc]
  by_cases hy : y = x
  · subst hy
    rwa [Function.update_self]
  · rw [Function.update_of_ne hy]
    exact (hc.tasks y).frame hnames (hepochs y hy)

lemma coherent_initial (hdb : ∀ id w, db.exhaustions id = some w → ∃ name, db.nameOf id = some name) :
    Coherent (⟨{}, db, none, false, fun _ => .idle⟩ : ExhaustionState τ ν) where
  bounded := ⟨le_rfl, nofun⟩
  marked := ⟨nofun, nofun⟩
  named := hdb
  locked _ := by simp [ExhaustionPc.holds]
  tasks _ := .of_quiet rfl

lemma saveWorkerExhaustion_some (h : db.saveWorkerExhaustion w = some db') :
    db' = { db with exhaustions := Function.update db.exhaustions w.worker.id (some w) } := by
  rw [WorkerStore.saveWorkerExhaustion] at h
  split at h
  · cases h
  · split_ifs at h
    exact (Option.some.inj h).symm

end

section

variable {τ ν : Type*} [DecidableEq τ] [DecidableEq ν] {s t : ExhaustionState τ ν} {x y : τ} {p : ExhaustionPc ν}
  {w : ExhaustionWrite ν} {db : WorkerStore ν} {i : ExhaustionEvent τ ν} {scope : Option ν} {name : ν}

lemma clearWorkerExhaustion_some {id : ℕ} (h : (db.clearWorkerExhaustion scope).exhaustions id = some w) :
    db.exhaustions id = some w ∧ ∀ name, db.nameOf id = some name → ¬ Covers scope name := by
  cases scope with
  | none => cases h
  | some n =>
    simp only [WorkerStore.clearWorkerExhaustion] at h
    split_ifs at h with hn
    refine ⟨h, fun name hname hcovers => hn ?_⟩
    rcases hcovers with hnone | hsome
    · cases hnone
    · rw [hname, hsome]

lemma ExhaustionStep.store_cases (h : ExhaustionStep s i t) :
    (∀ id name, s.store.nameOf id = some name → t.store.nameOf id = some name) ∧
      ∀ id w, t.store.exhaustions id = some w →
        s.store.exhaustions id = some w ∨ ∃ x, s.pc x = .saving w ∧ id = w.worker.id := by
  have hsaved {x w db} (hp : s.pc x = .saving w) (hdb : s.store.saveWorkerExhaustion w = some db) :
      (∀ id name, s.store.nameOf id = some name → db.nameOf id = some name) ∧
        ∀ id v, db.exhaustions id = some v → s.store.exhaustions id = some v ∨ ∃ x, s.pc x = .saving v ∧
          id = v.worker.id := by
    obtain rfl := saveWorkerExhaustion_some hdb
    refine ⟨fun _ _ hname => hname, fun id v hv => ?_⟩
    by_cases hid : id = w.worker.id
    · subst hid
      simp only [Function.update_self, Option.some.injEq] at hv
      exact .inr ⟨x, hv ▸ hp, by rw [hv]⟩
    · simp only [Function.update_of_ne hid] at hv
      exact .inl hv
  have hcleared (scope : Option ν) :
      (∀ id name, s.store.nameOf id = some name → (s.store.clearWorkerExhaustion scope).nameOf id = some name) ∧
        ∀ id v, (s.store.clearWorkerExhaustion scope).exhaustions id = some v →
          s.store.exhaustions id = some v ∨ ∃ x, s.pc x = .saving v ∧ id = v.worker.id :=
    ⟨fun _ _ hname => by cases scope <;> exact hname, fun _ _ hv => .inl (clearWorkerExhaustion_some hv).1⟩
  have hsame : (∀ id name, s.store.nameOf id = some name → s.store.nameOf id = some name) ∧
      ∀ id v, s.store.exhaustions id = some v →
        s.store.exhaustions id = some v ∨ ∃ x, s.pc x = .saving v ∧ id = v.worker.id :=
    ⟨fun _ _ hname => hname, fun _ _ hv => .inl hv⟩
  cases h with
  | save hp hdb => exact hsaved hp hdb
  | @saveFailed x w hp applied =>
    cases applied with
    | false => exact hsame
    | true =>
      cases hdb : s.store.saveWorkerExhaustion w with
      | none => simpa [hdb] using hsame
      | some db => simpa [hdb] using hsaved hp hdb
  | @clear x scope => exact hcleared scope
  | @clearFailed x scope hp applied =>
    cases applied with
    | false => exact hsame
    | true => exact hcleared scope
  | edit definitions hnames => exact ⟨hnames, fun _ _ hv => .inl hv⟩
  | _ => exact hsame

lemma ExhaustionStep.ledger_cases (h : ExhaustionStep s i t) :
    (t.ledger.epochs = s.ledger.epochs ∧ t.ledger.epochBase = s.ledger.epochBase ∧
      t.ledger.epochSeq = s.ledger.epochSeq) ∨
      ∃ x scope ok, s.pc x = .cleared scope ok ∧ t.ledger = s.ledger.reset scope := by
  cases h with
  | finish hp => exact .inr ⟨_, _, _, hp, rfl⟩
  | _ => exact .inl ⟨rfl, rfl, rfl⟩

lemma ExhaustionStep.bounded (h : ExhaustionStep s i t) (hb : s.ledger.Bounded) : t.ledger.Bounded := by
  rcases h.ledger_cases with ⟨hepochs, hbase, hseq⟩ | ⟨x, scope, ok, _, hl⟩
  · refine ⟨?_, fun name e he => ?_⟩
    · rw [hbase, hseq]
      exact hb.base
    · rw [hepochs] at he
      rw [hseq]
      exact hb.epochs name e he
  · rw [hl]
    exact hb.reset scope

lemma ExhaustionStep.epoch_le (h : ExhaustionStep s i t) (hb : s.ledger.Bounded) (name : ν) :
    s.ledger.epochLocked name ≤ t.ledger.epochLocked name := by
  rcases h.ledger_cases with ⟨hepochs, hbase, _⟩ | ⟨x, scope, ok, _, hl⟩
  · rw [Ledger.epochLocked, Ledger.epochLocked, hepochs, hbase]
  · rw [hl]
    exact hb.le_reset scope name

lemma ExhaustionStep.marked (h : ExhaustionStep s i t) (hm : s.ledger.Marked) : t.ledger.Marked := by
  cases h with
  | count | exhaust => exact ⟨hm.exhausted, hm.pending⟩
  | mark _ _ hepoch => exact hm.mark hepoch
  | stored => exact hm.stored _
  | stale => exact hm.stale _
  | finish => exact hm.reset _
  | _ => exact hm

lemma ExhaustionStep.locked (h : ExhaustionStep s i t) (hl : s.Locked) : t.Locked := by
  cases h with
  | exhaust _ _ _ hp | giveUp hp | reset _ hp | refuse hp => exact hl.goto (by rw [hp]; rfl)
  | save hp | saveStale hp | saveFailed hp | clear hp | clearFailed hp => exact hl.goto (by rw [hp]; rfl)
  | mark _ hfree | lock _ hfree => exact hl.enter hfree rfl
  | stored hp | stale hp | failed hp | abort hp | finish hp => exact hl.leave (by rw [hp]; rfl) rfl
  | count | edit | shutdown => exact hl

lemma ExhaustionStep.tasks (h : ExhaustionStep s i t) (hc : Coherent s) (y : τ) :
    PcOk t.ledger t.store (t.pc y) := by
  have hnames := h.store_cases.1
  have hsame {x w} (hw : (s.pc x).write? = some w) : t.store.nameOf w.worker.id = some w.worker.name :=
    hnames _ _ ((hc.tasks x).named w hw)
  cases h with
  | exhaust d reason lastRunID hp hd =>
    refine tasks_update hc rfl hnames (fun _ _ _ _ => rfl) ⟨?_, fun hholds => by cases hholds⟩ y
    rintro _ ⟨⟩
    exact hd
  | giveUp | reset | refuse | stored | stale | abort =>
    exact tasks_update hc rfl hnames (fun _ _ _ _ => rfl) (.of_quiet rfl) y
  | lock | clear | clearFailed => exact tasks_update hc rfl hnames (fun _ _ _ _ => rfl) (.of_quiet rfl) y
  | mark hp _ hepoch =>
    refine tasks_update hc rfl hnames (fun _ _ _ _ => rfl) ⟨?_, ?_⟩ y
    · rintro _ ⟨⟩
      exact hsame (by rw [hp]; rfl)
    · rintro _ _ ⟨⟩
      exact hepoch.symm
  | @save x w db hp | @saveStale x w hp | @saveFailed x w hp =>
    refine tasks_update hc rfl hnames (fun _ _ _ _ => rfl) ⟨?_, ?_⟩ y
    · rintro _ ⟨⟩
      exact hsame (by rw [hp]; rfl)
    · rintro _ _ ⟨⟩
      exact (hc.tasks x).current (by rw [hp]; rfl) w (by rw [hp]; rfl)
  | failed hp =>
    refine tasks_update hc rfl hnames (fun _ _ _ _ => rfl) ⟨?_, fun hholds => by cases hholds⟩ y
    rintro _ ⟨⟩
    exact hsame (by rw [hp]; rfl)
  | @finish x _ _ hp =>
    refine tasks_update hc rfl hnames (fun z hz hholds => ?_) (.of_quiet rfl) y
    have hout := hc.locked.outside (x := x) (by rw [hp]; rfl) hz
    cases hout.symm.trans hholds
  | count | edit | shutdown => exact (hc.tasks y).frame hnames fun _ _ => rfl

lemma ExhaustionStep.coherent (h : ExhaustionStep s i t) (hc : Coherent s) : Coherent t where
  bounded := h.bounded hc.bounded
  marked := h.marked hc.marked
  locked := h.locked hc.locked
  tasks := h.tasks hc
  named id w hw := by
    obtain ⟨hnames, hrows⟩ := h.store_cases
    rcases hrows id w hw with hrow | ⟨x, hp, rfl⟩
    · obtain ⟨name, hname⟩ := hc.named id w hrow
      exact ⟨name, hnames id name hname⟩
    · exact ⟨_, hnames _ _ ((hc.tasks x).named w (by rw [hp]; rfl))⟩

lemma ExhaustionStep.cleared_cases (h : ExhaustionStep s i t) (hp : t.pc x = .cleared scope true) :
    s.pc x = .cleared scope true ∨ t.store = s.store.clearWorkerExhaustion scope := by
  have hgoto {y p} {u : ExhaustionState τ ν} (hu : u.pc = Function.update s.pc y p) (hne : p ≠ .cleared scope true)
      (hux : u.pc x = .cleared scope true) : s.pc x = .cleared scope true := by
    rw [hu] at hux
    by_cases hxy : x = y
    · subst hxy
      rw [Function.update_self] at hux
      exact (hne hux).elim
    · rwa [Function.update_of_ne hxy] at hux
  cases h with
  | @clear y scope' hp' =>
    by_cases hxy : x = y
    · subst hxy
      simp only [ExhaustionState.goto, Function.update_self] at hp
      cases hp
      exact .inr rfl
    · simp only [ExhaustionState.goto, Function.update_of_ne hxy] at hp
      exact .inl hp
  | count | edit | shutdown => exact .inl hp
  | _ => exact .inl (hgoto rfl (by simp) hp)

def Swept (s : ExhaustionState τ ν) : Prop :=
  ∀ x scope id w name, s.pc x = .cleared scope true → s.store.nameOf id = some name → Covers scope name →
    s.store.exhaustions id ≠ some w

lemma ExhaustionStep.swept (h : ExhaustionStep s i t) (hc : Coherent s) (hs : Swept s) : Swept t := by
  intro x scope id w name hp hname hcovers hrow
  obtain ⟨hnames, hrows⟩ := h.store_cases
  rcases h.cleared_cases hp with hbefore | hclear
  · rcases hrows id w hrow with hold | ⟨y, hsaving, _⟩
    · obtain ⟨name', hname'⟩ := hc.named id w hold
      have heq : name' = name := Option.some.inj ((hnames id name' hname').symm.trans hname)
      exact hs x scope id w name hbefore (heq ▸ hname') hcovers hold
    · -- The writing task would hold the mutex together with the reset.
      have hy : y ≠ x := by
        rintro rfl
        cases hbefore.symm.trans hsaving
      have hout := hc.locked.outside (x := x) (by rw [hbefore]; rfl) hy
      rw [hsaving] at hout
      cases hout
  · rw [hclear] at hrow hname
    have hbefore : s.store.nameOf id = some name := by cases scope <;> exact hname
    exact (clearWorkerExhaustion_some hrow).2 name hbefore hcovers

structure Since (epoch : ℕ) (name : ν) (s : ExhaustionState τ ν) : Prop where
  epoch_le : epoch ≤ s.ledger.epochLocked name
  rows : ∀ id w, s.store.nameOf id = some name → s.store.exhaustions id = some w → epoch ≤ w.epoch

lemma ExhaustionStep.since {epoch : ℕ} (h : ExhaustionStep s i t) (hc : Coherent s) (hs : Since epoch name s) :
    Since epoch name t := by
  refine ⟨hs.epoch_le.trans (h.epoch_le hc.bounded name), fun id w hname hrow => ?_⟩
  obtain ⟨hnames, hrows⟩ := h.store_cases
  rcases hrows id w hrow with hold | ⟨x, hp, rfl⟩
  · obtain ⟨name', hname'⟩ := hc.named id w hold
    have heq : name' = name := Option.some.inj ((hnames id name' hname').symm.trans hname)
    exact hs.rows id w (heq ▸ hname') hold
  · have hx := hc.tasks x
    rw [hp] at hx
    have heq : w.worker.name = name := Option.some.inj ((hnames _ _ (hx.named w rfl)).symm.trans hname)
    rw [hx.current rfl w rfl, heq]
    exact hs.epoch_le

lemma since_finish {ok : Bool} (hs : Swept s) (hp : s.pc x = .cleared scope ok) (hok : ok = true)
    (hcovers : Covers scope name) :
    Since ((s.ledger.reset scope).epochLocked name) name
      { s.leave x .idle with ledger := s.ledger.reset scope } where
  epoch_le := le_rfl
  rows id w hname hrow := (hs x scope id w name (hok ▸ hp) hname hcovers hrow).elim

end

/-- A reset starts a new epoch for each worker it covers. From then on what memory says of the worker, and what the
store says if it was cleared, comes from writes that were begun in that epoch or later. -/
theorem reset_ends_stale_exhaustion {τ ν : Type*} [DecidableEq τ] [DecidableEq ν] {db : WorkerStore ν}
    (hdb : ∀ id w, db.exhaustions id = some w → ∃ name, db.nameOf id = some name) :
    ∀ is (s t : ExhaustionState τ ν) x scope ok name,
      Run ExhaustionStep ⟨{}, db, none, false, fun _ => .idle⟩ is s → s.pc x = .cleared scope ok →
      ok = true ∨ scope = none → ExhaustionStep s (.finish x) t → Covers scope name →
      s.ledger.epochLocked name < t.ledger.epochLocked name ∧
      ∀ js u, Run ExhaustionStep t js u →
        t.ledger.epochLocked name ≤ u.ledger.epochLocked name ∧
        (∀ w, u.ledger.exhausted name = some w → t.ledger.epochLocked name ≤ w.epoch) ∧
        (u.ledger.pending name = true → ∃ w, u.ledger.exhausted name = some w) ∧
        (ok = true → ∀ id w, u.store.nameOf id = some name → u.store.exhaustions id = some w →
          t.ledger.epochLocked name ≤ w.epoch) := by
  intro is s t x scope ok name hrun hp hok hstep hcovers
  obtain ⟨hc, hswept⟩ : Coherent s ∧ Swept s :=
    hrun.invariant (P := fun s => Coherent s ∧ Swept s) (fun _ _ _ h hP => ⟨h.coherent hP.1, h.swept hP.1 hP.2⟩)
      ⟨coherent_initial hdb, nofun⟩
  cases hstep with
  | abort hp' =>
    cases hp.symm.trans hp'
    simp at hok
  | finish hp' =>
    cases hp.symm.trans hp'
    refine ⟨hc.bounded.lt_reset hcovers, fun js u hrun' => ?_⟩
    have hct := ExhaustionStep.coherent (.finish hp hok) hc
    obtain ⟨hcu, hepoch⟩ := hrun'.invariant
      (P := fun u => Coherent u ∧ (s.ledger.reset scope).epochLocked name ≤ u.ledger.epochLocked name)
      (fun _ _ _ h hP => ⟨h.coherent hP.1, hP.2.trans (h.epoch_le hP.1.bounded name)⟩) ⟨hct, le_rfl⟩
    refine ⟨hepoch, fun w hw => ?_, hcu.marked.pending name, fun hcleared => ?_⟩
    · rw [hcu.marked.exhausted name w hw]
      exact hepoch
    · have hsince :=
        hrun'.invariant (P := fun u => Coherent u ∧ Since ((s.ledger.reset scope).epochLocked name) name u)
        (fun _ _ _ h hP => ⟨h.coherent hP.1, h.since hP.1 hP.2⟩) ⟨hct, since_finish hswept hp hcleared hcovers⟩
      exact hsince.2.rows

def oneWorker : WorkerStore ℕ := ⟨fun id => if id = 5 then some ⟨7, 1, false⟩ else none, fun _ => none⟩

theorem reset_ends_stale_exhaustion_retrying :
    ∃ is s t, Run (@ExhaustionStep ℕ ℕ _ _) ⟨{}, oneWorker, none, false, fun _ => .idle⟩ is s ∧
      ExhaustionStep s (.finish 1) t ∧ s.ledger.pending 7 = true ∧
      s.ledger.epochLocked 7 < t.ledger.epochLocked 7 ∧ t.ledger.pending 7 = false ∧
      ∀ js u, Run ExhaustionStep t js u → ∀ w, u.ledger.exhausted 7 = some w → 1 ≤ w.epoch := by
  have hrun : ∃ is s, Run (@ExhaustionStep ℕ ℕ _ _) ⟨{}, oneWorker, none, false, fun _ => .idle⟩ is s ∧
      s.pc 1 = .cleared (some 7) true ∧ s.ledger.pending 7 = true ∧ s.ledger.epochSeq = 0 := by
    refine ⟨_, _, .cons (.exhaust ⟨5, 7, 1⟩ [] "r1" (x := 0) rfl rfl) <| .cons (.mark (x := 0) rfl rfl rfl) <|
      .cons (.saveFailed (x := 0) rfl false) <| .cons (.failed (x := 0) rfl) <|
      .cons (.reset (x := 1) (some 7) rfl) <|
      .cons (.lock (x := 1) rfl rfl rfl) <| .cons (.clear (x := 1) rfl) (.nil _), rfl, rfl, rfl⟩
  obtain ⟨is, s, hrun, hp, hpending, hseq⟩ := hrun
  have hstep := ExhaustionStep.finish hp (.inl rfl)
  have hepoch : (s.ledger.reset (some 7)).epochLocked 7 = 1 := by
    rw [Ledger.epochLocked_reset (.inr rfl), hseq]
  obtain ⟨hlt, hlater⟩ :=
    reset_ends_stale_exhaustion (by simp [oneWorker]) is s _ 1 (some 7) true 7 hrun hp (.inl rfl) hstep (.inr rfl)
  refine ⟨is, s, _, hrun, hstep, hpending, hlt, by simp [Ledger.reset], fun js u hrun' w hw => ?_⟩
  exact hepoch ▸ (hlater js u hrun').2.1 w hw

end Minicrond.Supervisor
