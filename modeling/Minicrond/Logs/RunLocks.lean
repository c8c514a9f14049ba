import Mathlib.Data.Fin.Tuple.Basic
import Mathlib.Data.List.Basic
import Mathlib.Logic.Function.Basic
import Minicrond.Library.Machine

/-! The locks of the runs. A lock lives only while an operation holds it or waits for it: the map from runs
to locks and the reference counts are guarded by the mutex of the store, while a run's lock is taken and
released outside it. -/

namespace Minicrond.Logs.RunLocks

open Library

structure RWMutex where
  writer : Bool := false
  readers : ℕ := 0

namespace RWMutex

variable (m : RWMutex)

def Free (exclusive : Bool) : Prop := m.writer = false ∧ (exclusive = true → m.readers = 0)

def lock (exclusive : Bool) : RWMutex :=
  if exclusive then { m with writer := true } else { m with readers := m.readers + 1 }

def unlock (exclusive : Bool) : RWMutex :=
  if exclusive then { m with writer := false } else { m with readers := m.readers - 1 }

end RWMutex

structure RunLock where
  mu : RWMutex := {}
  refs : ℕ := 0

inductive Stage where
  | waiting
  | holding
  -- The lock is released, the reference not yet.
  | leaving
  deriving DecidableEq

/-- An operation from the call of `refRunLock` until `unlockRun` has given the reference back; `lock` is the
address of the object that it was handed. -/
structure Operation (ρ : Type*) where
  run : ρ
  exclusive : Bool
  lock : ℕ
  stage : Stage := .waiting

variable {ρ : Type*}

def Operation.reads (p : Operation ρ) : Bool := p.stage = .holding && !p.exclusive

def Operation.writes (p : Operation ρ) : Bool := p.stage = .holding && p.exclusive

structure Locks (ρ : Type*) where
  runLocks : ρ → Option ℕ := fun _ => none
  heap : ℕ → RunLock := fun _ => {}
  operations : List (Operation ρ) := []

namespace Locks

variable [DecidableEq ρ] (s : Locks ρ)

def Fresh (a : ℕ) : Prop := (∀ p ∈ s.operations, p.lock ≠ a) ∧ ∀ r, s.runLocks r ≠ some a

def refRunLock (r : ρ) (exclusive : Bool) (a : ℕ) : Locks ρ :=
  match s.runLocks r with
  | some b =>
    { s with
      heap := Function.update s.heap b { s.heap b with refs := (s.heap b).refs + 1 }
      operations := ⟨r, exclusive, b, .waiting⟩ :: s.operations }
  | none =>
    { runLocks := Function.update s.runLocks r (some a)
      heap := Function.update s.heap a { refs := 1 }
      operations := ⟨r, exclusive, a, .waiting⟩ :: s.operations }

def advance (p : Operation ρ) (mu : RWMutex) (stage : Stage) (before after : List (Operation ρ)) : Locks ρ :=
  { s with
    heap := Function.update s.heap p.lock { s.heap p.lock with mu := mu }
    operations := before ++ { p with stage := stage } :: after }

def unref (p : Operation ρ) (before after : List (Operation ρ)) : Locks ρ :=
  { runLocks := if (s.heap p.lock).refs - 1 = 0 then Function.update s.runLocks p.run none else s.runLocks
    heap := Function.update s.heap p.lock { s.heap p.lock with refs := (s.heap p.lock).refs - 1 }
    operations := before ++ after }

end Locks

inductive Event where
  | ref
  | lock
  | unlock
  | unref

inductive LockStep [DecidableEq ρ] : Locks ρ → Event → Locks ρ → Prop
  | ref {s} (r : ρ) (exclusive : Bool) {a} (ha : s.Fresh a) : LockStep s .ref (s.refRunLock r exclusive a)
  | lock {s p before after} (hp : s.operations = before ++ p :: after) (hstage : p.stage = .waiting)
      (hfree : (s.heap p.lock).mu.Free p.exclusive) :
      LockStep s .lock (s.advance p ((s.heap p.lock).mu.lock p.exclusive) .holding before after)
  | unlock {s p before after} (hp : s.operations = before ++ p :: after) (hstage : p.stage = .holding) :
      LockStep s .unlock (s.advance p ((s.heap p.lock).mu.unlock p.exclusive) .leaving before after)
  | unref {s p before after} (hp : s.operations = before ++ p :: after) (hstage : p.stage = .leaving) :
      LockStep s .unref (s.unref p before after)

/-! ## One lock -/

structure RunLock.Fits (l : RunLock) (ops : List (Operation ρ)) : Prop where
  refs : l.refs = ops.length
  readers : l.mu.readers = ops.countP (·.reads)
  writer : l.mu.writer.toNat = ops.countP (·.writes)
  exclusive : l.mu.writer = true → l.mu.readers = 0

lemma countP_middle {α : Type*} (f : α → Bool) (before after : List α) (x : α) :
    (before ++ x :: after).countP f = (before ++ after).countP f + (f x).toNat := by
  rw [List.countP_append, List.countP_cons, List.countP_append, Bool.toNat, Bool.cond_eq_ite, Nat.add_assoc]

namespace RunLock.Fits

variable {l : RunLock} {ops before after : List (Operation ρ)} {p q : Operation ρ}

lemma first (r : ρ) (exclusive : Bool) (a : ℕ) : RunLock.Fits { refs := 1 } [⟨r, exclusive, a, .waiting⟩] :=
  ⟨rfl, rfl, rfl, nofun⟩

lemma ref (h : l.Fits ops) (r : ρ) (exclusive : Bool) (a : ℕ) :
    RunLock.Fits { l with refs := l.refs + 1 } (⟨r, exclusive, a, .waiting⟩ :: ops) where
  refs := by rw [h.refs, List.length_cons]
  readers := by simpa [Operation.reads] using h.readers
  writer := by simpa [Operation.writes] using h.writer
  exclusive := h.exclusive

lemma unref (h : l.Fits (before ++ p :: after)) (hstage : p.stage = .leaving) :
    RunLock.Fits { l with refs := l.refs - 1 } (before ++ after) where
  refs := by simp [h.refs]
  readers := by simpa [Operation.reads, hstage] using h.readers
  writer := by simpa [Operation.writes, hstage] using h.writer
  exclusive := h.exclusive

lemma advance (h : l.Fits (before ++ p :: after)) {mu : RWMutex}
    (hreaders : mu.readers + p.reads.toNat = l.mu.readers + q.reads.toNat)
    (hwriter : mu.writer.toNat + p.writes.toNat = l.mu.writer.toNat + q.writes.toNat)
    (hexclusive : mu.writer = true → mu.readers = 0) :
    RunLock.Fits { l with mu := mu } (before ++ q :: after) where
  refs := by simpa using h.refs
  readers := by
    rw [h.readers, countP_middle] at hreaders
    rw [countP_middle]
    dsimp only
    omega
  writer := by
    rw [h.writer, countP_middle] at hwriter
    rw [countP_middle]
    dsimp only
    omega
  exclusive := hexclusive

lemma lock (h : l.Fits (before ++ p :: after)) (hstage : p.stage = .waiting) (hfree : l.mu.Free p.exclusive) :
    RunLock.Fits { l with mu := l.mu.lock p.exclusive } (before ++ { p with stage := .holding } :: after) := by
  obtain ⟨hwriter, hreaders⟩ := hfree
  apply h.advance
  case hreaders => cases hex : p.exclusive <;> simp [RWMutex.lock, Operation.reads, hstage, hex]
  case hwriter => cases hex : p.exclusive <;> simp [RWMutex.lock, Operation.writes, hstage, hex, hwriter]
  case hexclusive =>
    cases hex : p.exclusive with
    | true => exact fun _ => hreaders hex
    | false => exact fun htrue => nomatch hwriter.symm.trans htrue

lemma reads_le (h : l.Fits (before ++ p :: after)) : p.reads.toNat ≤ l.mu.readers := by
  rw [h.readers, countP_middle]
  exact Nat.le_add_left _ _

lemma writes_le (h : l.Fits (before ++ p :: after)) : p.writes.toNat ≤ l.mu.writer.toNat := by
  rw [h.writer, countP_middle]
  exact Nat.le_add_left _ _

lemma unlock (h : l.Fits (before ++ p :: after)) (hstage : p.stage = .holding) :
    RunLock.Fits { l with mu := l.mu.unlock p.exclusive } (before ++ { p with stage := .leaving } :: after) := by
  have hr := h.reads_le
  have hw := h.writes_le
  simp only [Operation.reads, Operation.writes, hstage, decide_true, Bool.true_and] at hr hw
  apply h.advance
  case hreaders =>
    cases hex : p.exclusive with
    | true => simp [RWMutex.unlock, Operation.reads, hex]
    | false =>
      simp only [hex, Bool.not_false, Bool.toNat_true] at hr
      simp [RWMutex.unlock, Operation.reads, hstage, hex, Nat.sub_add_cancel hr]
  case hwriter =>
    cases hex : p.exclusive with
    | true =>
      cases hwriter : l.mu.writer with
      | true => simp [RWMutex.unlock, Operation.writes, hstage, hex]
      | false => simp [hex, hwriter] at hw
    | false => simp [RWMutex.unlock, Operation.writes, hex]
  case hexclusive =>
    cases hex : p.exclusive with
    | true => exact nofun
    | false =>
      intro hwriter
      change l.mu.readers - 1 = 0
      rw [h.exclusive hwriter]

lemma shared (h : l.Fits ops) (hpq : [p, q].Sublist ops) (hp : p.stage = .holding) (hq : q.stage = .holding) :
    p.exclusive = false ∧ q.exclusive = false := by
  have hreaders : [p, q].countP (·.reads) ≤ l.mu.readers := h.readers ▸ hpq.countP_le
  have hwriter : [p, q].countP (·.writes) ≤ l.mu.writer.toNat := h.writer ▸ hpq.countP_le
  have hexclusive := h.exclusive
  have hle : l.mu.writer.toNat ≤ 1 := Bool.toNat_le _
  cases hwrites : l.mu.writer with
  | false => cases hpe : p.exclusive <;> cases hqe : q.exclusive <;>
      simp [Operation.writes, hp, hq, hpe, hqe, hwrites] at hwriter ⊢
  | true => cases hpe : p.exclusive <;> cases hqe : q.exclusive <;>
      simp [Operation.writes, Operation.reads, hp, hq, hpe, hqe, hwrites, hexclusive hwrites] at hwriter hreaders ⊢

end RunLock.Fits

/-! ## The map of the locks -/

namespace Locks

variable [DecidableEq ρ] {s : Locks ρ} {p q : Operation ρ} {before after : List (Operation ρ)} {r : ρ} {a : ℕ}

def on (s : Locks ρ) (r : ρ) : List (Operation ρ) := s.operations.filter (·.run = r)

lemma on_of_ne (hp : s.operations = before ++ p :: after) (hr : r ≠ p.run) :
    s.on r = (before ++ after).filter (·.run = r) := by
  rw [on, hp, List.filter_append, List.filter_cons_of_neg (by simpa using hr.symm), List.filter_append]

lemma on_self (hp : s.operations = before ++ p :: after) :
    s.on p.run = before.filter (·.run = p.run) ++ p :: after.filter (·.run = p.run) := by
  rw [on, hp, List.filter_append, List.filter_cons_of_pos (by simp)]

structure Sound (s : Locks ρ) : Prop where
  entry : ∀ p ∈ s.operations, s.runLocks p.run = some p.lock
  injective : ∀ {r r' a}, s.runLocks r = some a → s.runLocks r' = some a → r = r'
  used : ∀ {r a}, s.runLocks r = some a → s.on r ≠ []
  fits : ∀ {r a}, s.runLocks r = some a → (s.heap a).Fits (s.on r)

lemma sound_empty : Sound ({} : Locks ρ) := ⟨nofun, nofun, nofun, nofun⟩

lemma Sound.refRunLock (h : s.Sound) (r : ρ) (exclusive : Bool) (ha : s.Fresh a) :
    (s.refRunLock r exclusive a).Sound := by
  unfold Locks.refRunLock
  cases hr : s.runLocks r with
  | some b =>
    constructor
    case entry => exact List.forall_mem_cons.mpr ⟨hr, h.entry⟩
    case injective => exact h.injective
    case used =>
      intro r' b' hr' hnil
      apply h.used hr'
      exact List.filter_eq_nil_iff.mpr fun q hq => List.filter_eq_nil_iff.mp hnil q (List.mem_cons_of_mem _ hq)
    case fits =>
      intro r' b' (hr' : s.runLocks r' = some b')
      change (Function.update s.heap b _ b').Fits _
      by_cases hb : b' = b
      case pos =>
        obtain rfl : r' = r := h.injective hr' (hb ▸ hr)
        subst hb
        rw [Function.update_self, on, List.filter_cons_of_pos (by simp)]
        exact (h.fits hr).ref r' exclusive b'
      case neg =>
        have hne : r ≠ r' := fun heq => hb (Option.some.inj ((heq ▸ hr').symm.trans hr))
        rw [Function.update_of_ne hb, on, List.filter_cons_of_neg (by simpa using hne)]
        exact h.fits hr'
  | none =>
    obtain ⟨haops, hamap⟩ := ha
    have hother : ∀ q ∈ s.operations, q.run ≠ r := by
      intro q hq heq
      exact nomatch (heq ▸ h.entry q hq).symm.trans hr
    have hmap : ∀ {r' b'}, Function.update s.runLocks r (some a) r' = some b' →
        r' = r ∧ b' = a ∨ r' ≠ r ∧ b' ≠ a ∧ s.runLocks r' = some b' := by
      intro r' b' hr'
      by_cases heq : r' = r
      case pos =>
        rw [heq, Function.update_self] at hr'
        exact .inl ⟨heq, (Option.some.inj hr').symm⟩
      case neg =>
        rw [Function.update_of_ne heq] at hr'
        exact .inr ⟨heq, fun hb => hamap r' (hb ▸ hr'), hr'⟩
    constructor
    case entry =>
      intro q hq
      obtain rfl | hq := List.mem_cons.mp hq
      · exact Function.update_self ..
      · exact (Function.update_of_ne (hother q hq) ..).trans (h.entry q hq)
    case injective =>
      intro r₁ r₂ b h₁ h₂
      obtain ⟨rfl, hb⟩ | ⟨-, hb, h₁⟩ := hmap h₁ <;> obtain ⟨rfl, hb'⟩ | ⟨-, hb', h₂⟩ := hmap h₂
      · rfl
      · exact absurd hb hb'
      · exact absurd hb' hb
      · exact h.injective h₁ h₂
    case used =>
      intro r' b' hr' hnil
      have hnone := List.filter_eq_nil_iff.mp hnil
      obtain ⟨rfl, -⟩ | ⟨-, -, hr'⟩ := hmap hr'
      · exact hnone _ List.mem_cons_self (by simp)
      · exact h.used hr' (List.filter_eq_nil_iff.mpr fun q hq => hnone q (List.mem_cons_of_mem _ hq))
    case fits =>
      intro r' b' hr'
      change (Function.update s.heap a _ b').Fits _
      obtain ⟨rfl, rfl⟩ | ⟨hne, hb, hr'⟩ := hmap hr'
      · rw [Function.update_self, on, List.filter_cons_of_pos (by simp),
          List.filter_eq_nil_iff.mpr fun q hq => by simpa using hother q hq]
        exact .first r' exclusive b'
      · rw [Function.update_of_ne hb, on, List.filter_cons_of_neg (by simpa using hne.symm)]
        exact h.fits hr'

lemma Sound.advance (h : s.Sound) (hp : s.operations = before ++ p :: after) {mu : RWMutex} {stage : Stage}
    (hmu : ∀ {b a}, (s.heap p.lock).Fits (b ++ p :: a) →
      RunLock.Fits { s.heap p.lock with mu := mu } (b ++ { p with stage := stage } :: a)) :
    (s.advance p mu stage before after).Sound := by
  have hmem : p ∈ s.operations := hp ▸ List.mem_append_right _ List.mem_cons_self
  have hops : (s.advance p mu stage before after).operations = before ++ { p with stage := stage } :: after := rfl
  constructor
  case entry =>
    intro q hq
    obtain hq | rfl | hq := by simpa only [hops, List.mem_append, List.mem_cons] using hq
    · exact h.entry q (hp ▸ List.mem_append_left _ hq)
    · exact h.entry p hmem
    · exact h.entry q (hp ▸ List.mem_append_right _ (List.mem_cons_of_mem _ hq))
  case injective => exact h.injective
  case used =>
    intro r b hr
    by_cases heq : r = p.run
    case pos =>
      subst heq
      rw [on_self hops]
      exact List.append_ne_nil_of_right_ne_nil _ (List.cons_ne_nil _ _)
    case neg =>
      rw [on_of_ne hops heq, ← on_of_ne hp heq]
      exact h.used hr
  case fits =>
    intro r b hr
    change (Function.update s.heap p.lock _ b).Fits _
    by_cases heq : r = p.run
    case pos =>
      subst heq
      obtain rfl : b = p.lock := Option.some.inj (hr.symm.trans (h.entry p hmem))
      rw [Function.update_self, on_self hops]
      exact hmu (on_self hp ▸ h.fits hr)
    case neg =>
      have hb : b ≠ p.lock := fun hb => heq (h.injective hr (hb ▸ h.entry p hmem))
      rw [Function.update_of_ne hb, on_of_ne hops heq, ← on_of_ne hp heq]
      exact h.fits hr

lemma Sound.unref (h : s.Sound) (hp : s.operations = before ++ p :: after) (hstage : p.stage = .leaving) :
    (s.unref p before after).Sound := by
  have hmem : p ∈ s.operations := hp ▸ List.mem_append_right _ List.mem_cons_self
  have hentry := h.entry p hmem
  have hfits := (on_self hp ▸ h.fits hentry).unref hstage
  rw [← List.filter_append] at hfits
  have hold : ∀ q ∈ before ++ after, q ∈ s.operations := by
    intro q hq
    rw [hp]
    simp only [List.mem_append, List.mem_cons] at hq ⊢
    tauto
  have hrefs : (s.heap p.lock).refs - 1 = ((before ++ after).filter (·.run = p.run)).length := hfits.refs
  -- the entry goes with the last operation on the run
  have hmap : ∀ {r b}, (s.unref p before after).runLocks r = some b →
      s.runLocks r = some b ∧ (before ++ after).filter (·.run = r) ≠ [] := by
    intro r b hr
    dsimp only [Locks.unref] at hr
    by_cases heq : r = p.run
    case pos =>
      subst heq
      split_ifs at hr with hlast
      · exact nomatch (Function.update_self p.run none s.runLocks).symm.trans hr
      · exact ⟨hr, fun hnil => hlast (by rw [hrefs, hnil, List.length_nil])⟩
    case neg =>
      have hr' : s.runLocks r = some b := by
        split_ifs at hr
        · exact (Function.update_of_ne heq none s.runLocks).symm.trans hr
        · exact hr
      exact ⟨hr', on_of_ne hp heq ▸ h.used hr'⟩
  constructor
  case entry =>
    intro q hq
    change (if (s.heap p.lock).refs - 1 = 0 then Function.update s.runLocks p.run none else s.runLocks) q.run = _
    split_ifs with hlast
    case pos =>
      have hne : q.run ≠ p.run := by
        intro heq
        have hnil := List.length_eq_zero_iff.mp (hrefs.symm.trans hlast)
        exact List.filter_eq_nil_iff.mp hnil q hq (by simpa using heq)
      rw [Function.update_of_ne hne]
      exact h.entry q (hold q hq)
    case neg => exact h.entry q (hold q hq)
  case injective => exact fun h₁ h₂ => h.injective (hmap h₁).1 (hmap h₂).1
  case used => exact fun hr => (hmap hr).2
  case fits =>
    intro r b hr
    obtain ⟨hr, -⟩ := hmap hr
    change (Function.update s.heap p.lock _ b).Fits ((before ++ after).filter (·.run = r))
    by_cases heq : r = p.run
    case pos =>
      subst heq
      obtain rfl : b = p.lock := Option.some.inj (hr.symm.trans hentry)
      rw [Function.update_self]
      exact hfits
    case neg =>
      have hb : b ≠ p.lock := fun hb => heq (h.injective hr (hb ▸ hentry))
      rw [Function.update_of_ne hb, ← on_of_ne hp heq]
      exact h.fits hr

end Locks

variable [DecidableEq ρ] {s t : Locks ρ}

lemma LockStep.sound {e : Event} (h : LockStep s e t) (hs : s.Sound) : t.Sound := by
  cases h with
  | ref r exclusive ha => exact hs.refRunLock r exclusive ha
  | lock hp hstage hfree => exact hs.advance hp fun hfits => hfits.lock hstage hfree
  | unlock hp hstage => exact hs.advance hp fun hfits => hfits.unlock hstage
  | unref hp hstage => exact hs.unref hp hstage

lemma Locks.Sound.exists_on_iff (hs : s.Sound) (r : ρ) :
    (s.runLocks r).isSome ↔ ∃ p ∈ s.operations, p.run = r := by
  constructor
  · intro hsome
    obtain ⟨a, ha⟩ := Option.isSome_iff_exists.mp hsome
    obtain ⟨p, hp⟩ := List.exists_mem_of_ne_nil _ (hs.used ha)
    exact ⟨p, List.mem_of_mem_filter hp, by simpa using List.of_mem_filter hp⟩
  · rintro ⟨p, hp, rfl⟩
    rw [hs.entry p hp]
    rfl

/-- In every state that calls of `lockRun` and `unlockRun` lead to, the map has a lock for exactly the runs
of the operations that hold a reference. Two such operations on a run use the same lock, and if both hold it
they share it. -/
theorem run_locks_shared {events : List Event} (h : Run LockStep ({} : Locks ρ) events s) :
    (∀ r, (s.runLocks r).isSome ↔ ∃ p ∈ s.operations, p.run = r) ∧
      (∀ p ∈ s.operations, s.runLocks p.run = some p.lock) ∧
      ∀ p q, [p, q].Sublist s.operations → p.run = q.run →
        p.lock = q.lock ∧
          (p.stage = .holding → q.stage = .holding → p.exclusive = false ∧ q.exclusive = false) := by
  have hs : s.Sound := h.invariant (fun _ _ _ => LockStep.sound) Locks.sound_empty
  refine ⟨hs.exists_on_iff, hs.entry, fun p q hpq hrun => ?_⟩
  have hp := hs.entry p (hpq.subset List.mem_cons_self)
  have hq := hs.entry q (hpq.subset (List.mem_cons_of_mem _ List.mem_cons_self))
  refine ⟨Option.some.inj (hp.symm.trans (hrun ▸ hq)), fun hpstage hqstage => ?_⟩
  refine (hs.fits hp).shared ?_ hpstage hqstage
  have hfilter := hpq.filter (·.run = p.run)
  rwa [List.filter_cons_of_pos (by simp), List.filter_cons_of_pos (by simp [hrun])] at hfilter

theorem run_locks_shared_readers : ∃ (events : List Event) (s : Locks ℕ) (p q : Operation ℕ),
    Run LockStep {} events s ∧ [p, q].Sublist s.operations ∧ p.stage = .holding ∧ q.stage = .holding ∧
    p.run = q.run ∧ p.lock = q.lock ∧ (s.runLocks 7).isSome ∧ (s.runLocks 8).isSome ∧ s.runLocks 9 = none := by
  have h0 : ({} : Locks ℕ).Fresh 0 := ⟨nofun, nofun⟩
  have h1 : ∀ r : ℕ, Function.update (fun _ => none) 7 (some 0) r ≠ some 1 := by
    intro r
    by_cases hr : r = 7
    · simp [hr]
    · simp [Function.update_of_ne hr]
  have hrun : Run LockStep ({} : Locks ℕ) [.ref, .lock, .ref, .lock, .ref, .lock] _ :=
    .cons (.ref 7 false h0) <|
    .cons (@LockStep.lock _ _ _ ⟨7, false, 0, .waiting⟩ [] [] rfl rfl ⟨rfl, nofun⟩) <|
    .cons (@LockStep.ref ℕ _ _ 7 false 1 ⟨by decide, h1⟩) <|
    .cons (@LockStep.lock _ _ _ ⟨7, false, 0, .waiting⟩ [] [⟨7, false, 0, .holding⟩] rfl rfl ⟨rfl, nofun⟩) <|
    .cons (@LockStep.ref ℕ _ _ 8 true 1 ⟨by decide, h1⟩) <|
    .cons (@LockStep.lock _ _ _ ⟨8, true, 1, .waiting⟩ [] [⟨7, false, 0, .holding⟩, ⟨7, false, 0, .holding⟩] rfl
      rfl ⟨rfl, fun _ => rfl⟩) (.nil _)
  have hpq : [(⟨7, false, 0, .holding⟩ : Operation ℕ), ⟨7, false, 0, .holding⟩].Sublist
      [⟨8, true, 1, .holding⟩, ⟨7, false, 0, .holding⟩, ⟨7, false, 0, .holding⟩] := List.sublist_cons_self _ _
  obtain ⟨hmap, -, hshared⟩ := run_locks_shared hrun
  refine ⟨_, _, _, _, hrun, hpq, rfl, rfl, rfl, (hshared _ _ hpq rfl).1, (hmap 7).mpr ?_, (hmap 8).mpr ?_, rfl⟩
  · exact ⟨⟨7, false, 0, .holding⟩, List.mem_cons_of_mem _ List.mem_cons_self, rfl⟩
  · exact ⟨⟨8, true, 1, .holding⟩, List.mem_cons_self, rfl⟩

end Minicrond.Logs.RunLocks
