import Minicrond.Library.Execution
import Mathlib.Data.Finset.Card
import Mathlib.Data.Finset.Range
import Mathlib.Logic.Function.Basic

/-! The group sync timer: writers and sealed chunks register for a sync pass, and one pointer says whether a timer
will start it. -/

namespace Minicrond.Logs

open Minicrond.Library

/-- What can run `flushDirtyLocked`: the callback of the timer with a given number, or a caller of `flushDirty`. -/
inductive SyncTask where
  | timer (t : ℕ)
  | flush (i : ℕ)
  deriving DecidableEq

inductive SyncPc (ω κ : Type*) where
  | idle
  | armed
  -- The callback, or the caller of `flushDirty`, is about to take `flushMu`.
  | entered
  -- `TryLock` failed and the callback is about to replace the timer.
  | refused
  -- The task holds `flushMu` and is about to collect both sets.
  | collecting
  | syncing (batch : Finset ω) (sealed : List κ)

namespace SyncPc

variable {ω κ : Type*}

def stop : SyncPc ω κ → SyncPc ω κ
  | .armed => .idle
  | p => p

def holds : SyncPc ω κ → Bool
  | .collecting | .syncing _ _ => true
  | _ => false

def isRefused : SyncPc ω κ → Bool
  | .refused => true
  | _ => false

lemma isRefused_iff {p : SyncPc ω κ} : p.isRefused = true ↔ p = .refused := by
  cases p <;> simp [isRefused]

def takes : SyncPc ω κ → ω ⊕ κ → Prop
  | .syncing batch _, .inl w => w ∈ batch
  | .syncing _ sealed, .inr c => c ∈ sealed
  | _, _ => False

end SyncPc

structure SyncState (ω κ : Type*) where
  dirty : Finset ω := ∅
  sealed : List κ := []
  syncTimer : Option ℕ := none
  -- The number of the next timer.
  next : ℕ := 0
  flushMu : Option SyncTask := none
  pc : SyncTask → SyncPc ω κ := fun _ => .idle

namespace SyncState

variable {ω κ : Type*}

def setPc (s : SyncState ω κ) (x : SyncTask) (p : SyncPc ω κ) : SyncState ω κ :=
  { s with pc := Function.update s.pc x p }

def afterFunc (s : SyncState ω κ) : SyncState ω κ :=
  { s.setPc (.timer s.next) .armed with syncTimer := some s.next, next := s.next + 1 }

def arm (s : SyncState ω κ) : SyncState ω κ :=
  match s.syncTimer with
  | none => s.afterFunc
  | some _ => s

def stopTimer (s : SyncState ω κ) : SyncState ω κ :=
  match s.syncTimer with
  | none => s
  | some t => s.setPc (.timer t) (s.pc (.timer t)).stop

def markDirty [DecidableEq ω] (s : SyncState ω κ) (w : ω) : SyncState ω κ :=
  arm { s with dirty := insert w s.dirty }

def deferSealLocked (s : SyncState ω κ) (c : κ) : SyncState ω κ :=
  arm { s with sealed := s.sealed ++ [c] }

def replaceTimer (s : SyncState ω κ) (t : ℕ) : SyncState ω κ :=
  (s.setPc (.timer t) .idle).stopTimer.afterFunc

def collect (s : SyncState ω κ) (x : SyncTask) : SyncState ω κ :=
  { s.stopTimer.setPc x (.syncing s.dirty s.sealed) with syncTimer := none, dirty := ∅, sealed := [] }

def take (s : SyncState ω κ) (x : SyncTask) : SyncState ω κ :=
  { s.setPc x .collecting with flushMu := some x }

def finish (s : SyncState ω κ) (x : SyncTask) : SyncState ω κ :=
  { s.setPc x .idle with flushMu := none }

def Contended (s : SyncState ω κ) : Prop := s.flushMu ≠ none ∨ ∃ i, s.pc (.flush i) = .entered

end SyncState

inductive SyncEvent (ω κ : Type*) where
  | markDirty (w : ω)
  | deferSeal (c : κ)
  | fire (t : ℕ)
  | tryLock (t : ℕ)
  | refuse (t : ℕ)
  | rearm (t : ℕ)
  | call (i : ℕ)
  | lock (i : ℕ)
  | collect (x : SyncTask)
  | finish (x : SyncTask)

inductive SyncStep {ω κ : Type*} [DecidableEq ω] : SyncState ω κ → SyncEvent ω κ → SyncState ω κ → Prop
  | markDirty (s w) : SyncStep s (.markDirty w) (s.markDirty w)
  | deferSeal (s c) : SyncStep s (.deferSeal c) (s.deferSealLocked c)
  | fire {s t} (harmed : s.pc (.timer t) = .armed) : SyncStep s (.fire t) (s.setPc (.timer t) .entered)
  | tryLock {s t} (hpc : s.pc (.timer t) = .entered) (hfree : s.flushMu = none) :
      SyncStep s (.tryLock t) (s.take (.timer t))
  | refuse {s t} (hpc : s.pc (.timer t) = .entered) (hheld : s.Contended) :
      SyncStep s (.refuse t) (s.setPc (.timer t) .refused)
  | rearm {s t} (hpc : s.pc (.timer t) = .refused) : SyncStep s (.rearm t) (s.replaceTimer t)
  | call {s i} (hpc : s.pc (.flush i) = .idle) : SyncStep s (.call i) (s.setPc (.flush i) .entered)
  | lock {s i} (hpc : s.pc (.flush i) = .entered) (hfree : s.flushMu = none) :
      SyncStep s (.lock i) (s.take (.flush i))
  | collect {s x} (hpc : s.pc x = .collecting) : SyncStep s (.collect x) (s.collect x)
  | finish {s x batch sealed} (hpc : s.pc x = .syncing batch sealed) : SyncStep s (.finish x) (s.finish x)

namespace SyncState

variable {ω κ : Type*} {s s' : SyncState ω κ} {x y : SyncTask} {t : ℕ} {p : SyncPc ω κ}

/-- A timer is armed, a fired timer's callback has its next step before it, or a task is about to
collect both sets. -/
def Awaited (s : SyncState ω κ) : Prop :=
  (∃ t, s.pc (.timer t) = .armed ∨ s.pc (.timer t) = .entered ∨ s.pc (.timer t) = .refused) ∨
    ∃ x, s.pc x = .collecting

def Registered (s : SyncState ω κ) : ω ⊕ κ → Prop
  | .inl w => w ∈ s.dirty
  | .inr c => c ∈ s.sealed

def Taken (s : SyncState ω κ) (j : ω ⊕ κ) : Prop := ∃ x, (s.pc x).takes j

def refused (s : SyncState ω κ) : Finset ℕ := (Finset.range s.next).filter fun t => (s.pc (.timer t)).isRefused

def Pending (s : SyncState ω κ) (t : ℕ) : Prop :=
  s.pc (.timer t) ≠ .idle ∧ ∀ batch sealed, s.pc (.timer t) ≠ .syncing batch sealed

structure Held (s : SyncState ω κ) : Prop where
  holder : ∀ x, s.flushMu = some x ↔ (s.pc x).holds = true
  fresh : ∀ t, s.next ≤ t → s.pc (.timer t) = .idle

structure Timed (s : SyncState ω κ) : Prop extends s.Held where
  quiet : s.syncTimer = none → s.dirty = ∅ ∧ s.sealed = []
  pending : ∀ t, s.syncTimer = some t → s.Pending t

@[simp] lemma setPc_self : (s.setPc x p).pc x = p := by
  simp [setPc]

lemma setPc_of_ne (h : y ≠ x) : (s.setPc x p).pc y = s.pc y := by
  simp [setPc, h]

lemma stopTimer_pc (x : SyncTask) : s.stopTimer.pc x = s.pc x ∨ s.pc x = .armed ∧ s.stopTimer.pc x = .idle := by
  rw [stopTimer]
  split
  · exact .inl rfl
  · rename_i t _
    by_cases hx : x = .timer t
    · subst hx
      cases hpc : s.pc (.timer t) <;> simp [SyncPc.stop]
    · exact .inl (setPc_of_ne hx)

lemma stopTimer_fields : s.stopTimer.flushMu = s.flushMu ∧ s.stopTimer.next = s.next := by
  rw [stopTimer]
  split <;> exact ⟨rfl, rfl⟩

lemma refused_of_setPc (hp : p ≠ .refused) (hpc : (s.setPc y p).pc x = .refused) :
    s.pc x = .refused := by
  by_cases hxy : x = y
  · subst hxy
    exact (hp (setPc_self.symm.trans hpc)).elim
  · exact setPc_of_ne hxy ▸ hpc

lemma refused_of_arm (hpc : s.arm.pc x = .refused) : s.pc x = .refused := by
  rw [arm] at hpc
  split at hpc
  · exact refused_of_setPc (by simp) hpc
  · exact hpc

lemma refused_of_stopTimer (hpc : s.stopTimer.pc x = .refused) : s.pc x = .refused := by
  rcases stopTimer_pc (s := s) x with hsame | ⟨_, hidle⟩
  · exact hsame ▸ hpc
  · simp [hidle] at hpc

lemma arm_flushMu : s.arm.flushMu = s.flushMu := by
  rw [arm]
  split <;> rfl

lemma registered_arm {j : ω ⊕ κ} : s.arm.Registered j ↔ s.Registered j := by
  rw [arm]
  split <;> cases j <;> exact Iff.rfl

lemma registered_stopTimer {j : ω ⊕ κ} : s.stopTimer.Registered j ↔ s.Registered j := by
  rw [stopTimer]
  split <;> cases j <;> exact Iff.rfl

lemma lt_next (h : s.Held) (hpc : s.pc (.timer t) ≠ .idle) : t < s.next := by
  by_contra hle
  exact hpc (h.fresh t (not_lt.mp hle))

lemma Held.setPc (h : s.Held) (hp : p.holds = false) (hpc : (s.pc x).holds = false)
    (hx : ∀ t, x = .timer t → t < s.next) : (s.setPc x p).Held where
  holder y := by
    by_cases hy : y = x
    · subst hy
      rw [setPc_self, hp]
      exact (h.holder y).trans (by rw [hpc])
    · rw [setPc_of_ne hy]
      exact h.holder y
  fresh t ht := by
    have hne : SyncTask.timer t ≠ x := fun heq => (hx t heq.symm).not_ge ht
    rw [setPc_of_ne hne]
    exact h.fresh t ht

lemma Held.stopTimer (h : s.Held) : s.stopTimer.Held where
  holder x := by
    rw [stopTimer_fields.1, h.holder]
    rcases stopTimer_pc x with hx | ⟨harmed, hidle⟩
    · rw [hx]
    · rw [harmed, hidle]
      rfl
  fresh t ht := by
    rw [stopTimer_fields.2] at ht
    rcases stopTimer_pc (.timer t) with hx | ⟨_, hidle⟩
    · rw [hx]
      exact h.fresh t ht
    · exact hidle

lemma Held.afterFunc (h : s.Held) : s.afterFunc.Timed where
  holder x := by
    refine (h.holder x).trans ?_
    by_cases hx : x = .timer s.next
    · subst hx
      rw [h.fresh _ le_rfl, SyncState.afterFunc, setPc_self]
      rfl
    · rw [SyncState.afterFunc, setPc_of_ne hx]
  fresh t ht := by
    have hlt : s.next < t := ht
    refine (setPc_of_ne ?_).trans (h.fresh t hlt.le)
    simp only [ne_eq, SyncTask.timer.injEq]
    omega
  quiet hnone := by cases hnone
  pending t ht := by
    obtain rfl : s.next = t := Option.some.inj ht
    simp [SyncState.afterFunc, Pending]

lemma Held.arm (h : s.Held) (hpending : ∀ t, s.syncTimer = some t → s.Pending t) : s.arm.Timed := by
  rw [SyncState.arm]
  split
  · exact h.afterFunc
  · rename_i t ht
    refine { h with quiet := ?_, pending := hpending }
    rw [ht]
    exact nofun

lemma Timed.setPc (h : s.Timed) (hp : p.holds = false) (hpc : (s.pc x).holds = false)
    (hx : ∀ t, x = .timer t → t < s.next) (hidle : ∀ t, x = .timer t → p ≠ .idle) : (s.setPc x p).Timed where
  toHeld := h.toHeld.setPc hp hpc hx
  quiet := h.quiet
  pending t ht := by
    by_cases hxt : .timer t = x
    · rw [Pending, hxt, setPc_self]
      refine ⟨hidle t hxt.symm, fun batch sealed heq => ?_⟩
      rw [heq] at hp
      cases hp
    · rw [Pending, setPc_of_ne hxt]
      exact h.pending t ht

lemma Timed.take (h : s.Timed) (hfree : s.flushMu = none) (hx : ∀ t, x = .timer t → t < s.next) :
    (s.take x).Timed where
  holder y := by
    by_cases hy : y = x
    · subst hy
      simp [SyncState.take, SyncPc.holds]
    · have hnot : (s.pc y).holds = false := by
        rw [← Bool.not_eq_true, ← h.holder y, hfree]
        exact nofun
      simp only [SyncState.take, setPc_of_ne hy, hnot]
      simp [Ne.symm hy]
  fresh t ht := by
    have hne : SyncTask.timer t ≠ x := fun heq => (hx t heq.symm).not_ge ht
    exact (setPc_of_ne hne).trans (h.fresh t ht)
  quiet := h.quiet
  pending t ht := by
    by_cases hxt : .timer t = x
    · simp [Pending, SyncState.take, hxt]
    · simp only [Pending, SyncState.take, setPc_of_ne hxt]
      exact h.pending t ht

lemma Timed.idle (h : s.Timed) (hpc : s.pc (.timer t) = .refused) : (s.setPc (.timer t) .idle).Held := by
  refine h.toHeld.setPc rfl (by rw [hpc]; rfl) ?_
  rintro _ ⟨⟩
  exact lt_next h.toHeld (by simp [hpc])

lemma Timed.replaceTimer (h : s.Timed) (hpc : s.pc (.timer t) = .refused) : (s.replaceTimer t).Timed :=
  (h.idle hpc).stopTimer.afterFunc

lemma Timed.collect (h : s.Timed) (hpc : s.pc x = .collecting) : (s.collect x).Timed where
  holder y := by
    have hy := h.toHeld.stopTimer.holder y
    by_cases hyx : y = x
    · subst hyx
      rcases stopTimer_pc (s := s) y with hsame | ⟨harmed, _⟩
      · simpa [SyncState.collect, SyncState.setPc, SyncPc.holds, hsame, hpc] using hy
      · simp [harmed] at hpc
    · simpa [SyncState.collect, SyncState.setPc, hyx] using hy
  fresh t ht := by
    have hnext : s.next ≤ t := stopTimer_fields.2 ▸ ht
    have hne : SyncTask.timer t ≠ x := by
      rintro rfl
      rw [h.fresh t hnext] at hpc
      cases hpc
    exact (setPc_of_ne hne).trans (h.toHeld.stopTimer.fresh t ht)
  quiet _ := ⟨rfl, rfl⟩
  pending t ht := by cases ht

lemma Timed.finish {batch : Finset ω} {sealed : List κ} (h : s.Timed) (hpc : s.pc x = .syncing batch sealed) :
    (s.finish x).Timed where
  holder y := by
    have hx : s.flushMu = some x := (h.holder x).mpr (by rw [hpc]; rfl)
    by_cases hyx : y = x
    · subst hyx
      simp [SyncState.finish, SyncPc.holds]
    · have hnot : (s.pc y).holds = false := by
        rw [← Bool.not_eq_true, ← h.holder y, hx, Option.some.injEq]
        exact Ne.symm hyx
      simp [SyncState.finish, setPc_of_ne hyx, hnot]
  fresh t ht := by
    by_cases hne : SyncTask.timer t = x
    · simp [SyncState.finish, hne]
    · exact (setPc_of_ne hne).trans (h.fresh t ht)
  quiet := h.quiet
  pending t ht := by
    have hne : SyncTask.timer t ≠ x := by
      rintro rfl
      exact (h.pending t ht).2 _ _ hpc
    rw [Pending, SyncState.finish, setPc_of_ne hne]
    exact h.pending t ht

lemma timed_initial : ({} : SyncState ω κ).Timed where
  holder _ := by simp [SyncPc.holds]
  fresh _ _ := rfl
  quiet _ := ⟨rfl, rfl⟩
  pending _ ht := by cases ht

lemma Registered.nonempty {j : ω ⊕ κ} (h : s.Registered j) : s.dirty ≠ ∅ ∨ s.sealed ≠ [] := by
  cases j with
  | inl w => exact .inl (Finset.ne_empty_of_mem h)
  | inr c => exact .inr (List.ne_nil_of_mem h)

lemma Timed.syncTimer (h : s.Timed) (hwork : s.dirty ≠ ∅ ∨ s.sealed ≠ []) : ∃ t, s.syncTimer = some t := by
  cases htimer : s.syncTimer with
  | some t => exact ⟨t, rfl⟩
  | none =>
    obtain ⟨hdirty, hsealed⟩ := h.quiet htimer
    exact (hwork.elim (· hdirty) (· hsealed)).elim

lemma Timed.awaited (h : s.Timed) (hwork : s.dirty ≠ ∅ ∨ s.sealed ≠ []) : s.Awaited := by
  obtain ⟨t, ht⟩ := h.syncTimer hwork
  obtain ⟨hidle, hsyncing⟩ := h.pending t ht
  cases hpc : s.pc (.timer t) with
  | idle => exact (hidle hpc).elim
  | armed => exact .inl ⟨t, .inl hpc⟩
  | entered => exact .inl ⟨t, .inr (.inl hpc)⟩
  | refused => exact .inl ⟨t, .inr (.inr hpc)⟩
  | collecting => exact .inr ⟨_, hpc⟩
  | syncing batch sealed => exact (hsyncing _ _ hpc).elim

lemma eq_of_setPc (hne : (s.setPc y p).pc x ≠ s.pc x) : x = y := by
  by_contra hxy
  exact hne (setPc_of_ne hxy)

lemma Held.afterFunc_pc (h : s.Held) (hne : s.afterFunc.pc x ≠ s.pc x) : s.pc x = .idle := by
  obtain rfl := eq_of_setPc hne
  exact h.fresh _ le_rfl

lemma Held.arm_pc (h : s.Held) (hne : s.arm.pc x ≠ s.pc x) : s.pc x = .idle := by
  rw [SyncState.arm] at hne
  split at hne
  · exact h.afterFunc_pc hne
  · exact (hne rfl).elim

lemma mem_refused (h : s.Held) : t ∈ s.refused ↔ s.pc (.timer t) = .refused := by
  rw [refused, Finset.mem_filter, Finset.mem_range, SyncPc.isRefused_iff]
  refine ⟨And.right, fun hpc => ⟨lt_next h (by simp [hpc]), hpc⟩⟩

lemma Timed.refused_replaceTimer (h : s.Timed) (hpc : s.pc (.timer t) = .refused) :
    (s.replaceTimer t).refused ⊂ s.refused := by
  have hheld := (h.replaceTimer hpc).toHeld
  have hback {x} (hx : (s.replaceTimer t).pc x = .refused) : (s.setPc (.timer t) .idle).pc x = .refused :=
    refused_of_stopTimer (refused_of_setPc (by simp) hx)
  refine Finset.ssubset_iff_of_subset (fun u hu => ?_) |>.mpr ⟨t, (mem_refused h.toHeld).mpr hpc, ?_⟩
  · rw [mem_refused hheld] at hu
    rw [mem_refused h.toHeld]
    exact refused_of_setPc (by simp) (hback hu)
  · rw [mem_refused hheld]
    intro hrefused
    simpa using hback hrefused

end SyncState

section

variable {ω κ : Type*} [DecidableEq ω] {s s' : SyncState ω κ} {i : SyncEvent ω κ} {x : SyncTask} {t : ℕ}

lemma SyncStep.timed (h : SyncStep s i s') (ht : s.Timed) : s'.Timed := by
  have hlt {t} (hpc : s.pc (.timer t) ≠ .idle) : ∀ u, SyncTask.timer t = .timer u → u < s.next := by
    rintro _ ⟨⟩
    exact SyncState.lt_next ht.toHeld hpc
  cases h with
  | markDirty | deferSeal => exact SyncState.Held.arm ⟨ht.holder, ht.fresh⟩ ht.pending
  | fire harmed => exact ht.setPc rfl (by rw [harmed]; rfl) (hlt (by simp [harmed])) (fun _ _ => by simp)
  | tryLock hpc hfree => exact ht.take hfree (hlt (by simp [hpc]))
  | refuse hpc => exact ht.setPc rfl (by rw [hpc]; rfl) (hlt (by simp [hpc])) (fun _ _ => by simp)
  | rearm hpc => exact ht.replaceTimer hpc
  | call hpc => exact ht.setPc rfl (by rw [hpc]; rfl) nofun nofun
  | lock hpc hfree => exact ht.take hfree nofun
  | collect hpc => exact ht.collect hpc
  | finish hpc => exact ht.finish hpc

inductive SyncMove (s s' : SyncState ω κ) (x : SyncTask) : Prop
  | begun (h : s.pc x = .idle)
  | fired (h : s.pc x = .armed) (h' : s'.pc x = .entered)
  | took (h : s.pc x = .entered) (h' : s'.pc x = .collecting)
  | gaveUp {t : ℕ} (h : s.pc x = .entered) (hx : x = .timer t) (hheld : s.Contended)
  | replaced {t : ℕ} (h : s.pc x = .armed ∨ s.pc x = .refused) (ht : s.pc (.timer t) = .refused)
      (h' : s' = s.replaceTimer t)
  | collected {y : SyncTask} (h : s.pc x = .armed ∨ s.pc x = .collecting) (h' : s' = s.collect y)
  | finished {batch : Finset ω} {sealed : List κ} (h : s.pc x = .syncing batch sealed) (h' : s'.flushMu = none)

lemma SyncStep.move (h : SyncStep s i s') (ht : s.Timed) (hne : s'.pc x ≠ s.pc x) : SyncMove s s' x := by
  cases h with
  | markDirty w =>
    exact .begun (SyncState.Held.arm_pc (s := { s with dirty := insert w s.dirty }) ⟨ht.holder, ht.fresh⟩ hne)
  | deferSeal c =>
    exact .begun (SyncState.Held.arm_pc (s := { s with sealed := s.sealed ++ [c] }) ⟨ht.holder, ht.fresh⟩ hne)
  | fire harmed =>
    obtain rfl := SyncState.eq_of_setPc hne
    exact .fired harmed SyncState.setPc_self
  | tryLock hpc =>
    obtain rfl := SyncState.eq_of_setPc hne
    exact .took hpc SyncState.setPc_self
  | refuse hpc hheld =>
    obtain rfl := SyncState.eq_of_setPc hne
    exact .gaveUp hpc rfl hheld
  | @rearm t hpc =>
    by_cases hxt : x = .timer t
    · exact .replaced (.inr (hxt ▸ hpc)) hpc rfl
    · have hidle : (s.setPc (.timer t) .idle).pc x = s.pc x := SyncState.setPc_of_ne hxt
      rcases SyncState.stopTimer_pc (s := s.setPc (.timer t) .idle) x with hsame | ⟨harmed, _⟩
      · refine .begun ?_
        rw [← hidle, ← hsame]
        refine (ht.idle hpc).stopTimer.afterFunc_pc ?_
        rw [hsame, hidle]
        exact hne
      · exact .replaced (.inl (hidle ▸ harmed)) hpc rfl
  | call hpc =>
    obtain rfl := SyncState.eq_of_setPc hne
    exact .begun hpc
  | lock hpc =>
    obtain rfl := SyncState.eq_of_setPc hne
    exact .took hpc SyncState.setPc_self
  | @collect y hpc =>
    refine .collected ?_ rfl
    by_cases hxy : x = y
    · exact .inr (hxy ▸ hpc)
    · rcases SyncState.stopTimer_pc (s := s) x with hsame | ⟨harmed, _⟩
      · exact (hne ((SyncState.setPc_of_ne hxy).trans hsame)).elim
      · exact .inl harmed
  | finish hpc =>
    obtain rfl := SyncState.eq_of_setPc hne
    exact .finished hpc rfl

lemma SyncStep.refused (h : SyncStep s i s') (hpc : s'.pc x = .refused) : s.pc x = .refused ∨ s.Contended := by
  cases h with
  | markDirty w => exact .inl (SyncState.refused_of_arm (s := { s with dirty := insert w s.dirty }) hpc)
  | deferSeal c => exact .inl (SyncState.refused_of_arm (s := { s with sealed := s.sealed ++ [c] }) hpc)
  | fire | tryLock | call | lock | finish => exact .inl (SyncState.refused_of_setPc (by simp) hpc)
  | refuse _ hheld => exact .inr hheld
  | rearm =>
    have hstop := SyncState.refused_of_stopTimer (SyncState.refused_of_setPc (by simp) hpc)
    exact .inl (SyncState.refused_of_setPc (by simp) hstop)
  | collect => exact .inl (SyncState.refused_of_stopTimer (SyncState.refused_of_setPc (by simp) hpc))

lemma SyncStep.refused_subset (h : SyncStep s i s') (ht : s.Timed) (hfree : ¬ s.Contended) :
    s'.refused ⊆ s.refused := by
  intro t hmem
  rw [SyncState.mem_refused (h.timed ht).toHeld] at hmem
  rw [SyncState.mem_refused ht.toHeld]
  exact (h.refused hmem).resolve_right hfree

lemma SyncStep.locked (h : SyncStep s i s') (hfree : s.flushMu = none) (hmu : s'.flushMu = some x) :
    s'.pc x = .collecting := by
  cases h with
  | tryLock | lock =>
    cases hmu
    exact SyncState.setPc_self
  | markDirty => simp [SyncState.markDirty, SyncState.arm_flushMu, hfree] at hmu
  | deferSeal => simp [SyncState.deferSealLocked, SyncState.arm_flushMu, hfree] at hmu
  | fire | refuse | call => cases hfree.symm.trans hmu
  | @rearm t =>
    have hstop : (s.setPc (.timer t) .idle).flushMu = some x := SyncState.stopTimer_fields.1.symm.trans hmu
    cases hfree.symm.trans hstop
  | collect => cases hfree.symm.trans (SyncState.stopTimer_fields.1.symm.trans hmu)
  | finish => cases hmu

lemma SyncStep.keeps {j : ω ⊕ κ} (h : SyncStep s i s') (hj : s.Registered j) : s'.Registered j ∨ s'.Taken j := by
  cases h with
  | markDirty w =>
    refine .inl (SyncState.registered_arm.mpr ?_)
    cases j with
    | inl v => exact Finset.mem_insert_of_mem hj
    | inr c => exact hj
  | deferSeal c =>
    refine .inl (SyncState.registered_arm.mpr ?_)
    cases j with
    | inl w => exact hj
    | inr d => exact List.mem_append_left _ hj
  | rearm =>
    refine .inl (SyncState.registered_stopTimer.mpr ?_)
    cases j <;> exact hj
  | fire | tryLock | refuse | call | lock | finish => exact .inl (by cases j <;> exact hj)
  | @collect x =>
    refine .inr ⟨x, ?_⟩
    rw [SyncState.collect, SyncState.setPc_self]
    cases j <;> exact hj

end

/-! ## Progress -/

def SyncState.Ready {ω κ : Type*} (s : SyncState ω κ) (x : SyncTask) : Prop :=
  s.pc x ≠ .idle ∧ ∀ i, x = .flush i → s.pc x = .entered → s.flushMu = none

/-- No task that can always go on stays where it is: timers fire, goroutines are scheduled and fsyncs return. -/
def SyncFair {ω κ : Type*} [DecidableEq ω] (e : Execution (@SyncStep ω κ _)) : Prop :=
  ∀ x n, (∀ m, n ≤ m → (e.state m).Ready x) → ∃ m, n ≤ m ∧ (e.state m).pc x ≠ (e.state n).pc x

section

variable {ω κ : Type*} [DecidableEq ω] {e : Execution (@SyncStep ω κ _)} {j : ω ⊕ κ} {n m : ℕ}
  {x : SyncTask} {t : ℕ}

structure Stalled (e : Execution (@SyncStep ω κ _)) (j : ω ⊕ κ) (n : ℕ) : Prop where
  fair : SyncFair e
  timed : ∀ m, (e.state m).Timed
  waits : ∀ m, n ≤ m → (e.state m).Registered j
  missed : ∀ m, n ≤ m → ¬ (e.state m).Taken j

namespace Stalled

lemma later (h : Stalled e j n) (hm : n ≤ m) : Stalled e j m where
  fair := h.fair
  timed := h.timed
  waits k hk := h.waits k (hm.trans hk)
  missed k hk := h.missed k (hm.trans hk)

lemma moves (h : Stalled e j n) (hready : ∀ m, n ≤ m → (e.state m).pc x = (e.state n).pc x → (e.state m).Ready x) :
    ∃ m, n ≤ m ∧ (e.state m).pc x = (e.state n).pc x ∧ SyncMove (e.state m) (e.state (m + 1)) x := by
  have hlost : ∃ m, n ≤ m ∧ ¬ (e.state m).pc x = (e.state n).pc x := by
    by_contra hstays
    simp only [not_exists, not_and, not_not] at hstays
    obtain ⟨m, hm, hne⟩ := h.fair x n fun m hm => hready m hm (hstays m hm)
    exact hne (hstays m hm)
  obtain ⟨m, i, hm, hstays, hstep, hleft⟩ :=
    Execution.leaves (e := e) (P := fun s => s.pc x = (e.state n).pc x) rfl hlost
  have hpc := hstays m hm le_rfl
  exact ⟨m, hm, hpc, hstep.move (h.timed m) fun heq => hleft (heq.trans hpc)⟩

lemma collect_ne (h : Stalled e j n) (hm : n ≤ m) : e.state (m + 1) ≠ (e.state m).collect x := by
  intro heq
  refine h.missed (m + 1) (by omega) ⟨x, ?_⟩
  have hj := h.waits m hm
  rw [heq, SyncState.collect, SyncState.setPc_self]
  cases j <;> exact hj

lemma not_collecting (h : Stalled e j n) : (e.state n).pc x ≠ .collecting := by
  intro hpc
  obtain ⟨m, hm, heq, hmove⟩ := h.moves (x := x) fun m _ heq => by simp [SyncState.Ready, heq, hpc]
  rw [hpc] at heq
  cases hmove with
  | collected _ hcollect => exact h.collect_ne hm hcollect
  | begun hpc' | fired hpc' | took hpc' | gaveUp hpc' | replaced hpc' | finished hpc' => simp [heq] at hpc'

lemma unlocked_succ (h : Stalled e j n) (hfree : (e.state n).flushMu = none) :
    (e.state (n + 1)).flushMu = none := by
  rcases e.step n with hsame | ⟨i, hi⟩
  · rw [hsame, hfree]
  · cases hmu : (e.state (n + 1)).flushMu with
    | none => rfl
    | some x => exact ((h.later n.le_succ).not_collecting (hi.locked hfree hmu)).elim

lemma unlocked (h : Stalled e j n) : ∃ k, n ≤ k ∧ ∀ m, k ≤ m → (e.state m).flushMu = none := by
  have hfree : ∃ k, n ≤ k ∧ (e.state k).flushMu = none := by
    cases hmu : (e.state n).flushMu with
    | none => exact ⟨n, le_rfl, hmu⟩
    | some x =>
      have hholds := ((h.timed n).holder x).mp hmu
      cases hpc : (e.state n).pc x with
      | syncing batch sealed =>
        obtain ⟨m, hm, heq, hmove⟩ := h.moves (x := x) fun m _ heq => by simp [SyncState.Ready, heq, hpc]
        rw [hpc] at heq
        cases hmove with
        | finished _ hnone => exact ⟨m + 1, by omega, hnone⟩
        | begun hpc' | fired hpc' | took hpc' | gaveUp hpc' | replaced hpc' | collected hpc' => simp [heq] at hpc'
      | collecting => exact (h.not_collecting hpc).elim
      | idle | armed | entered | refused => simp [hpc, SyncPc.holds] at hholds
  obtain ⟨k, hk, hnone⟩ := hfree
  exact ⟨k, hk, Execution.stays (fun m hm => (h.later (hk.trans hm)).unlocked_succ) hnone⟩

lemma flush_not_entered {i : ℕ} (h : Stalled e j n) (hfree : ∀ m, n ≤ m → (e.state m).flushMu = none) :
    (e.state n).pc (.flush i) ≠ .entered := by
  intro hpc
  obtain ⟨m, hm, heq, hmove⟩ :=
    h.moves (x := .flush i) fun m hm heq => by simp [SyncState.Ready, heq, hpc, hfree m hm]
  rw [hpc] at heq
  cases hmove with
  | took _ hnew => exact (h.later (by omega : n ≤ m + 1)).not_collecting hnew
  | gaveUp _ hx => cases hx
  | begun hpc' | fired hpc' | replaced hpc' | collected hpc' | finished hpc' => simp [heq] at hpc'

lemma not_contended (h : Stalled e j n) (hfree : ∀ m, n ≤ m → (e.state m).flushMu = none) :
    ¬ (e.state n).Contended := by
  rintro (hheld | ⟨i, hi⟩)
  · exact hheld (hfree n le_rfl)
  · exact h.flush_not_entered hfree hi

lemma not_entered (h : Stalled e j n) (hfree : ∀ m, n ≤ m → (e.state m).flushMu = none) :
    (e.state n).pc x ≠ .entered := by
  intro hpc
  obtain ⟨m, hm, heq, hmove⟩ := h.moves (x := x) fun m hm heq => by simp [SyncState.Ready, heq, hpc, hfree m hm]
  rw [hpc] at heq
  cases hmove with
  | took _ hnew => exact (h.later (by omega : n ≤ m + 1)).not_collecting hnew
  | gaveUp _ _ hheld => exact (h.later hm).not_contended (fun k hk => hfree k (hm.trans hk)) hheld
  | begun hpc' | fired hpc' | replaced hpc' | collected hpc' | finished hpc' => simp [heq] at hpc'

lemma replaces (h : Stalled e j n) (hfree : ∀ m, n ≤ m → (e.state m).flushMu = none) :
    ∃ m t, n ≤ m ∧ (e.state m).pc (.timer t) = .refused ∧ e.state (m + 1) = (e.state m).replaceTimer t := by
  obtain ⟨t, ht⟩ := (h.timed n).syncTimer (h.waits n le_rfl).nonempty
  obtain ⟨hidle, hsyncing⟩ := (h.timed n).pending t ht
  obtain ⟨m, hm, heq, hmove⟩ := h.moves (x := .timer t) fun m hm heq => by simp [SyncState.Ready, heq, hidle]
  have hlater := h.later hm
  have hfree' : ∀ k, m ≤ k → (e.state k).flushMu = none := fun k hk => hfree k (hm.trans hk)
  cases hmove with
  | begun hpc => exact (hidle (heq ▸ hpc)).elim
  | fired _ hnew => exact ((h.later (by omega : n ≤ m + 1)).not_entered (fun k hk => hfree k (by omega)) hnew).elim
  | took hpc | gaveUp hpc => exact (hlater.not_entered hfree' hpc).elim
  | replaced _ hpc hnew => exact ⟨m, _, hm, hpc, hnew⟩
  | collected _ hnew => exact (h.collect_ne hm hnew).elim
  | finished hpc => exact (hsyncing _ _ (heq ▸ hpc)).elim

lemma false_of_unlocked (h : Stalled e j n) (hfree : ∀ m, n ≤ m → (e.state m).flushMu = none) : False := by
  induction hcount : (e.state n).refused.card using Nat.strong_induction_on generalizing n with
  | _ count ih =>
    obtain ⟨m, t, hm, hpc, hnew⟩ := h.replaces hfree
    have hsub : (e.state m).refused ⊆ (e.state n).refused := by
      refine Execution.stays (P := fun m => (e.state m).refused ⊆ (e.state n).refused) (fun k hk ih => ?_)
        subset_rfl m hm
      refine subset_trans ?_ ih
      rcases e.step k with hsame | ⟨i, hi⟩
      · rw [hsame]
      · exact hi.refused_subset (h.timed k) ((h.later hk).not_contended fun l hl => hfree l (hk.trans hl))
    have hless : (e.state (m + 1)).refused ⊂ (e.state m).refused := by
      rw [hnew]
      exact (h.timed m).refused_replaceTimer hpc
    have hlt : (e.state (m + 1)).refused.card < count :=
      hcount ▸ (Finset.card_lt_card hless).trans_le (Finset.card_le_card hsub)
    exact ih _ hlt (h.later (by omega)) (fun k hk => hfree k (by omega)) rfl

lemma elim (h : Stalled e j n) : False := by
  obtain ⟨k, hk, hfree⟩ := h.unlocked
  exact (h.later hk).false_of_unlocked hfree

end Stalled

lemma SyncFair.taken (hfair : SyncFair e) (hinit : e.state 0 = {}) (hj : (e.state n).Registered j) :
    ∃ m, n ≤ m ∧ (e.state m).Taken j := by
  by_contra hnever
  have hmissed : ∀ m, n ≤ m → ¬ (e.state m).Taken j := fun m hm ht => hnever ⟨m, hm, ht⟩
  have htimed : ∀ m, (e.state m).Timed :=
    e.invariant (fun _ _ _ hstep ht => hstep.timed ht) (hinit ▸ SyncState.timed_initial)
  have hwaits : ∀ m, n ≤ m → (e.state m).Registered j := by
    refine Execution.stays (fun m hm ih => ?_) hj
    rcases e.step m with hsame | ⟨i, hi⟩
    · rw [hsame]
      exact ih
    · exact (hi.keeps ih).resolve_right (hmissed _ (by omega))
  exact Stalled.elim ⟨hfair, htimed, hwaits, hmissed⟩

/-- As long as something is registered, a timer is armed, a callback is on its way or a pass is about to collect,
and in a fair execution everything that is registered gets into the batch of a pass. -/
theorem sync_timer_never_lost :
    (∀ is s, Run (@SyncStep ω κ _) {} is s → s.dirty ≠ ∅ ∨ s.sealed ≠ [] → s.Awaited) ∧
      ∀ e : Execution (@SyncStep ω κ _), e.state 0 = {} → SyncFair e →
        ∀ n j, (e.state n).Registered j → ∃ m, n ≤ m ∧ (e.state m).Taken j := by
  refine ⟨fun is s hrun hwork => ?_, fun e hinit hfair n j hj => hfair.taken hinit hj⟩
  exact (hrun.invariant (fun _ _ _ hstep ht => hstep.timed ht) SyncState.timed_initial).awaited hwork

end

/-- One writer is marked dirty, the timer fires, its callback runs a pass, and nothing happens after that. -/
def onePass : ℕ → SyncState ℕ ℕ
  | 0 => {}
  | n + 1 =>
    match n with
    | 0 => (onePass n).markDirty 7
    | 1 => (onePass n).setPc (.timer 0) .entered
    | 2 => (onePass n).take (.timer 0)
    | 3 => (onePass n).collect (.timer 0)
    | 4 => (onePass n).finish (.timer 0)
    | _ => onePass n

theorem sync_timer_never_lost_one_writer :
    (Run (@SyncStep ℕ ℕ _) {} [.markDirty 7] (onePass 1) ∧ (onePass 1).Awaited) ∧
      ∃ e : Execution (@SyncStep ℕ ℕ _), e.state = onePass ∧ SyncFair e ∧ (e.state 1).Registered (.inl 7) ∧
        ∃ m, 1 ≤ m ∧ (e.state m).Taken (.inl 7) := by
  have hstep : ∀ n, onePass (n + 1) = onePass n ∨ ∃ i, SyncStep (onePass n) i (onePass (n + 1))
    | 0 => .inr ⟨_, .markDirty _ 7⟩
    | 1 => .inr ⟨_, .fire rfl⟩
    | 2 => .inr ⟨_, .tryLock rfl rfl⟩
    | 3 => .inr ⟨_, .collect rfl⟩
    | 4 => .inr ⟨_, .finish rfl⟩
    | _ + 5 => .inl rfl
  have hrest (n : ℕ) (hn : 5 ≤ n) (x : SyncTask) : (onePass n).pc x = .idle := by
    induction n, hn using Nat.le_induction with
    | base =>
      simp [onePass, SyncState.finish, SyncState.collect, SyncState.take, SyncState.markDirty, SyncState.arm,
        SyncState.afterFunc, SyncState.stopTimer, SyncState.setPc]
    | succ n hn ih =>
      obtain ⟨k, rfl⟩ := Nat.exists_eq_add_of_le' hn
      exact ih
  have hfair : SyncFair ⟨onePass, hstep⟩ := fun x n hready =>
    ((hready (max n 5) (le_max_left n 5)).1 (hrest _ (le_max_right n 5) x)).elim
  have hrun : Run (@SyncStep ℕ ℕ _) {} [.markDirty 7] (onePass 1) := .cons (.markDirty _ 7) (.nil _)
  have hdirty : (onePass 1).Registered (.inl 7) := Finset.mem_insert_self 7 ∅
  exact ⟨⟨hrun, sync_timer_never_lost.1 _ _ hrun (.inl (by decide))⟩, _, rfl, hfair, hdirty,
    sync_timer_never_lost.2 ⟨onePass, hstep⟩ rfl hfair 1 _ hdirty⟩

end Minicrond.Logs
