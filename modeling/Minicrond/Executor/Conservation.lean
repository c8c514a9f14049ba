import Mathlib.Algebra.Order.BigOperators.Group.List
import Mathlib.Algebra.Order.Group.Multiset
import Mathlib.Algebra.Order.Group.Nat
import Mathlib.Data.Multiset.Range
import Minicrond.Executor.Capacity

/-! Every capacity slot that a path takes is owned by exactly one path until it is given back, once. -/

namespace Minicrond.Executor

open Minicrond.Library Minicrond.Store

namespace TriggerCall

def owns (c : TriggerCall) : Bool :=
  match c.pc with
  | .launching _ | .refused => c.d.isJob
  | _ => c.capacityOwned

def Valid (c : TriggerCall) : Prop :=
  match c.pc with
  | .placing | .reserving => c.capacityOwned = false ∧ c.d.isJob = true
  | .storing => c.capacityOwned = c.d.isJob
  | .releasing | .unwinding => True
  | _ => c.capacityOwned = false

end TriggerCall

namespace DrainStep

def owns (w : DrainStep) : Bool :=
  match w.pc with
  | .expiring | .reserving | .started => false
  | .unlocking | .settling => !w.consumedSlot
  | _ => true

def Valid (w : DrainStep) : Prop :=
  match w.pc with
  | .unlocking | .settling => True
  | .confirming d | .dequeuing d | .launching d | .refused d => w.consumedSlot = false ∧ d.isJob = true
  | _ => w.consumedSlot = false

end DrainStep

namespace Proc

def owns : Proc → Bool
  | .trigger c => c.owns
  | .drain w => w.owns
  | .run r => r.d.isJob
  | .stop _ => false

def slot : Proc → Option ℕ
  | .trigger c => c.slot
  | .drain w => w.slot
  | .run r => r.slot
  | .stop _ => none

def held (p : Proc) : Multiset (Option ℕ) := bif p.owns then {p.slot} else 0

def Valid : Proc → Prop
  | .trigger c => c.Valid
  | .drain w => w.Valid
  | _ => True

end Proc

def heldBy (procs : List Proc) : Multiset (Option ℕ) := (procs.map Proc.held).sum

def Shared.slots (s : Shared) : ℕ × ℕ × List (Option ℕ) := (s.tokens, s.taken, s.returned)

inductive SlotEffect (o : Options) (s : Shared) (p : Proc) (s' : Shared) (out : List Proc) : Prop
  | keep (hs : s'.slots = s.slots) (hh : heldBy out = p.held)
  | take (ht : s.tokens < o.slots) (hs : s'.slots = (s.tokens + 1, s.taken + 1, s.returned)) (hp : p.held = 0)
      (hout : heldBy out = {some s.taken})
  | release (slot : Option ℕ) (ht : 0 < s.tokens) (hs : s'.slots = (s.tokens - 1, s.taken, s.returned ++ [slot]))
      (hp : p.held = {slot}) (hout : heldBy out = 0)

section

variable {o : Options} {s s' : Shared} {p : Proc} {out : List Proc}

lemma SlotEffect.of_released {own : Bool} {slot : Option ℕ} (hr : Released own slot s s')
    (hp : p.held = bif own then {slot} else 0) (hout : heldBy out = 0) : SlotEffect o s p s' out := by
  cases own with
  | true =>
    obtain ⟨ht, rfl⟩ := hr
    exact .release slot ht rfl hp hout
  | false =>
    obtain rfl : s' = s := hr
    exact .keep rfl (hout.trans hp.symm)

lemma heldBy_goto (c : TriggerCall) (pc : TriggerPc) :
    heldBy (c.goto pc) = (Proc.trigger { c with pc := pc }).held := by simp [heldBy, TriggerCall.goto]

lemma heldBy_disown (c : TriggerCall) (pc : TriggerPc) :
    heldBy (c.disown pc) = (Proc.trigger { c with capacityOwned := false, pc := pc }).held := by
  simp [heldBy, TriggerCall.disown]

lemma heldBy_drain (w : DrainStep) (pc : DrainPc) :
    heldBy (w.goto pc) = (Proc.drain { w with pc := pc }).held := by
  simp [heldBy, DrainStep.goto]

lemma TriggerStep.slots {c : TriggerCall} (h : TriggerStep o s c s' out) (hc : c.Valid) :
    SlotEffect o s (.trigger c) s' out := by
  cases h with
  | shut h | gaveUp h | left h =>
    exact .keep rfl (by simp_all [heldBy, Proc.held, Proc.owns, TriggerCall.owns, TriggerCall.Valid])
  | reserved h ht =>
    refine .take ht rfl ?_ ?_
    · simp_all [Proc.held, Proc.owns, TriggerCall.owns, TriggerCall.Valid]
    · simp [heldBy, Proc.held, Proc.owns, Proc.slot, TriggerCall.owns]
  | stored h | deferred spooled h =>
    refine .keep rfl ?_
    rw [heldBy_disown]
    simp_all [Proc.held, Proc.owns, Proc.slot, TriggerCall.owns, TriggerCall.Valid]
  | released h hr =>
    refine .of_released hr ?_ ?_
    · simp [Proc.held, Proc.owns, Proc.slot, TriggerCall.owns, h]
    · rw [heldBy_disown]
      simp [Proc.held, Proc.owns, TriggerCall.owns]
  | registered h =>
    -- The slot passes to the run.
    refine .keep rfl ?_
    simp_all [heldBy, TriggerCall.goto, launched, Proc.held, Proc.owns, Proc.slot, TriggerCall.owns,
      TriggerCall.Valid]
  | gaveBack h hr =>
    refine .of_released hr ?_ ?_
    · simp [Proc.held, Proc.owns, Proc.slot, TriggerCall.owns, h]
    · rw [heldBy_goto]
      simp_all [Proc.held, Proc.owns, TriggerCall.owns, TriggerCall.Valid]
  | unwound h hr =>
    refine .of_released hr ?_ ?_
    · simp [Proc.held, Proc.owns, Proc.slot, TriggerCall.owns, h]
    · rw [heldBy_disown]
      simp [Proc.held, Proc.owns, TriggerCall.owns]
  | _ h =>
    refine .keep rfl ?_
    rw [heldBy_goto]
    simp [Proc.held, Proc.owns, Proc.slot, TriggerCall.owns, h]

lemma DrainMove.slots {w : DrainStep} (h : DrainMove o s w s' out) (hw : w.Valid) :
    SlotEffect o s (.drain w) s' out := by
  cases h with
  | idle h | full h => exact .keep rfl (by simp [heldBy, Proc.held, Proc.owns, DrainStep.owns, h])
  | reserved h ht =>
    refine .take ht rfl ?_ ?_
    · simp [Proc.held, Proc.owns, DrainStep.owns, h]
    · simp [heldBy, Proc.held, Proc.owns, Proc.slot, DrainStep.owns]
  | registered h =>
    refine .keep rfl ?_
    simp_all [heldBy, DrainStep.goto, launched, Proc.held, Proc.owns, Proc.slot, DrainStep.owns, DrainStep.Valid]
  | gaveBack h hr =>
    refine .of_released hr ?_ ?_
    · simp_all [Proc.held, Proc.owns, Proc.slot, DrainStep.owns, DrainStep.Valid]
    · rw [heldBy_drain]
      simp [Proc.held, Proc.owns, DrainStep.owns]
  | consumed h => exact .keep rfl (by simp [heldBy, Proc.held, Proc.owns, DrainStep.owns, h])
  | settled h hr =>
    refine .of_released hr ?_ ?_
    · simp [Proc.held, Proc.owns, Proc.slot, DrainStep.owns, h]
    · simp [heldBy]
  | _ h =>
    refine .keep rfl ?_
    rw [heldBy_drain]
    simp_all [Proc.held, Proc.owns, Proc.slot, DrainStep.owns, DrainStep.Valid]

lemma RunStep.slots {r : JobRun} (h : RunStep s r s' out) : SlotEffect o s (.run r) s' out := by
  cases h with
  | completed | unregistered => exact .keep rfl (by simp [heldBy, Proc.held, Proc.owns, Proc.slot])
  | released h hr => exact .of_released hr rfl (by simp [heldBy])

lemma StopStep.slots {c : StopCall} (h : StopStep s c s' out) : SlotEffect o s (.stop c) s' out := by
  cases h <;> exact .keep rfl (by simp [heldBy, Proc.held, Proc.owns])

lemma Local.slots (h : Local o s p s' out) (hp : p.Valid) : SlotEffect o s p s' out := by
  cases p with
  | trigger c => exact TriggerStep.slots h hp
  | drain w => exact DrainMove.slots h hp
  | run r => exact RunStep.slots h
  | stop c => exact StopStep.slots h

lemma TriggerStep.valid_out {c : TriggerCall} (h : TriggerStep o s c s' out) (hc : c.Valid) :
    ∀ q ∈ out, q.Valid := by
  cases h <;> simp_all [TriggerCall.goto, TriggerCall.disown, launched, Proc.Valid, TriggerCall.Valid]

lemma DrainMove.valid_out {w : DrainStep} (h : DrainMove o s w s' out) (hw : w.Valid) : ∀ q ∈ out, q.Valid := by
  cases h <;> simp_all [DrainStep.goto, launched, Proc.Valid, DrainStep.Valid]

lemma Local.valid_out (h : Local o s p s' out) (hp : p.Valid) : ∀ q ∈ out, q.Valid := by
  cases p with
  | trigger c => exact TriggerStep.valid_out h hp
  | drain w => exact DrainMove.valid_out h hp
  | run r | stop c => cases h <;> simp [Proc.Valid]

end

namespace Proc

def inAdmission : Proc → Bool
  | .trigger c =>
    match c.pc with
    | .entering | .waiting => false
    | _ => true
  | .drain w =>
    match w.pc with
    | .expiring | .reserving | .acquiring | .settling => false
    | _ => true
  | .run _ => false
  | .stop c =>
    match c.pc with
    | .waiting => false
    | _ => true

def admissions (p : Proc) : ℕ := p.inAdmission.toNat

def rank : Proc → ℕ
  | .trigger c =>
    match c.pc with
    | .entering => 13
    | .waiting => 12
    | .checking => 11
    | .deciding => 10
    | .placing => 9
    | .reserving => 8
    | .recording => 2
    | .storing => 7
    | .releasing => 3
    | .launching _ => 6
    | .refused => 3
    | .unwinding => 2
    | .leaving => 1
  | .drain w =>
    match w.pc with
    | .expiring => 15
    | .reserving => 14
    | .acquiring => 13
    | .checking => 12
    | .choosing => 11
    | .validating _ => 10
    | .confirming _ => 9
    | .dequeuing _ => 8
    | .launching _ => 7
    | .refused _ => 4
    | .started => 3
    | .unlocking => 2
    | .settling => 1
  | .run r =>
    match r.pc with
    | .executing => 3
    | .unregistering => 2
    | .releasing => 1
  | .stop c =>
    match c.pc with
    | .waiting => 3
    | .cancelling => 2
    | .leaving => 1

def waits : Proc → Bool
  | .trigger c =>
    match c.pc with
    | .waiting => true
    | _ => false
  | .drain w =>
    match w.pc with
    | .acquiring => true
    | _ => false
  | .run _ => false
  | .stop c =>
    match c.pc with
    | .waiting => true
    | _ => false

end Proc

section

variable {o : Options} {s s' : Shared} {p : Proc} {out : List Proc}

lemma Released.admission {own : Bool} {slot : Option ℕ} (h : Released own slot s s') :
    s'.admission = s.admission := by
  cases own with
  | true => exact h.2 ▸ rfl
  | false => exact congrArg _ h

lemma TriggerStep.admissions {c : TriggerCall} (h : TriggerStep o s c s' out)
    (hp : (Proc.trigger c).inAdmission = true → s.admission = true) :
    (out.map Proc.admissions).sum + s.admission.toNat = (Proc.trigger c).admissions + s'.admission.toNat := by
  cases h with
  | released h hr =>
    rw [hr.admission]
    simp [TriggerCall.disown, Proc.admissions, Proc.inAdmission, h]
  | gaveBack h hr =>
    rw [hr.admission]
    simp [TriggerCall.goto, Proc.admissions, Proc.inAdmission, h]
  | unwound h hr =>
    rw [hr.admission]
    simp [TriggerCall.disown, Proc.admissions, Proc.inAdmission, h]
  | _ h =>
    simp_all [TriggerCall.goto, TriggerCall.disown, launched, Shared.lock, Shared.unlock, Shared.take,
      Shared.register, Proc.admissions, Proc.inAdmission]

lemma DrainMove.admissions {w : DrainStep} (h : DrainMove o s w s' out)
    (hp : (Proc.drain w).inAdmission = true → s.admission = true) :
    (out.map Proc.admissions).sum + s.admission.toNat = (Proc.drain w).admissions + s'.admission.toNat := by
  cases h with
  | gaveBack h hr =>
    rw [hr.admission]
    simp [DrainStep.goto, Proc.admissions, Proc.inAdmission, h]
  | settled h hr =>
    rw [hr.admission]
    simp [Proc.admissions, Proc.inAdmission, h]
  | _ h =>
    simp_all [DrainStep.goto, launched, Shared.lock, Shared.unlock, Shared.take, Shared.register,
      Proc.admissions, Proc.inAdmission]

lemma Local.admissions (h : Local o s p s' out) (hp : p.inAdmission = true → s.admission = true) :
    (out.map Proc.admissions).sum + s.admission.toNat = p.admissions + s'.admission.toNat := by
  cases p with
  | trigger c => exact TriggerStep.admissions h hp
  | drain w => exact DrainMove.admissions h hp
  | run r =>
    cases h with
    | released h hr =>
      rw [hr.admission]
      simp [Proc.admissions, Proc.inAdmission]
    | _ h => simp [Shared.unregister, Proc.admissions, Proc.inAdmission]
  | stop c => cases h <;> simp_all [Shared.lock, Shared.unlock, Proc.admissions, Proc.inAdmission]

lemma Local.rank (h : Local o s p s' out) : (out.map Proc.rank).sum < p.rank := by
  cases p with
  | trigger c => cases h <;> simp_all [TriggerCall.goto, TriggerCall.disown, launched, Proc.rank]
  | drain w => cases h <;> simp_all [DrainStep.goto, launched, Proc.rank]
  | run r | stop c => cases h <;> simp_all [Proc.rank]

lemma exists_released (own : Bool) (slot : Option ℕ) (h : own = true → 0 < s.tokens) :
    ∃ s', Released own slot s s' := by
  cases own with
  | true => exact ⟨_, h rfl, rfl⟩
  | false => exact ⟨s, rfl⟩

lemma TriggerStep.exists {c : TriggerCall} (ht : c.owns = true → 0 < s.tokens)
    (hw : (Proc.trigger c).waits = true → s.admission = false) : ∃ s' out, TriggerStep o s c s' out := by
  cases hpc : c.pc with
  | entering =>
    cases hc : s.closing with
    | true => exact ⟨_, _, .shut hpc hc⟩
    | false => exact ⟨_, _, .entered hpc hc⟩
  | waiting => exact ⟨_, _, .admitted hpc (hw (by simp [Proc.waits, hpc]))⟩
  | checking =>
    cases hc : s.closing with
    | true => exact ⟨_, _, .closed hpc hc⟩
    | false => exact ⟨_, _, .proceed hpc hc⟩
  | deciding =>
    by_cases hd : c.ctxDone = true ∨ c.d.enabled = false
    · exact ⟨_, _, .declined hpc hd⟩
    · have hgo : c.ctxDone = false ∧ c.d.enabled = true := by simpa using hd
      cases hk : c.d.isJob with
      | false => exact ⟨_, _, .worker hpc hgo hk⟩
      | true =>
        by_cases ho : c.d.skipOverlap = true ∧ 0 < s.activeOf c.d.name
        · exact ⟨_, _, .overlap hpc hgo hk ho⟩
        · exact ⟨_, _, .job hpc hgo hk ho⟩
  | placing => exact ⟨_, _, .direct hpc⟩
  | reserving =>
    rcases lt_or_ge s.tokens o.slots with hlt | hge
    · exact ⟨_, _, .reserved hpc hlt⟩
    · by_cases hr : queueable o c.trigger = true ∨ c.trigger ≠ .retry
      · exact ⟨_, _, .full hpc hge hr⟩
      · exact ⟨_, _, .deferredRetry hpc hge (by simpa using hr)⟩
  | recording => exact ⟨_, _, .recorded hpc⟩
  | storing => exact ⟨_, _, .stored hpc⟩
  | releasing =>
    obtain ⟨s', hr⟩ := exists_released c.capacityOwned c.slot fun h => ht (by simp [TriggerCall.owns, hpc, h])
    exact ⟨s', _, .released hpc hr⟩
  | launching recorded =>
    cases hc : s.closing with
    | true => exact ⟨_, _, .refused hpc hc⟩
    | false => exact ⟨_, _, .registered hpc hc⟩
  | refused =>
    obtain ⟨s', hr⟩ := exists_released c.d.isJob c.slot fun h => ht (by simp [TriggerCall.owns, hpc, h])
    exact ⟨s', _, .gaveBack hpc hr⟩
  | unwinding =>
    obtain ⟨s', hr⟩ := exists_released c.capacityOwned c.slot fun h => ht (by simp [TriggerCall.owns, hpc, h])
    exact ⟨s', _, .unwound hpc hr⟩
  | leaving => exact ⟨_, _, .left hpc⟩

lemma DrainMove.exists {w : DrainStep} (ht : w.owns = true → 0 < s.tokens)
    (hw : (Proc.drain w).waits = true → s.admission = false) : ∃ s' out, DrainMove o s w s' out := by
  cases hpc : w.pc with
  | expiring => exact ⟨_, _, .idle hpc⟩
  | reserving =>
    rcases lt_or_ge s.tokens o.slots with hlt | hge
    · exact ⟨_, _, .reserved hpc hlt⟩
    · exact ⟨_, _, .full hpc hge⟩
  | acquiring => exact ⟨_, _, .admitted hpc (hw (by simp [Proc.waits, hpc]))⟩
  | checking =>
    cases hc : s.closing with
    | true => exact ⟨_, _, .closed hpc hc⟩
    | false => exact ⟨_, _, .proceed hpc hc⟩
  | choosing => exact ⟨_, _, .none hpc⟩
  | validating d => exact ⟨_, _, .dropped hpc⟩
  | confirming d =>
    cases hc : s.closing with
    | true => exact ⟨_, _, .stopping hpc hc⟩
    | false => exact ⟨_, _, .confirmed hpc hc⟩
  | dequeuing d => exact ⟨_, _, .kept hpc⟩
  | launching d =>
    cases hc : s.closing with
    | true => exact ⟨_, _, .refused hpc hc⟩
    | false => exact ⟨_, _, .registered hpc hc⟩
  | refused d =>
    obtain ⟨s', hr⟩ := exists_released d.isJob w.slot fun _ => ht (by simp [DrainStep.owns, hpc])
    exact ⟨s', _, .gaveBack hpc hr⟩
  | started => exact ⟨_, _, .consumed hpc⟩
  | unlocking => exact ⟨_, _, .unlocked hpc⟩
  | settling =>
    obtain ⟨s', hr⟩ :=
      exists_released (!w.consumedSlot) w.slot fun h => ht (by simpa [DrainStep.owns, hpc] using h)
    exact ⟨s', _, .settled hpc hr⟩

lemma Local.exists (ht : p.owns = true → 0 < s.tokens) (hw : p.waits = true → s.admission = false) :
    ∃ s' out, Local o s p s' out := by
  cases p with
  | trigger c => exact TriggerStep.exists ht hw
  | drain w => exact DrainMove.exists ht hw
  | run r =>
    cases hpc : r.pc with
    | executing => exact ⟨_, _, RunStep.completed hpc⟩
    | unregistering => exact ⟨_, _, RunStep.unregistered hpc⟩
    | releasing =>
      obtain ⟨s', hr⟩ := exists_released r.d.isJob r.slot fun h => ht h
      exact ⟨s', _, RunStep.released hpc hr⟩
  | stop c =>
    cases hpc : c.pc with
    | waiting => exact ⟨_, _, StopStep.admitted hpc (hw (by simp [Proc.waits, hpc]))⟩
    | cancelling => exact ⟨_, _, StopStep.cancelled hpc⟩
    | leaving => exact ⟨_, _, StopStep.left hpc⟩

lemma waits_of_inAdmission (h : p.inAdmission = true) : p.waits = false := by
  cases p with
  | trigger c => cases hpc : c.pc <;> simp_all [Proc.inAdmission, Proc.waits]
  | drain w => cases hpc : w.pc <;> simp_all [Proc.inAdmission, Proc.waits]
  | run r => rfl
  | stop c => cases hpc : c.pc <;> simp_all [Proc.inAdmission, Proc.waits]

end

def issued (n : ℕ) : Multiset (Option ℕ) := (Multiset.range n).map some

def Proc.isRun : Proc → Bool
  | .run _ => true
  | _ => false

namespace State

def unreleasedRuns (c : State) : ℕ := c.procs.countP fun p => p.isRun && p.owns

def reservations (c : State) : ℕ := c.procs.countP fun p => !p.isRun && p.owns

lemma card_held (c : State) : (c.total Proc.held).card = c.unreleasedRuns + c.reservations := by
  obtain ⟨s, procs⟩ := c
  simp only [Config.total, unreleasedRuns, reservations]
  induction procs with
  | nil => rfl
  | cons p procs ih =>
    have hp : p.held.card = p.owns.toNat := by cases ho : p.owns <;> simp [Proc.held, ho]
    rw [List.map_cons, List.sum_cons, Multiset.card_add, ih, hp, List.countP_cons, List.countP_cons]
    cases p.isRun <;> cases p.owns <;> simp <;> omega

lemma card_held_pos {c : State} {p : Proc} (hp : p ∈ c.procs) (h : p.owns = true) :
    0 < (c.total Proc.held).card := by
  rw [card_held]
  cases hr : p.isRun with
  | true =>
    have : 0 < c.unreleasedRuns := List.countP_pos_iff.mpr ⟨p, hp, by simp [hr, h]⟩
    omega
  | false =>
    have : 0 < c.reservations := List.countP_pos_iff.mpr ⟨p, hp, by simp [hr, h]⟩
    omega

end State

structure Conserved (o : Options) (c : State) : Prop where
  valid : ∀ p ∈ c.procs, p.Valid
  slots : c.total Proc.held + (c.shared.returned : Multiset (Option ℕ)) = issued c.shared.taken
  tokens : c.shared.tokens + c.shared.returned.length = c.shared.taken
  bounded : c.shared.tokens ≤ o.slots
  admission : c.total Proc.admissions = c.shared.admission.toNat

section

variable {o : Options} {c c' : State} {p : Proc}

lemma issued_succ (n : ℕ) : issued (n + 1) = {some n} + issued n := by simp [issued, Multiset.range_succ]

lemma nodup_issued (n : ℕ) : (issued n).Nodup := (Multiset.nodup_range n).map (Option.some_injective ℕ)

lemma mem_issued {n : ℕ} {x : Option ℕ} : x ∈ issued n ↔ ∃ k < n, x = some k := by
  simp [issued, eq_comm]

lemma le_total (w : Proc → ℕ) (hp : p ∈ c.procs) : w p ≤ c.total w :=
  List.single_le_sum (fun _ _ => Nat.zero_le _) _ (List.mem_map_of_mem hp)

lemma Conserved.admission_of_mem (hc : Conserved o c) (hp : p ∈ c.procs) (h : p.inAdmission = true) :
    c.shared.admission = true := by
  have hle := le_total Proc.admissions hp
  rw [hc.admission, Proc.admissions, h] at hle
  cases ha : c.shared.admission with
  | true => rfl
  | false => simp [ha] at hle

lemma Conserved.internal (h : Interleave (Local o) c c') (hc : Conserved o c) : Conserved o c' := by
  obtain ⟨p, out, hp, hl, htotal⟩ := h.total Proc.held
  obtain ⟨q, outq, hq, hlq, hadm⟩ := h.total Proc.admissions
  have hslots := hc.slots
  have htokens := hc.tokens
  have hbounded := hc.bounded
  have hvalid : ∀ p ∈ c'.procs, p.Valid := h.forall_procs (fun _ _ _ _ => Local.valid_out) hc.valid
  have hadmission : c'.total Proc.admissions = c'.shared.admission.toNat := by
    have := Local.admissions hlq (hc.admission_of_mem hq)
    have := hc.admission
    omega
  rw [show (out.map Proc.held).sum = heldBy out from rfl] at htotal
  cases Local.slots hl (hc.valid p hp) with
  | keep hs hh =>
    simp only [Shared.slots, Prod.mk.injEq] at hs
    rw [hh, add_left_inj] at htotal
    refine ⟨hvalid, ?_, ?_, ?_, hadmission⟩
    · rw [htotal, hs.2.2, hs.2.1]
      exact hslots
    · rw [hs.1, hs.2.1, hs.2.2]
      exact htokens
    · rw [hs.1]
      exact hbounded
  | take ht hs hp hout =>
    simp only [Shared.slots, Prod.mk.injEq] at hs
    rw [hp, hout, add_zero] at htotal
    refine ⟨hvalid, ?_, ?_, ?_, hadmission⟩
    · rw [htotal, hs.2.2, hs.2.1, issued_succ, ← hslots]
      abel
    · rw [hs.1, hs.2.1, hs.2.2]
      omega
    · rw [hs.1]
      exact ht
  | release slot ht hs hp hout =>
    simp only [Shared.slots, Prod.mk.injEq] at hs
    rw [hp, hout, add_zero] at htotal
    refine ⟨hvalid, ?_, ?_, ?_, hadmission⟩
    · rw [hs.2.2, hs.2.1, ← hslots, ← htotal, ← Multiset.coe_add, Multiset.coe_singleton]
      abel
    · rw [hs.1, hs.2.1, hs.2.2, List.length_append, List.length_singleton]
      omega
    · rw [hs.1]
      omega

lemma Conserved.spawn (hc : Conserved o c) (hv : p.Valid) (hh : p.held = 0) (ha : p.admissions = 0) :
    Conserved o (c.spawn p) := by
  refine ⟨?_, ?_, hc.tokens, hc.bounded, ?_⟩
  · intro q hq
    rcases List.mem_append.mp hq with hq | hq
    · exact hc.valid q hq
    · exact List.mem_singleton.mp hq ▸ hv
  · rw [Config.total_spawn, hh, add_zero]
    exact hc.slots
  · rw [Config.total_spawn, ha, add_zero]
    exact hc.admission

lemma Expires.frame {s s' : Shared} {p : Proc} {out : List Proc} (h : Expires s p s' out) :
    s' = s ∧ (out.map Proc.held).sum = p.held ∧ (out.map Proc.admissions).sum = p.admissions ∧
      (p.Valid → ∀ q ∈ out, q.Valid) := by
  cases h with
  | trigger c =>
    simp [Proc.held, Proc.owns, Proc.slot, TriggerCall.owns, Proc.admissions, Proc.inAdmission, Proc.Valid,
      TriggerCall.Valid]
  | stop c => simp [Proc.held, Proc.owns, Proc.slot, Proc.admissions, Proc.inAdmission, Proc.Valid]

lemma Conserved.expire (h : Interleave Expires c c') (hc : Conserved o c) : Conserved o c' := by
  obtain ⟨p, out, _, hl, htotal⟩ := h.total Proc.held
  obtain ⟨q, outq, _, hlq, hadm⟩ := h.total Proc.admissions
  obtain ⟨hshared, hheld, _⟩ := hl.frame
  rw [hheld, add_left_inj] at htotal
  rw [hlq.frame.2.2.1, add_left_inj] at hadm
  refine ⟨h.forall_procs (fun _ _ _ _ hl => hl.frame.2.2.2) hc.valid, ?_, ?_, ?_, ?_⟩
  · rw [htotal, hshared]
    exact hc.slots
  · rw [hshared]
    exact hc.tokens
  · rw [hshared]
    exact hc.bounded
  · rw [hadm, hshared]
    exact hc.admission

lemma Step.conserved {e : Event} (h : Step o c e c') (hc : Conserved o c) : Conserved o c' := by
  cases h with
  | internal h => exact hc.internal h
  | trigger d trigger keyed | wake => exact hc.spawn rfl rfl rfl
  | stop => exact hc.spawn trivial rfl rfl
  | expire h => exact hc.expire h
  | shutdown => exact ⟨hc.valid, hc.slots, hc.tokens, hc.bounded, hc.admission⟩

lemma conserved_initial : Conserved o State.initial := by
  refine ⟨?_, rfl, rfl, Nat.zero_le _, rfl⟩
  simp [State.initial]

lemma Conserved.card_held (hc : Conserved o c) : (c.total Proc.held).card = c.shared.tokens := by
  have hcard := congrArg Multiset.card hc.slots
  have htokens := hc.tokens
  simp only [Multiset.card_add, Multiset.coe_card, issued, Multiset.card_map, Multiset.card_range] at hcard
  omega

lemma Conserved.tokens_pos (hc : Conserved o c) (hp : p ∈ c.procs) (h : p.owns = true) :
    0 < c.shared.tokens := by
  rw [← hc.card_held]
  exact State.card_held_pos hp h

lemma Conserved.exists_internal (hc : Conserved o c) (hne : c.procs ≠ []) : ∃ c', Interleave (Local o) c c' := by
  obtain ⟨p, hp⟩ := List.exists_mem_of_ne_nil _ hne
  by_cases hw : p.waits = true ∧ c.shared.admission = true
  · have hpos : c.total Proc.admissions ≠ 0 := by
      rw [hc.admission, hw.2]
      decide
    obtain ⟨n, hn, hn0⟩ := List.exists_mem_ne_zero_of_sum_ne_zero hpos
    obtain ⟨q, hq, rfl⟩ := List.mem_map.mp hn
    have hin : q.inAdmission = true := by
      cases hin : q.inAdmission with
      | true => rfl
      | false => simp [Proc.admissions, hin] at hn0
    obtain ⟨s', out, hl⟩ := Local.exists (o := o) (hc.tokens_pos hq) fun h => by
      simp [waits_of_inAdmission hin] at h
    exact Interleave.of_mem hq hl
  · obtain ⟨s', out, hl⟩ := Local.exists (o := o) (hc.tokens_pos hp) fun h => by
      simpa [h] using hw
    exact Interleave.of_mem hp hl

lemma rank_lt (h : Interleave (Local o) c c') : c'.total Proc.rank < c.total Proc.rank := by
  obtain ⟨p, out, _, hl, htotal⟩ := h.total Proc.rank
  have := Local.rank hl
  omega

lemma steps_le_rank {steps : List Unit} (h : Run (fun a _ b => Interleave (Local o) a b) c steps c') :
    steps.length + c'.total Proc.rank ≤ c.total Proc.rank := by
  induction h with
  | nil => simp
  | cons hstep _ ih =>
    have := rank_lt hstep
    rw [List.length_cons]
    omega

lemma Conserved.releases_held (hc : Conserved o c) (h : Interleave (Local o) c c')
    (hne : c'.shared.returned ≠ c.shared.returned) :
    ∃ slot, c'.shared.returned = c.shared.returned ++ [slot] ∧
      c.total Proc.held = slot ::ₘ c'.total Proc.held := by
  obtain ⟨p, out, hp, hl, htotal⟩ := h.total Proc.held
  cases Local.slots hl (hc.valid p hp) with
  | keep hs | take _ hs => exact (hne (congrArg (·.2.2) hs)).elim
  | release slot _ hs hheld hout =>
    refine ⟨slot, congrArg (·.2.2) hs, ?_⟩
    rw [show (out.map Proc.held).sum = heldBy out from rfl, hheld, hout, add_zero] at htotal
    rw [← htotal, add_comm, Multiset.singleton_add]

end

theorem slots_conserved {o : Options} {events : List Event} {c : State} (h : Run (Step o) State.initial events c) :
    c.shared.tokens = c.unreleasedRuns + c.reservations ∧ c.shared.tokens ≤ o.slots ∧
      c.shared.returned.Nodup ∧ (∀ slot ∈ c.shared.returned, ∃ n < c.shared.taken, slot = some n) ∧
      (∀ c', Interleave (Local o) c c' → c'.shared.returned ≠ c.shared.returned →
        ∃ slot, c'.shared.returned = c.shared.returned ++ [slot] ∧
        c.total Proc.held = slot ::ₘ c'.total Proc.held) ∧
      ∀ (steps : List Unit) (c' : State), Run (fun a _ b => Interleave (Local o) a b) c steps c' →
        steps.length ≤ c.total Proc.rank ∧
          ((∀ d, ¬ Interleave (Local o) c' d) →
            c'.procs = [] ∧ (c'.shared.returned : Multiset (Option ℕ)) = issued c'.shared.taken) := by
  have hc : Conserved o c := h.invariant (fun _ _ _ hstep => hstep.conserved) conserved_initial
  have hle : (c.shared.returned : Multiset (Option ℕ)) ≤ issued c.shared.taken := by
    rw [← hc.slots]
    exact Multiset.le_add_left _ _
  refine ⟨hc.card_held ▸ c.card_held, hc.bounded, ?_, fun slot hslot => ?_, fun c' hstep hne => ?_,
    fun steps c' hrun => ⟨?_, fun hstuck => ?_⟩⟩
  · exact Multiset.coe_nodup.mp (Multiset.nodup_of_le hle (nodup_issued _))
  · exact mem_issued.mp (Multiset.mem_of_le hle (Multiset.mem_coe.mpr hslot))
  · exact hc.releases_held hstep hne
  · have := steps_le_rank hrun
    omega
  · have hc' : Conserved o c' := hrun.invariant (fun _ _ _ hstep hs => hs.internal hstep) hc
    have hprocs : c'.procs = [] := by
      by_contra hne
      obtain ⟨d, hd⟩ := hc'.exists_internal hne
      exact hstuck d hd
    refine ⟨hprocs, ?_⟩
    have hslots := hc'.slots
    rwa [Config.total, hprocs, List.map_nil, List.sum_nil, zero_add] at hslots

def oneSlot : Options := ⟨1, false⟩

def nightly : Spec := ⟨"nightly", .job, true, true, false⟩

def nightlyCall : TriggerCall := ⟨nightly, .manual, false, false, false, some 0, .launching true⟩

def nightlyReady : State := ⟨⟨1, true, false, [], 0, 1, []⟩, [.trigger nightlyCall]⟩

def nightlyRun : Proc := .run ⟨0, nightly, some 0, .executing⟩

def nightlyLaunched : State where
  shared := ⟨1, true, false, [(0, "nightly")], 1, 1, []⟩
  procs := [.trigger { nightlyCall with pc := .unwinding }, nightlyRun]

lemma nightly_ready {o : Options} (ho : 0 < o.slots) :
    Run (Step o) State.initial (.trigger nightly .manual false :: List.replicate 7 .internal) nightlyReady :=
  .cons (.trigger _ nightly .manual false) <|
  .cons (.internal (.mk [] [] (TriggerStep.entered rfl rfl))) <|
  .cons (.internal (.mk [] [] (TriggerStep.admitted rfl rfl))) <|
  .cons (.internal (.mk [] [] (TriggerStep.proceed rfl rfl))) <|
  .cons (.internal (.mk [] [] (TriggerStep.job rfl ⟨rfl, rfl⟩ rfl (by decide)))) <|
  .cons (.internal (.mk [] [] (TriggerStep.direct rfl))) <|
  .cons (.internal (.mk [] [] (TriggerStep.reserved rfl ho))) <|
  .cons (.internal (.mk [] [] (TriggerStep.stored rfl))) <|
  .nil _

lemma nightly_registers {o : Options} : Step o nightlyReady .internal nightlyLaunched := by
  have hlocal : Local o nightlyReady.shared (.trigger nightlyCall) nightlyLaunched.shared nightlyLaunched.procs :=
    TriggerStep.registered (c := nightlyCall) rfl rfl
  exact .internal (.mk [] [] hlocal)

lemma nightly_launched :
    Run (Step oneSlot) State.initial (.trigger nightly .manual false :: List.replicate 8 .internal)
      nightlyLaunched :=
  (nightly_ready (by decide)).append (.cons nightly_registers (.nil _))

theorem slots_conserved_nightly :
    nightlyLaunched.shared.tokens = nightlyLaunched.unreleasedRuns + nightlyLaunched.reservations ∧
      nightlyLaunched.shared.tokens ≤ oneSlot.slots :=
  ⟨(slots_conserved nightly_launched).1, (slots_conserved nightly_launched).2.1⟩

end Minicrond.Executor
