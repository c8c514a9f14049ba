import Minicrond.Executor.Conservation

/-! A job that skips overlapping runs is registered only while no run of its name is: the check and the
registration lie inside one admission. -/

namespace Minicrond.Executor

open Minicrond.Library Minicrond.Store

def Spec.skips (d : Spec) : Bool := d.isJob && d.skipOverlap

namespace Proc

def cleared : Proc → Option Spec
  | .trigger c =>
    match c.pc with
    | .placing | .reserving | .storing | .launching _ => some c.d
    | _ => none
  | .drain w =>
    match w.pc with
    | .confirming d | .dequeuing d | .launching d => some d
    | _ => none
  | _ => none

def launching : Proc → Option Spec
  | .trigger c =>
    match c.pc with
    | .launching _ => some c.d
    | _ => none
  | .drain w =>
    match w.pc with
    | .launching d => some d
    | _ => none
  | _ => none

def registered : Proc → Multiset (ℕ × String)
  | .run r =>
    match r.pc with
    | .releasing => 0
    | _ => {(r.id, r.d.name)}
  | _ => 0

def executes (name : String) : Proc → Bool
  | .run r =>
    match r.pc with
    | .executing => r.d.name = name
    | _ => false
  | _ => false

end Proc

def State.executing (c : State) (name : String) : ℕ := c.procs.countP (Proc.executes name)

def Registers (d : Spec) (c c' : State) : Prop :=
  c'.shared = c.shared.register d.name ∧ ∃ slot, launched c.shared d slot ∈ c'.procs

/-- While the policy of `name` stays skip, every launch of a run of that name is one of a job
that skips overlaps. -/
def SkipsOverlap (name : String) (c : State) (_ : Event) : Prop :=
  ∀ p ∈ c.procs, ∀ d, p.launching = some d → d.name = name → d.skips = true

inductive ActiveEffect (s : Shared) (p : Proc) (s' : Shared) (out : List Proc) : Prop
  | keep (hs : s'.active = s.active) (hn : s'.nextID = s.nextID)
      (hr : (out.map Proc.registered).sum = p.registered)
  | register (d : Spec) (hp : p.launching = some d) (hs : s'.active = s.active ++ [(s.nextID, d.name)])
      (hn : s'.nextID = s.nextID + 1) (hr : (out.map Proc.registered).sum = {(s.nextID, d.name)})
      (h0 : p.registered = 0) (hd : ∀ d' slot, launched s d' slot ∈ out → d' = d)
  | unregister (id : ℕ) (name : String) (hs : s'.active = s.active.filter (·.1 ≠ id)) (hn : s'.nextID = s.nextID)
      (hp : p.registered = {(id, name)}) (hr : (out.map Proc.registered).sum = 0)

section

variable {o : Options} {s s' : Shared} {p q : Proc} {out : List Proc} {d : Spec}

lemma Released.active {own : Bool} {slot : Option ℕ} (h : Released own slot s s') :
    s'.active = s.active ∧ s'.nextID = s.nextID := by
  cases own with
  | true => exact h.2 ▸ ⟨rfl, rfl⟩
  | false => exact (show s' = s from h) ▸ ⟨rfl, rfl⟩

lemma Local.active (h : Local o s p s' out) : ActiveEffect s p s' out := by
  cases p with
  | trigger c =>
    cases h with
    | registered h =>
      refine .register c.d (by simp [Proc.launching, h]) rfl rfl ?_ rfl (fun d' slot hmem => ?_)
      · simp [TriggerCall.goto, launched, Proc.registered]
      · simp only [TriggerCall.goto, launched, List.singleton_append, List.mem_cons, reduceCtorEq, Proc.run.injEq,
          JobRun.mk.injEq, List.not_mem_nil, or_false, false_or] at hmem
        exact hmem.2.1
    | released h hr =>
      obtain ⟨ha, hn⟩ := hr.active
      exact .keep ha hn (by simp [TriggerCall.disown, Proc.registered])
    | gaveBack h hr =>
      obtain ⟨ha, hn⟩ := hr.active
      exact .keep ha hn (by simp [TriggerCall.goto, Proc.registered])
    | unwound h hr =>
      obtain ⟨ha, hn⟩ := hr.active
      exact .keep ha hn (by simp [TriggerCall.disown, Proc.registered])
    | _ h => exact .keep rfl rfl (by simp [TriggerCall.goto, TriggerCall.disown, Proc.registered])
  | drain w =>
    cases h with
    | @registered d h =>
      refine .register d (by simp [Proc.launching, h]) rfl rfl ?_ rfl (fun d' slot hmem => ?_)
      · simp [DrainStep.goto, launched, Proc.registered]
      · simp only [DrainStep.goto, launched, List.singleton_append, List.mem_cons, reduceCtorEq, Proc.run.injEq,
          JobRun.mk.injEq, List.not_mem_nil, or_false, false_or] at hmem
        exact hmem.2.1
    | gaveBack h hr =>
      obtain ⟨ha, hn⟩ := hr.active
      exact .keep ha hn (by simp [DrainStep.goto, Proc.registered])
    | settled h hr =>
      obtain ⟨ha, hn⟩ := hr.active
      exact .keep ha hn (by simp [Proc.registered])
    | _ h => exact .keep rfl rfl (by simp [DrainStep.goto, Proc.registered])
  | run r =>
    cases h with
    | completed h => exact .keep rfl rfl (by simp [Proc.registered, h])
    | unregistered h =>
      exact .unregister r.id r.d.name rfl rfl (by simp [Proc.registered, h]) (by simp [Proc.registered])
    | released h hr =>
      obtain ⟨ha, hn⟩ := hr.active
      exact .keep ha hn (by simp [Proc.registered, h])
  | stop c => cases h <;> exact .keep rfl rfl (by simp [Proc.registered])

lemma Shared.activeOf_congr {name : String} (h : s'.active = s.active) : s'.activeOf name = s.activeOf name := by
  rw [Shared.activeOf, Shared.activeOf, h]

lemma Shared.activeOf_filter_le {id : ℕ} {name : String} (h : s'.active = s.active.filter (·.1 ≠ id)) :
    s'.activeOf name ≤ s.activeOf name := by
  rw [Shared.activeOf, Shared.activeOf, h]
  exact List.filter_sublist.countP_le

lemma Spec.skips_iff : d.skips = true ↔ d.isJob = true ∧ d.skipOverlap = true := by
  rw [Spec.skips, Bool.and_eq_true]

lemma Spec.activeOf_eq_zero (hd : d.skips = true)
    (ho : ¬ (d.skipOverlap = true ∧ 0 < s.activeOf d.name)) : s.activeOf d.name = 0 := by
  by_contra hne
  exact ho ⟨(Spec.skips_iff.mp hd).2, Nat.pos_of_ne_zero hne⟩

lemma TriggerStep.cleared {c : TriggerCall} (h : TriggerStep o s c s' out) (hd : d.skips = true)
    (hc : (Proc.trigger c).cleared = some d → s.activeOf d.name = 0) (hq : q ∈ out)
    (hcl : q.cleared = some d) : s'.activeOf d.name = 0 := by
  cases h with
  | job h hgo hk ho =>
    obtain rfl := List.mem_singleton.mp hq
    obtain rfl : c.d = d := by simpa [Proc.cleared] using hcl
    exact Spec.activeOf_eq_zero hd ho
  | worker h hgo hk =>
    obtain rfl := List.mem_singleton.mp hq
    obtain rfl : c.d = d := by simpa [Proc.cleared] using hcl
    simp [Spec.skips, hk] at hd
  | direct h | reserved h | stored h | deferred spooled h =>
    obtain rfl := List.mem_singleton.mp hq
    exact hc (by simpa [Proc.cleared, h] using hcl)
  | registered h =>
    simp only [TriggerCall.goto, List.singleton_append, List.mem_cons, List.not_mem_nil, or_false] at hq
    rcases hq with rfl | rfl <;> simp [Proc.cleared, launched] at hcl
  | shut | gaveUp | left => simp at hq
  | _ h =>
    obtain rfl := List.mem_singleton.mp hq
    simp [Proc.cleared] at hcl

lemma DrainMove.cleared {w : DrainStep} (h : DrainMove o s w s' out) (hd : d.skips = true)
    (hc : (Proc.drain w).cleared = some d → s.activeOf d.name = 0) (hq : q ∈ out)
    (hcl : q.cleared = some d) : s'.activeOf d.name = 0 := by
  cases h with
  | valid h hk he ho =>
    obtain rfl := List.mem_singleton.mp hq
    obtain rfl := Option.some_injective _ hcl
    exact Spec.activeOf_eq_zero hd ho
  | confirmed h | dequeued h =>
    obtain rfl := List.mem_singleton.mp hq
    exact hc (by simpa [Proc.cleared, h] using hcl)
  | registered h =>
    simp only [DrainStep.goto, List.singleton_append, List.mem_cons, List.not_mem_nil, or_false] at hq
    rcases hq with rfl | rfl <;> simp [Proc.cleared, launched] at hcl
  | idle | full | settled => simp at hq
  | _ h =>
    obtain rfl := List.mem_singleton.mp hq
    simp [Proc.cleared] at hcl

lemma Local.cleared (h : Local o s p s' out) (hd : d.skips = true)
    (hc : p.cleared = some d → s.activeOf d.name = 0) (hq : q ∈ out) (hcl : q.cleared = some d) :
    s'.activeOf d.name = 0 := by
  cases p with
  | trigger c => exact TriggerStep.cleared h hd hc hq hcl
  | drain w => exact DrainMove.cleared h hd hc hq hcl
  | run r | stop c => cases h <;> simp at hq <;> subst hq <;> simp [Proc.cleared] at hcl

lemma Proc.inAdmission_of_cleared (h : p.cleared = some d) : p.inAdmission = true := by
  cases p with
  | trigger c => cases hpc : c.pc <;> simp_all [Proc.cleared, Proc.inAdmission]
  | drain w => cases hpc : w.pc <;> simp_all [Proc.cleared, Proc.inAdmission]
  | run r | stop c => simp [Proc.cleared] at h

lemma Proc.cleared_of_launching (h : p.launching = some d) : p.cleared = some d := by
  cases p with
  | trigger c => cases hpc : c.pc <;> simp_all [Proc.cleared, Proc.launching]
  | drain w => cases hpc : w.pc <;> simp_all [Proc.cleared, Proc.launching]
  | run r | stop c => simp [Proc.launching] at h

end

structure Exclusive (c : State) : Prop where
  registry : c.total Proc.registered = (c.shared.active : Multiset (ℕ × String))
  ids : (c.shared.active.map Prod.fst).Nodup
  fresh : ∀ a ∈ c.shared.active, a.1 < c.shared.nextID
  clear : ∀ p ∈ c.procs, ∀ d, p.cleared = some d → d.skips = true → c.shared.activeOf d.name = 0

section

variable {o : Options} {c c' : State} {name : String}

lemma Conserved.alone {s : Shared} {p q : Proc} {before after : List Proc}
    (hc : Conserved o ⟨s, before ++ p :: after⟩) (hp : p.inAdmission = true) (hq : q ∈ before ++ after) :
    q.inAdmission = false := by
  have htotal := hc.admission
  have hle : q.admissions ≤ ((before ++ after).map Proc.admissions).sum :=
    List.single_le_sum (fun _ _ => Nat.zero_le _) _ (List.mem_map_of_mem hq)
  have hbool := Bool.toNat_le s.admission
  simp only [Config.total, List.map_append, List.map_cons, List.sum_append, List.sum_cons] at htotal hle
  cases h : q.inAdmission with
  | false => rfl
  | true =>
    simp only [Proc.admissions, hp, h, Bool.toNat_true] at htotal hle
    omega

lemma filter_ne_of_nodup {active : List (ℕ × String)} (h : (active.map Prod.fst).Nodup) {id : ℕ}
    (hmem : (id, name) ∈ active) :
    (active : Multiset (ℕ × String)) = {(id, name)} + (active.filter (·.1 ≠ id) : Multiset (ℕ × String)) := by
  induction active with
  | nil => simp at hmem
  | cons a active ih =>
    obtain ⟨hnot, hnodup⟩ := List.nodup_cons.mp h
    rcases List.mem_cons.mp hmem with rfl | hmem
    · have hkeep : active.filter (·.1 ≠ id) = active := by
        refine List.filter_eq_self.mpr fun b hb => ?_
        simp only [ne_eq, decide_eq_true_eq]
        rintro rfl
        exact hnot (List.mem_map.mpr ⟨b, hb, rfl⟩)
      rw [List.filter_cons_of_neg (by simp), hkeep]
      rfl
    · have hne : a.1 ≠ id := by
        rintro rfl
        exact hnot (List.mem_map.mpr ⟨_, hmem, rfl⟩)
      rw [List.filter_cons_of_pos (by simpa using hne), ← Multiset.cons_coe, ← Multiset.cons_coe, ih hnodup hmem,
        Multiset.singleton_add, Multiset.singleton_add, Multiset.cons_swap]

lemma Exclusive.registry_internal (h : Interleave (Local o) c c') (hc : Exclusive c) :
    c'.total Proc.registered = (c'.shared.active : Multiset (ℕ × String)) ∧
      (c'.shared.active.map Prod.fst).Nodup ∧ ∀ a ∈ c'.shared.active, a.1 < c'.shared.nextID := by
  obtain ⟨p, out, hp, hl, htotal⟩ := h.total Proc.registered
  rw [hc.registry] at htotal
  cases hl.active with
  | keep hs hn hr =>
    rw [hr, add_left_inj] at htotal
    exact ⟨by rw [htotal, hs], by rw [hs]; exact hc.ids, by rw [hs, hn]; exact hc.fresh⟩
  | register d hlaunch hs hn hr h0 _ =>
    rw [hr, h0, add_zero] at htotal
    refine ⟨by rw [htotal, hs, ← Multiset.coe_add, Multiset.coe_singleton], ?_, fun a ha => ?_⟩
    · rw [hs, List.map_append, List.map_singleton, List.nodup_append]
      refine ⟨hc.ids, List.nodup_singleton _, fun a ha b hb => ?_⟩
      obtain ⟨x, hx, rfl⟩ := List.mem_map.mp ha
      rw [List.mem_singleton.mp hb]
      exact (hc.fresh x hx).ne
    · rw [hs, List.mem_append, List.mem_singleton] at ha
      rw [hn]
      rcases ha with ha | rfl
      · exact Nat.lt_succ_of_lt (hc.fresh a ha)
      · exact Nat.lt_succ_self _
  | unregister id name hs hn hp0 hr =>
    rw [hr, hp0, add_zero] at htotal
    have hmem : (id, name) ∈ c.shared.active := by
      rw [← Multiset.mem_coe, ← htotal]
      exact Multiset.mem_add.mpr (.inr (Multiset.mem_singleton_self _))
    rw [filter_ne_of_nodup hc.ids hmem, add_comm, add_right_inj] at htotal
    refine ⟨by rw [htotal, hs], ?_, fun a ha => ?_⟩
    · rw [hs]
      exact hc.ids.sublist (List.filter_sublist.map _)
    · rw [hs] at ha
      rw [hn]
      exact hc.fresh a (List.mem_of_mem_filter ha)

lemma Exclusive.clear_internal (h : Interleave (Local o) c c') (hadm : Conserved o c) (hc : Exclusive c) :
    ∀ p ∈ c'.procs, ∀ d, p.cleared = some d → d.skips = true → c'.shared.activeOf d.name = 0 := by
  intro q hq d hcl hd
  cases h with
  | @mk s s' p out before after h =>
    have hin : p ∈ before ++ p :: after := List.mem_append_right _ List.mem_cons_self
    have hsplit : q ∈ out ∨ q ∈ before ++ after := by
      simp only [List.mem_append] at hq ⊢
      tauto
    rcases hsplit with hq | hq
    · exact h.cleared hd (fun hp => hc.clear p hin d hp hd) hq hcl
    · -- Only the process inside the admission registers runs, and that is `q`.
      have hold : s.activeOf d.name = 0 := by
        refine hc.clear q ?_ d hcl hd
        simp only [List.mem_append, List.mem_cons] at hq ⊢
        tauto
      cases h.active with
      | keep hs => exact (Shared.activeOf_congr hs).trans hold
      | register d' hlaunch =>
        have := hadm.alone (Proc.inAdmission_of_cleared (Proc.cleared_of_launching hlaunch)) hq
        rw [Proc.inAdmission_of_cleared hcl] at this
        exact absurd this (by decide)
      | unregister id name hs => exact Nat.le_zero.mp (hold ▸ Shared.activeOf_filter_le hs)

lemma Exclusive.internal (h : Interleave (Local o) c c') (hadm : Conserved o c) (hc : Exclusive c) :
    Exclusive c' := by
  obtain ⟨hregistry, hids, hfresh⟩ := hc.registry_internal h
  exact ⟨hregistry, hids, hfresh, hc.clear_internal h hadm⟩

lemma Exclusive.spawn (hc : Exclusive c) {p : Proc} (hr : p.registered = 0) (hcl : p.cleared = none) :
    Exclusive (c.spawn p) := by
  refine ⟨?_, hc.ids, hc.fresh, fun q hq d hd hs => ?_⟩
  · rw [Config.total_spawn, hr, add_zero]
    exact hc.registry
  · rcases List.mem_append.mp hq with hq | hq
    · exact hc.clear q hq d hd hs
    · rw [List.mem_singleton.mp hq, hcl] at hd
      exact absurd hd (by simp)

lemma Exclusive.expire (h : Interleave Expires c c') (hc : Exclusive c) : Exclusive c' := by
  obtain ⟨p, out, _, hl, htotal⟩ := h.total Proc.registered
  have hframe : ∀ {s s' : Shared} {p : Proc} {out : List Proc}, Expires s p s' out →
      s' = s ∧ (out.map Proc.registered).sum = p.registered ∧ ∀ q ∈ out, q.cleared = p.cleared := by
    intro s s' p out h
    cases h <;> simp [Proc.registered, Proc.cleared]
  obtain ⟨hshared, hr, _⟩ := hframe hl
  rw [hr, add_left_inj] at htotal
  refine ⟨?_, ?_, ?_, ?_⟩
  · rw [htotal, hshared]
    exact hc.registry
  · rw [hshared]
    exact hc.ids
  · rw [hshared]
    exact hc.fresh
  · rw [hshared]
    refine h.forall_procs (P := fun p => ∀ d, p.cleared = some d → d.skips = true → c.shared.activeOf d.name = 0)
      (fun _ _ _ _ hl hp q hq d hd => ?_) hc.clear
    rw [(hframe hl).2.2 q hq] at hd
    exact hp d hd

lemma Step.exclusive {e : Event} (h : Step o c e c') (hadm : Conserved o c) (hc : Exclusive c) : Exclusive c' := by
  cases h with
  | internal h => exact hc.internal h hadm
  | trigger | wake | stop => exact hc.spawn rfl rfl
  | expire h => exact hc.expire h
  | shutdown => exact ⟨hc.registry, hc.ids, hc.fresh, hc.clear⟩

lemma exclusive_initial : Exclusive State.initial :=
  ⟨rfl, List.nodup_nil, by simp [State.initial], by simp [State.initial]⟩

lemma Exclusive.executing_le (hc : Exclusive c) (name : String) : c.executing name ≤ c.shared.activeOf name := by
  have hcount : c.shared.activeOf name = (c.total Proc.registered).countP (·.2 = name) := by
    rw [hc.registry, Multiset.coe_countP, Shared.activeOf]
  rw [hcount]
  obtain ⟨s, procs⟩ := c
  simp only [State.executing, Config.total]
  clear hc hcount
  induction procs with
  | nil => simp
  | cons p procs ih =>
    have hp : (p.executes name).toNat ≤ p.registered.countP (·.2 = name) := by
      cases p with
      | run r =>
        cases hpc : r.pc with
        | executing =>
          by_cases hn : r.d.name = name
          · simp only [Proc.executes, Proc.registered, hpc, hn, decide_true, Bool.toNat_true]
            exact Multiset.countP_pos.mpr ⟨_, Multiset.mem_singleton_self _, rfl⟩
          · simp [Proc.executes, hpc, hn]
        | unregistering | releasing => simp [Proc.executes, hpc]
      | _ => simp [Proc.executes]
    rw [List.countP_cons, List.map_cons, List.sum_cons, Multiset.countP_add]
    cases h : p.executes name <;> simp only [h, Bool.toNat_true, Bool.toNat_false] at hp <;> simp <;> omega

/-! ## Registration and execution of a job that skips overlaps -/

lemma Exclusive.launched_not_mem (hc : Exclusive c) (d : Spec) (slot : Option ℕ) :
    launched c.shared d slot ∉ c.procs := by
  intro hmem
  have hle : Proc.registered (launched c.shared d slot) ≤ c.total Proc.registered := by
    obtain ⟨before, after, hsplit⟩ := List.append_of_mem hmem
    rw [Config.total, hsplit, List.map_append, List.map_cons, List.sum_append, List.sum_cons, add_left_comm]
    exact Multiset.le_add_right _ _
  rw [hc.registry] at hle
  exact lt_irrefl _ (hc.fresh _ (Multiset.mem_coe.mp (Multiset.mem_of_le hle (Multiset.mem_singleton_self _))))

lemma Exclusive.activeOf_of_registers {e : Event} {d : Spec} (hc : Exclusive c) (h : Step o c e c')
    (hreg : Registers d c c') (hd : d.skips = true) : c.shared.activeOf d.name = 0 := by
  obtain ⟨hshared, slot, hmem⟩ := hreg
  have hnext : c'.shared.nextID = c.shared.nextID + 1 := congrArg Shared.nextID hshared
  cases h with
  | internal h =>
    have hnew := hc.launched_not_mem d slot
    cases h with
    | @mk s s' p out before after h =>
      cases h.active with
      | keep _ hn | unregister _ _ _ hn => exact absurd (hn.symm.trans hnext) (Nat.succ_ne_self _).symm
      | register d' hlaunch _ _ _ _ hout =>
        have hmem' : launched s d slot ∈ out := by
          simp only [List.mem_append, List.mem_cons] at hmem hnew
          tauto
        obtain rfl := hout d slot hmem'
        exact hc.clear p (List.mem_append_right _ List.mem_cons_self) d (Proc.cleared_of_launching hlaunch) hd
  | trigger | wake | stop => simp [Config.spawn] at hnext
  | expire h =>
    obtain ⟨p, out, _, hl, _⟩ := h.total Proc.registered
    rw [hl.frame.1] at hnext
    exact absurd hnext (Nat.succ_ne_self _).symm
  | shutdown => simp at hnext

lemma Exclusive.activeOf_step {e : Event} (hc : Exclusive c) (h : Step o c e c')
    (hpolicy : SkipsOverlap name c e) : c'.shared.activeOf name ≤ max 1 (c.shared.activeOf name) := by
  cases h with
  | internal h =>
    obtain ⟨p, out, hp, hl, _⟩ := h.total Proc.registered
    cases hl.active with
    | keep hs => exact (Shared.activeOf_congr hs).le.trans (le_max_right _ _)
    | unregister id _ hs => exact (Shared.activeOf_filter_le hs).trans (le_max_right _ _)
    | register d hlaunch hs =>
      have hcount : c'.shared.activeOf name = c.shared.activeOf name + if d.name = name then 1 else 0 := by
        rw [Shared.activeOf, Shared.activeOf, hs, List.countP_append, List.countP_singleton]
        simp
      by_cases hn : d.name = name
      · -- The registered run is one of a job that skips overlaps, so no other run of the name is registered.
        have hzero := hc.clear p hp d (Proc.cleared_of_launching hlaunch) (hpolicy p hp d hlaunch hn)
        rw [hn] at hzero
        rw [hcount, hzero, if_pos hn]
        exact le_max_left _ _
      · rw [hcount, if_neg hn]
        exact le_max_right _ _
  | trigger | wake | stop => exact le_max_right _ _
  | expire h =>
    obtain ⟨p, out, _, hl, _⟩ := h.total Proc.registered
    rw [hl.frame.1]
    exact le_max_right _ _
  | shutdown => exact le_max_right _ _

lemma exclusive_run {events : List Event} (h : Run (Step o) c events c') (hc : Conserved o c ∧ Exclusive c) :
    Conserved o c' ∧ Exclusive c' :=
  Run.invariant (P := fun c => Conserved o c ∧ Exclusive c)
    (fun _ _ _ hstep hs => ⟨hstep.conserved hs.1, hstep.exclusive hs.1 hs.2⟩) h hc

lemma Exclusive.activeOf_run {events : List Event} (hc : Conserved o c ∧ Exclusive c)
    (h : Run (guarded (Step o) (SkipsOverlap name)) c events c') :
    Exclusive c' ∧ c'.shared.activeOf name ≤ max 1 (c.shared.activeOf name) := by
  have hrun := Run.invariant
    (P := fun d => (Conserved o d ∧ Exclusive d) ∧ d.shared.activeOf name ≤ max 1 (c.shared.activeOf name))
    (fun s e t hstep hs => ?_) h ⟨hc, le_max_right _ _⟩
  · exact ⟨hrun.1.2, hrun.2⟩
  · obtain ⟨hpolicy, hstep⟩ := hstep
    obtain ⟨⟨hadm, hex⟩, hle⟩ := hs
    have := hex.activeOf_step hstep hpolicy
    exact ⟨⟨hstep.conserved hadm, hstep.exclusive hadm hex⟩, by omega⟩

end

theorem overlap_skip_exclusive {o : Options} {events : List Event} {c : State}
    (h : Run (Step o) State.initial events c) :
    (∀ e c' d, Step o c e c' → Registers d c c' → d.isJob = true → d.skipOverlap = true →
      c.shared.activeOf d.name = 0) ∧
      ∀ name later c', Run (guarded (Step o) (SkipsOverlap name)) c later c' →
        c'.executing name ≤ max 1 (c.shared.activeOf name) ∧
          (c.shared.activeOf name ≤ 1 → c'.shared.activeOf name ≤ 1 ∧ c'.executing name ≤ 1) := by
  have hc := exclusive_run h ⟨conserved_initial, exclusive_initial⟩
  refine ⟨fun e c' d hstep hreg hk hs => ?_, fun name later c' hrun => ?_⟩
  · exact hc.2.activeOf_of_registers hstep hreg (Spec.skips_iff.mpr ⟨hk, hs⟩)
  · obtain ⟨hex, hle⟩ := Exclusive.activeOf_run hc hrun
    have hexec := hex.executing_le name
    exact ⟨by omega, fun hone => ⟨by omega, by omega⟩⟩

def twoSlots : Options := ⟨2, false⟩

def nightlySkipped : State where
  shared := nightlyLaunched.shared
  procs := [nightlyRun, .trigger ⟨nightly, .manual, false, false, false, none, .recording⟩]

lemma SkipsOverlap.of_all {name : String} {c : State} {e : Event}
    (h : ∀ p ∈ c.procs, p.launching.all Spec.skips = true) : SkipsOverlap name c e := by
  intro p hp d hd _
  have hall := h p hp
  rwa [hd] at hall

lemma nightly_skipped :
    Run (guarded (Step twoSlots) (SkipsOverlap "nightly")) nightlyReady
      [.internal, .internal, .internal, .trigger nightly .manual false, .internal, .internal, .internal, .internal]
      nightlySkipped :=
  .cons ⟨.of_all (by decide), nightly_registers⟩ <|
  .cons ⟨.of_all (by decide), .internal (.mk [] [nightlyRun] (TriggerStep.unwound rfl rfl))⟩ <|
  .cons ⟨.of_all (by decide), .internal (.mk [] [nightlyRun] (TriggerStep.left rfl))⟩ <|
  .cons ⟨.of_all (by decide), .trigger _ nightly .manual false⟩ <|
  .cons ⟨.of_all (by decide), .internal (.mk [nightlyRun] [] (TriggerStep.entered rfl rfl))⟩ <|
  .cons ⟨.of_all (by decide), .internal (.mk [nightlyRun] [] (TriggerStep.admitted rfl rfl))⟩ <|
  .cons ⟨.of_all (by decide), .internal (.mk [nightlyRun] [] (TriggerStep.proceed rfl rfl))⟩ <|
  .cons ⟨.of_all (by decide), .internal (.mk [nightlyRun] []
    (TriggerStep.overlap rfl ⟨rfl, rfl⟩ rfl ⟨rfl, by decide⟩))⟩ <|
  .nil _

/-- A second trigger comes while the run of the first executes and a slot is free: it is recorded as skipped. -/
theorem overlap_skip_exclusive_nightly :
    nightlyReady.shared.activeOf "nightly" = 0 ∧ nightlySkipped.shared.tokens < twoSlots.slots ∧
      nightlySkipped.shared.activeOf "nightly" ≤ 1 ∧ nightlySkipped.executing "nightly" ≤ 1 := by
  obtain ⟨hregister, hlater⟩ := overlap_skip_exclusive (nightly_ready (o := twoSlots) (by decide))
  refine ⟨hregister _ _ nightly nightly_registers ⟨rfl, some 0, ?_⟩ rfl rfl, by decide, ?_⟩
  · simp [nightlyLaunched, launched, nightlyReady, nightlyRun]
  · exact (hlater "nightly" _ _ nightly_skipped).2 (by decide)

end Minicrond.Executor
