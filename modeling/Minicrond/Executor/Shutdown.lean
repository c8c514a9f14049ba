import Minicrond.Executor.Overlap

/-! Shutdown next to triggers, drain steps and runs at every point of their way: the registration of a run and the
snapshot of the active runs hold the same lock. -/

namespace Minicrond.Executor

open Minicrond.Library

/-! ## Calls of Shutdown -/

inductive ShutdownPc
  | idle
  | closing
  | joining (runs : List ℕ)
  | admitting
  | returned

/-- The executor with its calls of `Shutdown`. `cancelled` lists the runs that a call found
active and cancelled. -/
structure Stopping where
  service : State
  cancelled : List ℕ
  calls : ℕ → ShutdownPc

def Stopping.initial : Stopping := ⟨.initial, [], fun _ => .idle⟩

inductive ShutdownEvent
  | service (e : Event)
  | call (n : ℕ)
  | snapshot (n : ℕ)
  | joined (n : ℕ)
  | expired (n : ℕ)
  | settled (n : ℕ)

def Proc.joinedLast : Proc → Bool
  | .trigger c =>
    match c.pc with
    | .entering => false
    | _ => true
  | .drain _ => true
  | _ => false

inductive ShutdownStep (o : Options) : Stopping → ShutdownEvent → Stopping → Prop
  | service {s : Stopping} {e : Event} {c : State} (h : Step o s.service e c) :
    ShutdownStep o s (.service e) { s with service := c }
  -- `BeginShutdown`
  | call {s : Stopping} {n : ℕ} {c : State} (hn : s.calls n = .idle) (h : Step o s.service .shutdown c) :
    ShutdownStep o s (.call n) { s with service := c, calls := Function.update s.calls n .closing }
  | snapshot {s : Stopping} {n : ℕ} (hn : s.calls n = .closing) :
    ShutdownStep o s (.snapshot n)
      { s with
        cancelled := s.cancelled ++ s.service.shared.active.map Prod.fst
        calls := Function.update s.calls n (.joining (s.service.shared.active.map Prod.fst)) }
  | joined {s : Stopping} {n : ℕ} {runs : List ℕ} (hn : s.calls n = .joining runs)
    (hd : ∀ r, .run r ∈ s.service.procs → r.id ∉ runs) :
    ShutdownStep o s (.joined n) { s with calls := Function.update s.calls n .admitting }
  -- the context ends: the runs are killed and joined for a while
  | expired {s : Stopping} {n : ℕ} (hn : (∃ runs, s.calls n = .joining runs) ∨ s.calls n = .admitting) :
    ShutdownStep o s (.expired n) { s with calls := Function.update s.calls n .returned }
  | settled {s : Stopping} {n : ℕ} (hn : s.calls n = .admitting)
      (hp : ∀ p ∈ s.service.procs, p.joinedLast = false) :
    ShutdownStep o s (.settled n) { s with calls := Function.update s.calls n .returned }

def ShutdownPc.snapshotted : ShutdownPc → Bool
  | .idle | .closing => false
  | _ => true

def Finished (c : State) (id : ℕ) : Prop := ∀ r, .run r ∈ c.procs → r.id = id → r.pc = .releasing

/-! ## What can happen once closing is set -/

structure Winds (s s' : Shared) : Prop where
  closing : s'.closing = true
  nextID : s'.nextID = s.nextID
  active : s'.active ⊆ s.active
  taken : s.taken ≤ s'.taken

structure Winding (c c' : State) : Prop extends Winds c.shared c'.shared where
  runs : ∀ r, .run r ∈ c'.procs → ∃ r', .run r' ∈ c.procs ∧ r'.id = r.id ∧ r'.d = r.d ∧ r'.slot = r.slot

section

variable {o : Options} {s s' : Shared} {p : Proc} {out : List Proc}

lemma Winds.refl (hc : s.closing = true) : Winds s s := ⟨hc, rfl, List.Subset.refl _, le_rfl⟩

lemma Released.winds {own : Bool} {slot : Option ℕ} (h : Released own slot s s') (hc : s.closing = true) :
    Winds s s' := by
  cases own with
  | true =>
    rw [h.2]
    exact ⟨hc, rfl, List.Subset.refl _, le_rfl⟩
  | false =>
    obtain rfl : s' = s := h
    exact .refl hc

lemma TriggerStep.winds {c : TriggerCall} (h : TriggerStep o s c s' out) (hc : s.closing = true) :
    Winds s s' ∧ ∀ r, .run r ∉ out := by
  cases h with
  | registered _ ho => exact nomatch ho.symm.trans hc
  | reserved _ _ => exact ⟨⟨hc, rfl, List.Subset.refl _, Nat.le_succ _⟩, by simp⟩
  | released _ hr => exact ⟨hr.winds hc, by simp [TriggerCall.disown]⟩
  | gaveBack _ hr => exact ⟨hr.winds hc, by simp [TriggerCall.goto]⟩
  | unwound _ hr => exact ⟨hr.winds hc, by simp [TriggerCall.disown]⟩
  | _ => exact ⟨⟨hc, rfl, List.Subset.refl _, le_rfl⟩, by simp [TriggerCall.goto, TriggerCall.disown]⟩

lemma DrainMove.winds {w : DrainStep} (h : DrainMove o s w s' out) (hc : s.closing = true) :
    Winds s s' ∧ ∀ r, .run r ∉ out := by
  cases h with
  | registered _ ho => exact nomatch ho.symm.trans hc
  | reserved _ _ => exact ⟨⟨hc, rfl, List.Subset.refl _, Nat.le_succ _⟩, by simp⟩
  | gaveBack _ hr => exact ⟨hr.winds hc, by simp [DrainStep.goto]⟩
  | settled _ hr => exact ⟨hr.winds hc, by simp⟩
  | _ => exact ⟨⟨hc, rfl, List.Subset.refl _, le_rfl⟩, by simp [DrainStep.goto]⟩

lemma RunStep.winds {r : JobRun} (h : RunStep s r s' out) (hc : s.closing = true) :
    Winds s s' ∧ ∀ r', .run r' ∈ out → r.id = r'.id ∧ r.d = r'.d ∧ r.slot = r'.slot := by
  cases h with
  | completed _ => exact ⟨.refl hc, by simp⟩
  | unregistered _ => exact ⟨⟨hc, rfl, fun _ => List.mem_of_mem_filter, le_rfl⟩, by simp⟩
  | released _ hr => exact ⟨hr.winds hc, by simp⟩

lemma Local.winds (h : Local o s p s' out) (hc : s.closing = true) :
    Winds s s' ∧ ∀ r, .run r ∈ out → ∃ r', p = .run r' ∧ r'.id = r.id ∧ r'.d = r.d ∧ r'.slot = r.slot := by
  cases p with
  | trigger c =>
    obtain ⟨hs, hout⟩ := TriggerStep.winds h hc
    exact ⟨hs, fun r hr => (hout r hr).elim⟩
  | drain w =>
    obtain ⟨hs, hout⟩ := DrainMove.winds h hc
    exact ⟨hs, fun r hr => (hout r hr).elim⟩
  | run r =>
    obtain ⟨hs, hout⟩ := RunStep.winds h hc
    exact ⟨hs, fun r' hr => ⟨r, rfl, hout r' hr⟩⟩
  | stop c => cases h <;> exact ⟨⟨hc, rfl, List.Subset.refl _, le_rfl⟩, by simp⟩

lemma Expires.winds (h : Expires s p s' out) (hc : s.closing = true) : Winds s s' ∧ ∀ r, .run r ∉ out := by
  cases h with
  | trigger | stop => exact ⟨.refl hc, by simp⟩

lemma mem_heldBy {x : Option ℕ} {procs : List Proc} (h : x ∈ heldBy procs) :
    ∃ q ∈ procs, q.owns = true ∧ q.slot = x := by
  induction procs with
  | nil => simp [heldBy] at h
  | cons p procs ih =>
    rw [heldBy, List.map_cons, List.sum_cons, Multiset.mem_add] at h
    rcases h with h | h
    · refine ⟨p, List.mem_cons_self, ?_⟩
      cases ho : p.owns with
      | true =>
        rw [Proc.held, ho, cond_true, Multiset.mem_singleton] at h
        exact ⟨rfl, h.symm⟩
      | false => simp [Proc.held, ho] at h
    · obtain ⟨q, hq, hx⟩ := ih h
      exact ⟨q, List.mem_cons_of_mem _ hq, hx⟩

variable {c c' c'' : State}

lemma Winding.refl (hc : c.shared.closing = true) : Winding c c :=
  ⟨.refl hc, fun r hr => ⟨r, hr, rfl, rfl, rfl⟩⟩

lemma Winding.trans (h : Winding c c') (h' : Winding c' c'') : Winding c c'' where
  closing := h'.closing
  nextID := h'.nextID.trans h.nextID
  active := List.Subset.trans h'.active h.active
  taken := h.taken.trans h'.taken
  runs r hr := by
    obtain ⟨r', hr', hid, hd, hslot⟩ := h'.runs r hr
    obtain ⟨r'', hr'', hid', hd', hslot'⟩ := h.runs r' hr'
    exact ⟨r'', hr'', hid'.trans hid, hd'.trans hd, hslot'.trans hslot⟩

lemma Winding.spawn (hc : c.shared.closing = true) (hp : ∀ r, p ≠ .run r) : Winding c (c.spawn p) := by
  refine ⟨.refl hc, fun r hr => ?_⟩
  rcases List.mem_append.mp hr with hr | hr
  · exact ⟨r, hr, rfl, rfl, rfl⟩
  · exact (hp r (List.mem_singleton.mp hr).symm).elim

lemma Winding.internal (h : Interleave (Local o) c c') (hc : c.shared.closing = true) : Winding c c' := by
  obtain ⟨p, out, hp, hl, hprocs⟩ := h.mem_procs
  obtain ⟨hs, hout⟩ := hl.winds hc
  refine ⟨hs, fun r hr => ?_⟩
  rcases hprocs _ hr with hr | hr
  · exact ⟨r, hr, rfl, rfl, rfl⟩
  · obtain ⟨r', rfl, hr'⟩ := hout r hr
    exact ⟨r', hp, hr'⟩

lemma Winding.expire (h : Interleave Expires c c') (hc : c.shared.closing = true) : Winding c c' := by
  obtain ⟨p, out, _, hl, hprocs⟩ := h.mem_procs
  obtain ⟨hs, hout⟩ := hl.winds hc
  refine ⟨hs, fun r hr => ?_⟩
  rcases hprocs _ hr with hr | hr
  · exact ⟨r, hr, rfl, rfl, rfl⟩
  · exact (hout r hr).elim

lemma Step.winding {e : Event} (h : Step o c e c') (hc : c.shared.closing = true) : Winding c c' := by
  cases h with
  | internal h => exact .internal h hc
  | trigger => exact .spawn hc nofun
  | wake ho => exact nomatch ho.symm.trans hc
  | stop => exact .spawn hc nofun
  | expire h => exact .expire h hc
  | shutdown => exact ⟨⟨rfl, rfl, List.Subset.refl _, le_rfl⟩, fun r hr => ⟨r, hr, rfl, rfl, rfl⟩⟩

/-! ## Owners of slots -/

lemma Conserved.owner_unique {q : Proc} (hc : Conserved o c) (hp : p ∈ c.procs) (hq : q ∈ c.procs)
    (hpo : p.owns = true) (hqo : q.owns = true) (hslot : p.slot = q.slot) : p = q := by
  classical
  by_contra hne
  have hheld : ∀ x : Proc, x.owns = true → x.held = {x.slot} := fun x hx => by simp [Proc.held, hx]
  have hrest : q ∈ c.procs.erase p := (List.mem_erase_of_ne (Ne.symm hne)).mpr hq
  have htotal : c.total Proc.held = {p.slot} + ({p.slot} + (((c.procs.erase p).erase q).map Proc.held).sum) := by
    rw [Config.total, ((List.perm_cons_erase hp).map _).sum_eq, List.map_cons, List.sum_cons,
      ((List.perm_cons_erase hrest).map _).sum_eq, List.map_cons, List.sum_cons, hheld p hpo, hheld q hqo, hslot]
  have hnodup : (c.total Proc.held).Nodup :=
    Multiset.nodup_of_le (Multiset.le_add_right _ _) (hc.slots ▸ nodup_issued _)
  rw [htotal, Multiset.singleton_add, Multiset.singleton_add, Multiset.nodup_cons] at hnodup
  exact hnodup.1 (Multiset.mem_cons_self _ _)

lemma Conserved.held_of_mem (hc : Conserved o c) {x : Option ℕ} (hx : x ∈ issued c.shared.taken) :
    x ∈ c.shared.returned ∨ ∃ q ∈ c.procs, q.owns = true ∧ q.slot = x := by
  rw [← hc.slots, Multiset.mem_add] at hx
  rcases hx with hx | hx
  · exact .inr (mem_heldBy hx)
  · exact .inl (Multiset.mem_coe.mp hx)

lemma Exclusive.active_of_run (hc : Exclusive c) {r : JobRun} (hr : .run r ∈ c.procs) (hpc : r.pc ≠ .releasing) :
    r.id ∈ c.shared.active.map Prod.fst := by
  have hreg : (Proc.run r).registered = {(r.id, r.d.name)} := by
    cases h : r.pc with
    | executing | unregistering => simp [Proc.registered, h]
    | releasing => exact (hpc h).elim
  have hle : (Proc.run r).registered ≤ c.total Proc.registered := by
    obtain ⟨before, after, hsplit⟩ := List.append_of_mem hr
    rw [Config.total, hsplit, List.map_append, List.map_cons, List.sum_append, List.sum_cons, add_left_comm]
    exact Multiset.le_add_right _ _
  rw [hc.registry, hreg, Multiset.singleton_le, Multiset.mem_coe] at hle
  exact List.mem_map.mpr ⟨_, hle, rfl⟩

end

/-! ## Shutdown among the other calls -/

section

variable {o : Options} {s t : Stopping} {i : ShutdownEvent} {events : List ShutdownEvent}

structure Covered (o : Options) (s : Stopping) : Prop where
  conserved : Conserved o s.service
  exclusive : Exclusive s.service
  closing : ∀ n, s.calls n ≠ .idle → s.service.shared.closing = true
  active : ∀ n, (s.calls n).snapshotted = true → ∀ a ∈ s.service.shared.active, a.1 ∈ s.cancelled

lemma Covered.initial : Covered o .initial :=
  ⟨conserved_initial, exclusive_initial, fun _ h => (h rfl).elim, nofun⟩

lemma Covered.advance (h : Covered o s) {n : ℕ} {pc : ShutdownPc} (hn : (s.calls n).snapshotted = true) :
    Covered o { s with calls := Function.update s.calls n pc } := by
  have hclosing : s.service.shared.closing = true := h.closing n (by rintro he; rw [he] at hn; cases hn)
  exact ⟨h.conserved, h.exclusive, fun _ _ => hclosing, fun _ _ => h.active n hn⟩

lemma Covered.step (hs : ShutdownStep o s i t) (h : Covered o s) : Covered o t := by
  cases hs with
  | service hstep =>
    refine ⟨hstep.conserved h.conserved, hstep.exclusive h.conserved h.exclusive, fun n hn => ?_,
      fun n hn a ha => ?_⟩
    · exact (hstep.winding (h.closing n hn)).closing
    · have hidle : s.calls n ≠ .idle := fun he => by rw [he] at hn; cases hn
      exact h.active n hn a ((hstep.winding (h.closing n hidle)).active ha)
  | @call n c hn hstep =>
    have hclosing : c.shared.closing = true := by
      cases hstep
      rfl
    refine ⟨hstep.conserved h.conserved, hstep.exclusive h.conserved h.exclusive, fun _ _ => hclosing,
      fun m hm a ha => ?_⟩
    have hne : m ≠ n := by
      rintro rfl
      simp [ShutdownPc.snapshotted] at hm
    simp only [Function.update_of_ne hne] at hm
    cases hstep
    exact h.active m hm a ha
  | @snapshot n hn =>
    have hclosing := h.closing n (by rw [hn]; nofun)
    refine ⟨h.conserved, h.exclusive, fun _ _ => hclosing, fun _ _ a ha => ?_⟩
    exact List.mem_append_right _ (List.mem_map_of_mem ha)
  | joined hn _ => exact h.advance (by rw [hn]; rfl)
  | expired hn =>
    apply h.advance
    rcases hn with ⟨runs, hn⟩ | hn
    · rw [hn]
      rfl
    · rw [hn]
      rfl
  | settled hn _ => exact h.advance (by rw [hn]; rfl)

lemma ShutdownStep.winding (hs : ShutdownStep o s i t) (hc : s.service.shared.closing = true) :
    Winding s.service t.service := by
  cases hs with
  | service hstep | call _ hstep => exact hstep.winding hc
  | _ => exact .refl hc

lemma winding_run (h : Run (ShutdownStep o) s events t) (hc : s.service.shared.closing = true) :
    Winding s.service t.service := by
  induction h with
  | nil => exact .refl hc
  | cons he _ ih =>
    have hw := he.winding hc
    exact hw.trans (ih hw.closing)

lemma Covered.finished_or_cancelled (h : Covered o s) {n : ℕ} (hn : (s.calls n).snapshotted = true) (id : ℕ) :
    id ∈ s.cancelled ∨ Finished s.service id := by
  by_cases hid : id ∈ s.service.shared.active.map Prod.fst
  · obtain ⟨a, ha, rfl⟩ := List.mem_map.mp hid
    exact .inl (h.active n hn a ha)
  · right
    intro r hr hrid
    by_contra hpc
    exact hid (hrid ▸ h.exclusive.active_of_run hr hpc)

lemma Covered.slot_of_overtaken (hs : Covered o s) (ht : Covered o t) (hw : Winding s.service t.service) {p : Proc}
    (hp : p ∈ s.service.procs) (hrun : p.isRun = false) (ho : p.owns = true) :
    (∀ r, .run r ∈ t.service.procs → r.d.isJob = true → r.slot ≠ p.slot) ∧
      (p.slot ∈ t.service.shared.returned ∨
        ∃ q ∈ t.service.procs, q.isRun = false ∧ q.owns = true ∧ q.slot = p.slot) := by
  have hfree : ∀ r, .run r ∈ t.service.procs → r.d.isJob = true → r.slot ≠ p.slot := by
    intro r hr hjob hslot
    obtain ⟨r', hr', _, hd, hslot'⟩ := hw.runs r hr
    have howns : (Proc.run r').owns = true := (congrArg Spec.isJob hd).trans hjob
    have heq : p = .run r' := hs.conserved.owner_unique hp hr' ho howns (hslot'.trans hslot).symm
    rw [heq] at hrun
    cases hrun
  refine ⟨hfree, ?_⟩
  have hissued : p.slot ∈ issued t.service.shared.taken := by
    have hheld : p.slot ∈ s.service.total Proc.held := by
      obtain ⟨before, after, hsplit⟩ := List.append_of_mem hp
      rw [Config.total, hsplit, List.map_append, List.map_cons, List.sum_append, List.sum_cons, Multiset.mem_add,
        Multiset.mem_add, Proc.held, ho]
      exact .inr (.inl (Multiset.mem_singleton_self _))
    obtain ⟨k, hk, hslot⟩ := mem_issued.mp (hs.conserved.slots ▸ Multiset.mem_add.mpr (.inl hheld))
    exact mem_issued.mpr ⟨k, hk.trans_le hw.taken, hslot⟩
  rcases ht.conserved.held_of_mem hissued with hret | ⟨q, hq, hqo, hslot⟩
  · exact .inl hret
  · refine .inr ⟨q, hq, ?_, hqo, hslot⟩
    cases q with
    | run r => exact (hfree r hq hqo hslot).elim
    | trigger _ | drain _ | stop _ => rfl

end

theorem shutdown_misses_no_run {o : Options} {events : List ShutdownEvent} {s : Stopping}
    (h : Run (ShutdownStep o) .initial events s) :
    -- every run that was ever registered is finished or cancelled once a call has its snapshot
    (∀ n, (s.calls n).snapshotted = true →
      ∀ id < s.service.shared.nextID, id ∈ s.cancelled ∨ Finished s.service id) ∧
    (s.service.shared.closing = true → ∀ later t, Run (ShutdownStep o) s later t →
      -- no run is registered any more
      t.service.shared.closing = true ∧ t.service.shared.nextID = s.service.shared.nextID ∧
        t.service.shared.active ⊆ s.service.shared.active ∧
      -- only runs registered before execute, and the slot of a call that closing overtook is none of theirs
      (∀ r, .run r ∈ t.service.procs → ∃ r', .run r' ∈ s.service.procs ∧ r'.id = r.id) ∧
      ∀ p ∈ s.service.procs, p.isRun = false → p.owns = true →
        (∀ r, .run r ∈ t.service.procs → r.d.isJob = true → r.slot ≠ p.slot) ∧
          (p.slot ∈ t.service.shared.returned ∨
            ∃ q ∈ t.service.procs, q.isRun = false ∧ q.owns = true ∧ q.slot = p.slot)) := by
  have hs : Covered o s := h.invariant (fun _ _ _ hstep => .step hstep) .initial
  refine ⟨fun n hn id _ => hs.finished_or_cancelled hn id, fun hc later t hrun => ?_⟩
  have ht : Covered o t := hrun.invariant (fun _ _ _ hstep => .step hstep) hs
  have hw : Winding s.service t.service := winding_run hrun hc
  refine ⟨hw.closing, hw.nextID, hw.active, fun r hr => ?_,
    fun p hp hrun ho => hs.slot_of_overtaken ht hw hp hrun ho⟩
  obtain ⟨r', hr', hid, _⟩ := hw.runs r hr
  exact ⟨r', hr', hid⟩

def nightlyStored : Stopping where
  service :=
    ⟨⟨1, true, true, [], 0, 1, []⟩, [.trigger ⟨nightly, .manual, false, false, false, some 0, .launching true⟩]⟩
  cancelled := []
  calls := Function.update (fun _ => .idle) 0 .closing

lemma nightly_stored : ∃ events, Run (ShutdownStep oneSlot) .initial events nightlyStored :=
  ⟨_, .cons (.service (.trigger _ nightly .manual false)) <|
    .cons (.service (.internal (.mk [] [] (TriggerStep.entered rfl rfl)))) <|
    .cons (.service (.internal (.mk [] [] (TriggerStep.admitted rfl rfl)))) <|
    .cons (.service (.internal (.mk [] [] (TriggerStep.proceed rfl rfl)))) <|
    .cons (.service (.internal (.mk [] [] (TriggerStep.job rfl ⟨rfl, rfl⟩ rfl (by decide))))) <|
    .cons (.service (.internal (.mk [] [] (TriggerStep.direct rfl)))) <|
    .cons (.service (.internal (.mk [] [] (TriggerStep.reserved rfl (by decide))))) <|
    .cons (.service (.internal (.mk [] [] (TriggerStep.stored rfl)))) <|
    .cons (.call rfl (.shutdown _)) <|
    .nil _⟩

theorem shutdown_misses_no_run_refused :
    ∃ (later : List ShutdownEvent) (t : Stopping), Run (ShutdownStep oneSlot) nightlyStored later t ∧
      t.service.procs = [] ∧ t.service.shared.tokens = 0 ∧ some 0 ∈ t.service.shared.returned := by
  obtain ⟨events, h⟩ := nightly_stored
  refine (fun h' => ⟨_, _, h', rfl, rfl, ?_⟩)
    (.cons (.service (.internal (.mk [] [] (TriggerStep.refused rfl rfl)))) <|
      .cons (.service (.internal (.mk [] [] (TriggerStep.gaveBack rfl ⟨by decide, rfl⟩)))) <|
      .cons (.service (.internal (.mk [] [] (TriggerStep.unwound rfl rfl)))) <|
      .cons (.service (.internal (.mk [] [] (TriggerStep.left rfl)))) <|
      .nil _)
  obtain ⟨_, _, _, _, hslot⟩ := (shutdown_misses_no_run h).2 rfl _ _ h'
  obtain ⟨_, hret | ⟨q, hq, _⟩⟩ := hslot _ List.mem_cons_self rfl rfl
  · exact hret
  · cases hq

end Minicrond.Executor
