import Minicrond.Executor.QueueDepth

/-! Newer work does not overtake queued work: the items of a definition start in the order of their enqueues, and a
trigger that could wait starts directly only when no row waits. -/

namespace Minicrond.Executor.Queue

open Minicrond.Library Minicrond.Store Minicrond.Time

/-! ## The log of the enqueues -/

structure Shrinks (s s' : Shared) : Prop where
  queue : s'.db.queue.Sublist s.db.queue
  lastSeq : s'.db.lastSeq = s.db.lastSeq
  enqueued : s'.enqueued = s.enqueued

inductive Logged (s s' : Shared) : Prop
  | shrink (h : Shrinks s s')
  | grow (row : QueueRow) (hq : s'.db.queue = s.db.queue ++ [row]) (hs : row.seq = s.db.lastSeq + 1)
      (hl : s'.db.lastSeq = s.db.lastSeq + 1) (he : s'.enqueued = s.enqueued ++ [row])

section

variable {o : QueueOptions} {c c' : State} {s s' : Shared} {p : Call} {out : List Call} {item : QueueItem}
    {pc : StartPc} {db' : DB} {now : ℤ}

lemma Shrinks.of_db (hdb : s'.db = s.db) (he : s'.enqueued = s.enqueued) : Shrinks s s' :=
  ⟨by rw [hdb], by rw [hdb], he⟩

lemma Shrinks.of_admitIdempotentRun {now later : ℤ} {r : Run} {idem : Idempotency}
    (h : (admitIdempotentRun now later r idem).Commits s.db db') : Shrinks s { s with db := db' } := by
  obtain ⟨_, h⟩ := h
  obtain ⟨_, ⟨_, rfl⟩ | ⟨_, _, rfl⟩⟩ := admitIdempotentRun_ok h
  · exact ⟨List.Sublist.refl _, rfl, rfl⟩
  · exact ⟨List.Sublist.refl _, rfl, rfl⟩

lemma Shrinks.of_createRun {r : Run} (h : (createRun r).Commits s.db db') : Shrinks s { s with db := db' } := by
  obtain ⟨_, h⟩ := h
  obtain ⟨_, rfl⟩ := createRun_ok h
  exact ⟨List.Sublist.refl _, rfl, rfl⟩

lemma Shrinks.of_endQueued {id reason : String} {status : Status} {b : Bool}
    (h : endQueued id status reason now s.db = .ok (b, db')) : Shrinks s { s with db := db' } := by
  obtain ⟨rfl, _⟩ := endQueued_ok h
  exact ⟨deleteWhere_sublist, rfl, rfl⟩

lemma Shrinks.of_expireQueued {limit : ℕ} {ids : List String}
    (h : expireQueued now limit s.db = .ok (ids, db')) : Shrinks s { s with db := db' } := by
  obtain ⟨_, ⟨_, rfl⟩ | rfl⟩ := expireQueued_ok h
  · exact ⟨List.Sublist.refl _, rfl, rfl⟩
  · exact ⟨deleteWhere_sublist, rfl, rfl⟩

lemma TriggerStep.logged {call : TriggerCall} (h : TriggerStep o s call s' out) : Logged s s' := by
  cases h with
  | enqueued id queued now later h hdb =>
    obtain ⟨_, ⟨ho, _⟩ | ⟨_, _, _, rfl⟩⟩ := enqueueRun_cases hdb
    · exact (ho rfl).elim
    · exact .grow _ rfl rfl rfl (by simp)
  | replayed id replay queued now later h hdb =>
    obtain ⟨_, ⟨_, rfl⟩ | ⟨ho, _⟩⟩ := enqueueRun_cases hdb
    · exact .shrink ⟨List.Sublist.refl _, rfl, rfl⟩
    · exact (Option.some_ne_none _ ho).elim
  | skippedKeyed id now read later h hk hdb => exact .shrink (.of_admitIdempotentRun hdb)
  | skipped id now h hk hdb => exact .shrink (.of_createRun hdb)
  | admittedRun id now read later h hk hdb | replayedRun id existing now read later h hk hdb =>
    exact .shrink (.of_admitIdempotentRun ⟨_, hdb⟩)
  | storedRun id now h hk hdb => exact .shrink (.of_createRun hdb)
  | startedLoop =>
    cases hl : s.loop <;> exact .shrink (.of_db (by simp [Shared.startLoop, hl]) (by simp [Shared.startLoop, hl]))
  | _ => exact .shrink (.of_db rfl rfl)

lemma Local.logged (h : Local o s p s' out) : Logged s s' := by
  cases p with
  | trigger call => exact TriggerStep.logged h
  | stop call =>
    cases h with
    | cancelled now h hc | notQueued now h hc => exact .shrink (.of_endQueued hc)
    | _ => exact .shrink (.of_db rfl rfl)
  | run r =>
    cases h with
      | _ => exact .shrink (.of_db rfl rfl)

lemma Local.starts (h : Local o s p s' out) : s'.starts = s.starts := by
  cases p with
  | trigger call =>
    cases h with
    | startedLoop => cases hl : s.loop <;> simp [Shared.startLoop, hl]
    | _ => rfl
  | stop call | run r => cases h <;> rfl

lemma StartStep.shrinks {pc' : StepPc} (h : StartStep o item s pc s' pc' out) :
    Shrinks s s' := by
  cases h with
  | dropped now hd => exact .of_endQueued hd
  | dequeued hd =>
    obtain ⟨_, hd⟩ := hd
    obtain ⟨_, rfl⟩ := dequeueRun_ok hd
    exact ⟨deleteWhere_sublist, rfl, rfl⟩
  | _ => exact .of_db rfl rfl

lemma LoopStep.shrinks {pc pc' : LoopPc} (h : LoopStep o s pc s' pc' out) : Shrinks s s' := by
  cases h with
  | step h =>
    cases h with
    | expired now hd | noneExpired now hd => exact .of_expireQueued hd
    | start h => exact h.shrinks
    | _ => exact .of_db rfl rfl
  | _ => exact .of_db rfl rfl

/-! ## Items start in turn -/

def StartPc.unstarted : StartPc → Bool
  | .refused | .waking | .counting _ => false
  | _ => true

def StartPc.isLaunching : StartPc → Bool
  | .launching _ => true
  | _ => false

structure Next (s : Shared) (item : QueueItem) (pc : StartPc) : Prop where
  logged : ∃ q ∈ s.enqueued, q.item = item
  oldest : ∀ q ∈ s.db.queue, q.definitionID = item.definitionID → item.seq ≤ q.seq
  left : pc.isLaunching = true → ∀ q ∈ s.db.queue, q.definitionID = item.definitionID → item.seq < q.seq
  after : ∀ x ∈ s.starts, x.definitionID = item.definitionID → x.seq < item.seq

structure InTurn (s : Shared) : Prop where
  inOrder : InOrder s.enqueued
  issued : ∀ q ∈ s.enqueued, q.seq ≤ s.db.lastSeq
  waiting : ∀ q ∈ s.db.queue, q ∈ s.enqueued
  logged : ∀ x ∈ s.starts, ∃ q ∈ s.enqueued, q.item = x
  starts : s.starts.Pairwise fun a b => a.definitionID = b.definitionID → a.seq < b.seq
  ahead : ∀ x ∈ s.starts, ∀ q ∈ s.db.queue, q.definitionID = x.definitionID → x.seq < q.seq
  held : ∀ item pc, s.loop = .step (.start item pc) → pc.unstarted = true → Next s item pc

lemma Next.of_logged (h : Logged s s') (hs : s'.starts = s.starts) (ht : InTurn s)
    (hn : Next s item pc) : Next s' item pc := by
  cases h with
  | shrink hs' =>
    obtain ⟨hq, hl, he⟩ := hs'
    exact ⟨he ▸ hn.logged, fun q hmem => hn.oldest q (hq.subset hmem),
      fun hpc q hmem => hn.left hpc q (hq.subset hmem), hs ▸ hn.after⟩
  | grow row hq hseq hl he =>
    obtain ⟨x, hx, rfl⟩ := hn.logged
    have hlt : x.item.seq < row.seq := by
      rw [hseq]
      exact Nat.lt_succ_of_le (ht.issued x hx)
    refine ⟨⟨x, by rw [he]; exact List.mem_append_left _ hx, rfl⟩, fun q hmem hd => ?_, fun hpc q hmem hd => ?_,
      hs ▸ hn.after⟩
    · rw [hq, List.mem_append, List.mem_singleton] at hmem
      rcases hmem with hmem | rfl
      · exact hn.oldest q hmem hd
      · exact hlt.le
    · rw [hq, List.mem_append, List.mem_singleton] at hmem
      rcases hmem with hmem | rfl
      · exact hn.left hpc q hmem hd
      · exact hlt

lemma InTurn.of_logged (h : Logged s s') (hs : s'.starts = s.starts) (ht : InTurn s)
    (hheld : ∀ item pc, s'.loop = .step (.start item pc) → pc.unstarted = true → Next s' item pc) : InTurn s' := by
  cases h with
  | shrink hs' =>
    obtain ⟨hq, hl, he⟩ := hs'
    refine ⟨he ▸ ht.inOrder, ?_, ?_, ?_, hs ▸ ht.starts, ?_, hheld⟩
    · rw [he, hl]
      exact ht.issued
    · rw [he]
      exact fun q hmem => ht.waiting q (hq.subset hmem)
    · rw [hs, he]
      exact ht.logged
    · rw [hs]
      exact fun x hx q hmem => ht.ahead x hx q (hq.subset hmem)
  | grow row hq hseq hl he =>
    obtain ⟨hinOrder, hissued⟩ := ht.inOrder.append ht.issued hseq
    refine ⟨?_, ?_, ?_, ?_, hs ▸ ht.starts, ?_, hheld⟩
    · rw [he]
      exact hinOrder
    · rw [he, hl]
      exact hissued
    · rw [he, hq]
      intro q hmem
      rcases List.mem_append.mp hmem with hmem | hmem
      · exact List.mem_append_left _ (ht.waiting q hmem)
      · exact List.mem_append_right _ hmem
    · rw [hs, he]
      intro x hx
      obtain ⟨q, hmem, hi⟩ := ht.logged x hx
      exact ⟨q, List.mem_append_left _ hmem, hi⟩
    · rw [hs, hq]
      intro x hx q hmem hd
      rcases List.mem_append.mp hmem with hmem | hmem
      · exact ht.ahead x hx q hmem hd
      · obtain ⟨y, hy, rfl⟩ := ht.logged x hx
        rw [List.mem_singleton.mp hmem, hseq]
        exact Nat.lt_succ_of_le (ht.issued y hy)

lemma InTurn.frame (h : Logged s s') (hs : s'.starts = s.starts) (hl : s'.loop = s.loop ∨ s'.loop = .top)
    (ht : InTurn s) : InTurn s' := by
  refine ht.of_logged h hs fun item pc hloop hpc => ?_
  rcases hl with hl | hl
  · exact (ht.held item pc (hl.symm.trans hloop) hpc).of_logged h hs ht
  · simp [hl] at hloop

lemma Next.move {item : QueueItem} {pc pc' : StartPc} (hn : Next s item pc) (h : pc'.isLaunching = false) :
    Next s item pc' := ⟨hn.logged, hn.oldest, fun hl => by simp [h] at hl, hn.after⟩

lemma Next.relocate {pc' : LoopPc} (hn : Next s item pc) :
    Next { s with loop := pc' } item pc := ⟨hn.logged, hn.oldest, hn.left, hn.after⟩

lemma StartPc.unstarted_of_isLaunching (h : pc.isLaunching = true) : pc.unstarted = true := by
  cases pc <;> simp_all [isLaunching, unstarted]

lemma revalidate_isLaunching {run : RunRow} {found : Option (Definition × String)} :
    (revalidate o item run now found).isLaunching = false := by
  rcases @revalidate_cases o item run now found with ⟨_, h⟩ | ⟨_, _, h, -⟩ <;> rw [h] <;> rfl

lemma Next.dequeued {revision : ℕ} {hash : String} {current : Definition}
    (hn : Next s item pc) (ht : InTurn s) (h : (dequeueRun item.runID revision hash o.bootID).Commits s.db db') :
    Next { s with db := db' } item (.launching current) := by
  obtain ⟨_, h⟩ := h
  obtain ⟨_, rfl⟩ := dequeueRun_ok h
  refine ⟨hn.logged, fun q hmem => hn.oldest q (deleteWhere_sublist.subset hmem), fun _ q hmem hd => ?_, hn.after⟩
  obtain ⟨hq, hid⟩ := mem_deleteWhere.mp hmem
  refine lt_of_le_of_ne (hn.oldest q hq hd) fun hseq => ?_
  -- Rows with one sequence number are one row, and the row of the item was deleted.
  obtain ⟨x, hx, rfl⟩ := hn.logged
  obtain rfl := ht.inOrder.eq_of_seq hx (ht.waiting q hq) hseq
  simp [QueueRow.item] at hid

lemma StartStep.next {item item' : QueueItem} {pc pc' : StartPc} {pc'' : StepPc}
    (h : StartStep o item s pc s' pc'' out) (he : pc'' = .start item' pc') (hpc : pc'.unstarted = true)
    (ht : InTurn s) (hheld : pc.unstarted = true → Next s item pc) : Next s' item' pc' := by
  cases h with
  | inconsistent | read | expired | overlap | clear | confirmed =>
    obtain ⟨rfl, rfl⟩ := StepPc.start.inj he
    exact (hheld rfl).move rfl
  | looked =>
    obtain ⟨rfl, rfl⟩ := StepPc.start.inj he
    exact (hheld rfl).move revalidate_isLaunching
  | dequeued hd =>
    obtain ⟨rfl, rfl⟩ := StepPc.start.inj he
    exact (hheld rfl).dequeued ht hd
  | dropped | endedElsewhere | launched | notLaunched | released | woke =>
    obtain ⟨rfl, rfl⟩ := StepPc.start.inj he
    cases hpc
  | _ => cases he

lemma StartStep.starts {item : QueueItem} {pc : StartPc} {pc' : StepPc} (h : StartStep o item s pc s' pc' out) :
    s'.starts = s.starts ∨ pc.isLaunching = true ∧ s'.starts = s.starts ++ [item] ∧
      pc' = .start item (.counting true) ∧
      s'.db = s.db ∧ s'.enqueued = s.enqueued := by
  cases h with
  | launched => exact .inr ⟨rfl, rfl, rfl, rfl, rfl⟩
  | _ => exact .inl rfl

lemma InTurn.launched {item : QueueItem} {pc : StartPc} {pc' : LoopPc} (ht : InTurn s) (hn : Next s item pc)
    (hpc : pc.isLaunching = true) (hs : s'.starts = s.starts ++ [item]) (hdb : s'.db = s.db)
    (he : s'.enqueued = s.enqueued) (hl : pc' = .step (.start item (.counting true))) :
    InTurn { s' with loop := pc' } := by
  refine ⟨?_, ?_, ?_, ?_, ?_, ?_, fun item' pc'' hloop hun => ?_⟩
  · exact he ▸ ht.inOrder
  · simp only [he, hdb]
    exact ht.issued
  · simp only [he, hdb]
    exact ht.waiting
  · simp only [hs, he]
    intro x hx
    rcases List.mem_append.mp hx with hx | hx
    · exact ht.logged x hx
    · exact List.mem_singleton.mp hx ▸ hn.logged
  · simp only [hs]
    rw [List.pairwise_append]
    refine ⟨ht.starts, List.pairwise_singleton _ _, fun x hx y hy hd => ?_⟩
    rw [List.mem_singleton.mp hy] at hd ⊢
    exact hn.after x hx hd
  · simp only [hs, hdb]
    intro x hx q hq hd
    rcases List.mem_append.mp hx with hx | hx
    · exact ht.ahead x hx q hq hd
    · rw [List.mem_singleton.mp hx] at hd ⊢
      exact hn.left hpc q hq hd
  · simp only [hl, LoopPc.step.injEq, StepPc.start.injEq] at hloop
    obtain ⟨_, rfl⟩ := hloop
    cases hun

lemma DrainStep.held {pc : StepPc} {pc' : LoopPc} {item : QueueItem} {pc'' : StartPc}
    (h : DrainStep o s pc s' pc' out) (ht : InTurn s) (hl : s.loop = .step pc)
    (he : pc' = .step (.start item pc'')) (hpc : pc''.unstarted = true) :
    Next s' item pc'' := by
  cases h with
  | chosen hi =>
    obtain ⟨rfl, rfl⟩ := StepPc.start.inj (LoopPc.step.inj he)
    obtain ⟨q, hq, rfl, hoff⟩ := mem_queueHeads (nextItem_mem hi)
    exact ⟨⟨q, ht.waiting q hq, rfl⟩, hoff, nofun, fun x hx hd => ht.ahead x hx q hq hd.symm⟩
  | start h => exact h.next (LoopPc.step.inj he) hpc ht fun hun => ht.held _ _ hl hun
  | _ => cases he

lemma InTurn.loop {pc' : LoopPc} (h : LoopStep o s s.loop s' pc' out) (ht : InTurn s) :
    InTurn { s' with loop := pc' } := by
  have hlogged : Logged s { s' with loop := pc' } :=
    .shrink ⟨h.shrinks.queue, h.shrinks.lastSeq, h.shrinks.enqueued⟩
  generalize hloop : s.loop = pc at h
  cases h with
  | step h =>
    have hheld := fun item pc (he : _ = LoopPc.step (.start item pc)) hun => h.held ht hloop he hun
    cases h with
    | start h =>
      rcases h.starts with hs | ⟨hpc, hs, rfl, hdb, he⟩
      · exact ht.of_logged hlogged hs fun item pc he hun => (hheld item pc he hun).relocate
      · exact ht.launched (ht.held _ _ hloop (StartPc.unstarted_of_isLaunching hpc)) hpc hs hdb he rfl
    | _ => exact ht.of_logged hlogged rfl fun item pc he hun => (hheld item pc he hun).relocate
  | _ => exact ht.of_logged hlogged rfl fun item pc he => by simp at he

/-! ## Direct starts -/

def Call.direct (o : QueueOptions) : Call → Bool
  | .trigger c =>
    match c.pc with
    | .reserving | .storing | .launching _ => queueable o.toOptions c.trigger && c.isJob
    | _ => false
  | _ => false

lemma Call.inAdmission_of_direct (h : p.direct o = true) : p.inAdmission = true := by
  cases p with
  | trigger call => cases hpc : call.pc <;> simp_all [Call.direct, Call.inAdmission]
  | stop call | run r => cases h

lemma LoopStep.out_not_direct {pc pc' : LoopPc} (h : LoopStep o s pc s' pc' out) (hp : p ∈ out) :
    p.direct o = false := by
  cases h with
  | step h =>
    cases h with
    | start h =>
      cases h with
      | launched => exact List.mem_singleton.mp hp ▸ rfl
      | _ => simp at hp
    | _ => simp at hp
  | _ => simp at hp

lemma Mirrored.alone {before after : List Call} {q : Call} (hc : Mirrored ⟨s, before ++ p :: after⟩)
    (hp : p.inAdmission = true) (hq : q ∈ before ++ after) : q.inAdmission = false := by
  have hadm := hc.admission
  have hone := Bool.toNat_le s.admission
  have hle : q.admissions ≤ ((before ++ after).map Call.admissions).sum :=
    List.single_le_sum (fun _ _ => Nat.zero_le _) _ (List.mem_map_of_mem hq)
  simp only [Config.total, List.map_append, List.map_cons, List.sum_append, List.sum_cons] at hadm hle
  cases h : q.inAdmission with
  | false => rfl
  | true =>
    simp only [Call.admissions, hp, h, Bool.toNat_true] at hadm hle
    omega

lemma Mirrored.uncounted_eq_zero (hc : Mirrored c) (hp : p ∈ c.procs) (ha : p.inAdmission = true)
    (hm : p.marks.1 = 0) : c.uncounted = 0 := by
  obtain ⟨s, procs⟩ := c
  obtain ⟨before, after, rfl⟩ := List.append_of_mem hp
  have hadm := hc.admission
  have hone := Bool.toNat_le s.admission
  obtain ⟨hrest, _⟩ := counted_le_admissions ⟨s, before ++ after⟩
  simp only [State.uncounted, State.marks, Config.total, List.map_append, List.map_cons, List.sum_append,
    List.sum_cons, Prod.fst_add, hm] at hadm hrest ⊢
  simp only [Call.admissions, ha, Bool.toNat_true] at hadm hrest
  omega

lemma Mirrored.empty_of_placing (hc : Mirrored c) {call : TriggerCall} (hp : .trigger call ∈ c.procs)
    (hpc : call.pc = .placing) (hd : c.shared.depth ≤ 0) : c.shared.db.queue = [] := by
  have hcounted := hc.uncounted_eq_zero hp (by simp [Call.inAdmission, hpc]) (by simp [Call.marks, hpc])
  have hle := hc.queue_le_depth hcounted
  exact List.length_eq_zero_iff.mp (by omega)

lemma TriggerStep.direct_out {call : TriggerCall} (h : TriggerStep o s call s' out)
    (hplacing : call.pc = .placing → s.depth ≤ 0 → s.db.queue = [])
    (hc : (Call.trigger call).direct o = true → s.db.queue = []) {q : Call} (hq : q ∈ out)
    (hd : q.direct o = true) : s'.db.queue = [] := by
  cases h with
  | direct h hdepth =>
    obtain rfl := List.mem_singleton.mp hq
    simp only [Call.direct, Bool.and_eq_true] at hd
    exact hplacing h (not_lt.mp fun hpos => hdepth ⟨hd.1, hpos⟩)
  | worker h _ hk =>
    obtain rfl := List.mem_singleton.mp hq
    simp only [Call.direct, Bool.and_eq_true] at hd
    exact absurd hd.2 (by simpa [TriggerCall.isJob] using hk)
  | reserved h =>
    obtain rfl := List.mem_singleton.mp hq
    exact hc (by simpa [Call.direct, TriggerCall.isJob, h] using hd)
  | admittedRun id now read later h hk hdb =>
    obtain rfl := List.mem_singleton.mp hq
    exact (admitIdempotentRun_queue ⟨_, hdb⟩).trans (hc (by simpa [Call.direct, TriggerCall.isJob, h] using hd))
  | storedRun id now h hk hdb =>
    obtain rfl := List.mem_singleton.mp hq
    exact (createRun_queue hdb).trans (hc (by simpa [Call.direct, TriggerCall.isJob, h] using hd))
  | deferred id now h =>
    obtain rfl := List.mem_singleton.mp hq
    exact hc (by simpa [Call.direct, TriggerCall.isJob, h] using hd)
  | refused id queued now later h =>
    obtain rfl := List.mem_singleton.mp hq
    rename_i e _
    cases e with
    | queueFull detail =>
      by_cases ht : call.trigger = .schedule <;> simp [Call.direct, TriggerCall.enqueueFailed, ht] at hd
    | _ => simp [Call.direct, TriggerCall.enqueueFailed] at hd
  | launched h =>
    simp only [TriggerCall.goto, List.singleton_append, List.mem_cons, List.not_mem_nil, or_false] at hq
    rcases hq with rfl | rfl <;> simp [Call.direct] at hd
  | gaveUp | left => simp at hq
  | _ h =>
    obtain rfl := List.mem_singleton.mp hq
    simp [Call.direct] at hd

lemma Local.direct_out (h : Local o s p s' out)
    (hplacing : ∀ call, p = .trigger call → call.pc = .placing → s.depth ≤ 0 → s.db.queue = [])
    (hc : p.direct o = true → s.db.queue = []) {q : Call} (hq : q ∈ out) (hd : q.direct o = true) :
    s'.db.queue = [] := by
  cases p with
  | trigger call => exact TriggerStep.direct_out h (hplacing call rfl) hc hq hd
  | stop call => cases h <;> simp [StopCall.goto] at hq <;> subst hq <;> simp [Call.direct] at hd
  | run r => cases h <;> simp at hq <;> subst hq <;> simp [Call.direct] at hd

structure NotOvertaken (o : QueueOptions) (c : State) : Prop where
  inTurn : InTurn c.shared
  direct : ∀ p ∈ c.procs, p.direct o = true → c.shared.db.queue = []

lemma NotOvertaken.call (h : Interleave (Local o) c c') (hm : Mirrored c) (hc : NotOvertaken o c) :
    NotOvertaken o c' := by
  cases h with
  | @mk s s' p out before after h =>
    have hin : p ∈ before ++ p :: after := List.mem_append_right _ List.mem_cons_self
    have hmove : Move p.inAdmission s.closing s.gauge p.marks s'.gauge (marksOf out) := h.effect hm.consistent
    refine ⟨hc.inTurn.frame h.logged h.starts (hmove.loop.imp_right And.right), fun q hq hd => ?_⟩
    have hsplit : q ∈ out ∨ q ∈ before ++ after := by
      simp only [List.mem_append] at hq ⊢
      tauto
    rcases hsplit with hq | hq
    · refine h.direct_out (fun call hp => ?_) (hc.direct p hin) hq hd
      subst hp
      exact hm.empty_of_placing hin
    · -- Only the call that holds the admission token adds rows, and that is `q`.
      have hold : s.db.queue = [] := by
        refine hc.direct q ?_ hd
        simp only [List.mem_append, List.mem_cons] at hq ⊢
        tauto
      rcases hmove.queue_length with hle | ha
      · exact List.length_eq_zero_iff.mp (Nat.le_zero.mp (hle.trans (by simp [Shared.gauge, hold])))
      · have hout := hm.alone ha hq
        rw [Call.inAdmission_of_direct hd] at hout
        cases hout

lemma NotOvertaken.loop {pc : LoopPc} (h : LoopStep o c.shared c.shared.loop s' pc out) (hc : NotOvertaken o c) :
    NotOvertaken o ⟨{ s' with loop := pc }, c.procs ++ out⟩ := by
  refine ⟨hc.inTurn.loop h, fun p hp hd => ?_⟩
  rcases List.mem_append.mp hp with hp | hp
  · exact List.sublist_nil.mp (hc.direct p hp hd ▸ h.shrinks.queue)
  · rw [h.out_not_direct hp] at hd
    cases hd

lemma NotOvertaken.spawn (hc : NotOvertaken o c) (hp : p.direct o = false) : NotOvertaken o (c.spawn p) := by
  refine ⟨hc.inTurn, fun q hq hd => ?_⟩
  rcases List.mem_append.mp hq with hq | hq
  · exact hc.direct q hq hd
  · rw [List.mem_singleton.mp hq, hp] at hd
    cases hd

lemma Step.notOvertaken {e : Event} (h : Step o c e c') (hm : Mirrored c) (hc : NotOvertaken o c) :
    NotOvertaken o c' := by
  cases h with
  | call h => exact hc.call h hm
  | loop h => exact hc.loop h
  | store hf hi hdb =>
    have hsub := hdb.shrinks hm.consistent hi (foreign_isEnqueue hf)
    have hshrinks : Shrinks c.shared { c.shared with db := _ } := ⟨hsub, hdb.lastSeq (foreign_isEnqueue hf), rfl⟩
    refine ⟨hc.inTurn.frame (.shrink hshrinks) rfl (.inl rfl), fun p hp hd => ?_⟩
    exact List.sublist_nil.mp (hc.direct p hp hd ▸ hsub)
  | trigger call hpc => exact hc.spawn (by simp [Call.direct, hpc])
  | stop id => exact hc.spawn rfl
  | shutdown =>
    have hshrinks : Shrinks c.shared { c.shared with closing := true } := .of_db rfl rfl
    exact ⟨hc.inTurn.frame (.shrink hshrinks) rfl (.inl rfl), hc.direct⟩

lemma notOvertaken_resumeQueue {db : DB} (ho : Ordered db) : NotOvertaken o (resumeQueue db) := by
  have hnone : (resumeQueue db).shared.starts = [] ∧ (resumeQueue db).procs = [] := ⟨rfl, rfl⟩
  refine ⟨⟨ho.inOrder, ho.issued, fun _ hq => hq, ?_, List.Pairwise.nil, ?_, fun item pc hl => ?_⟩, ?_⟩
  · simp [hnone.1]
  · simp [hnone.1]
  · rcases resumeQueue_loop db with ⟨h, _⟩ | ⟨h, _⟩ <;> simp [h] at hl
  · simp [hnone.2]

lemma notOvertaken_run {db : DB} (hdb : Consistent db) (ho : Ordered db) {events : List Event}
    (h : Run (Step o) (resumeQueue db) events c) : NotOvertaken o c :=
  (Run.invariant (P := fun c => Mirrored c ∧ NotOvertaken o c)
    (fun _ _ _ hstep hs => ⟨hstep.mirrored hs.1, hstep.notOvertaken hs.1 hs.2⟩) h
    ⟨mirrored_resumeQueue hdb ho, notOvertaken_resumeQueue ho⟩).2

lemma InTurn.sublist (ht : InTurn s) (definitionID : ℕ) :
    (s.starts.filter (·.definitionID = definitionID)).Sublist
      ((s.enqueued.map (·.item)).filter (·.definitionID = definitionID)) := by
  have hantisymm : Std.Antisymm fun a b : QueueItem => a.seq < b.seq := ⟨fun a b hab hba => absurd hab hba.asymm⟩
  have hstarts : (s.starts.filter (·.definitionID = definitionID)).Pairwise fun a b => a.seq < b.seq := by
    refine (ht.starts.sublist List.filter_sublist).imp_of_mem fun {a b} ha hb hlt => hlt ?_
    have ha := (List.mem_filter.mp ha).2
    have hb := (List.mem_filter.mp hb).2
    simp only [decide_eq_true_eq] at ha hb
    exact ha.trans hb.symm
  have hlog : ((s.enqueued.map (·.item)).filter (·.definitionID = definitionID)).Pairwise
      fun a b => a.seq < b.seq := by
    refine List.Pairwise.sublist List.filter_sublist ?_
    rw [List.pairwise_map]
    exact ht.inOrder
  have hnodup : (s.starts.filter (·.definitionID = definitionID)).Nodup :=
    hstarts.imp fun hlt he => absurd (he ▸ hlt) (lt_irrefl _)
  refine List.sublist_of_subperm_of_pairwise (List.subperm_of_subset hnodup fun x hx => ?_) hstarts hlog
  obtain ⟨hx, hd⟩ := List.mem_filter.mp hx
  obtain ⟨q, hq, rfl⟩ := ht.logged x hx
  exact List.mem_filter.mpr ⟨List.mem_map_of_mem hq, hd⟩

end

theorem queue_not_overtaken {o : QueueOptions} (henabled : o.queueDisabled = false) {db : DB} (hdb : Consistent db)
    (ho : Ordered db) {events : List Event} {c : State} (h : Run (Step o) (resumeQueue db) events c) :
    (∀ definitionID, (c.shared.starts.filter (·.definitionID = definitionID)).Sublist
      ((c.shared.enqueued.map (·.item)).filter (·.definitionID = definitionID))) ∧
      ∀ call run, .trigger call ∈ c.procs → call.pc = .launching run → call.isJob = true →
      call.trigger ≠ .startup → c.shared.db.queue = [] := by
  have hinv := notOvertaken_run hdb ho h
  refine ⟨hinv.inTurn.sublist, fun call run hmem hpc hjob htrigger => hinv.direct _ hmem ?_⟩
  simp [Call.direct, hpc, hjob, queueable, henabled, htrigger]

def threeSlots : QueueOptions := { oneSlot with maxConcurrentRuns := 3 }

def backupTwice : DB :=
  { backupQueued with
    runs := [runArgs backupRun, runArgs backupAgain]
    queue := [⟨1, "r1", 1, 0, 900000000, 150⟩, ⟨2, "r2", 1, 0, 900000000, 150⟩]
    lastSeq := 2 }

lemma backupTwice_enqueued :
    Library.Run (Store.Step fun _ => "hash") backupQueued [.enqueue 0 0 backupAgain none backupLimits false]
      backupTwice :=
  .cons ⟨trivial, .inr ⟨_, rfl⟩⟩ (.nil _)

def firstStarted : State where
  shared :=
    { (resumeQueue backupTwice).shared with
      db := { backupTwice with
        runs := [runArgs { backupRun with status := .pending }, runArgs backupAgain]
        queue := [⟨2, "r2", 1, 0, 900000000, 150⟩] }
      depth := 1
      tokens := 1
      active := [("r1", "backup")]
      nextStart := some 200000000
      served := [(1, 1)]
      tick := 1
      services := [1]
      starts := [⟨1, "r1", 1, 900000000⟩] }
  procs := [.run ⟨"r1", .job, .executing⟩]

def secondStarted : State where
  shared :=
    { firstStarted.shared with
      db := { backupTwice with
        runs := [runArgs { backupRun with status := .pending }, runArgs { backupAgain with status := .pending }]
        queue := [] }
      depth := 0
      tokens := 2
      active := [("r1", "backup"), ("r2", "backup")]
      nextStart := some 400000000
      served := [(1, 2)]
      tick := 2
      services := [1, 1]
      starts := [⟨1, "r1", 1, 900000000⟩, ⟨2, "r2", 1, 900000000⟩] }
  procs := [.run ⟨"r1", .job, .executing⟩, .run ⟨"r2", .job, .executing⟩]

lemma run_firstStarted :
    Run (Step threeSlots) (resumeQueue backupTwice) (List.replicate 19 .loop) firstStarted :=
  .cons (.loop (.again rfl)) <|
  .cons (.loop (.step (.entered (by decide)))) <|
  .cons (.loop (.step (.noneExpired 0 rfl))) <|
  .cons (.loop (.step (.rechecked (by decide)))) <|
  .cons (.loop (.step (.paced 0 nofun))) <|
  .cons (.loop (.step (.reserved (by decide)))) <|
  .cons (.loop (.step (.admitted rfl))) <|
  .cons (.loop (.step (.proceed rfl))) <|
  .cons (.loop (.step (.chosen rfl))) <|
  .cons (.loop (.step (.start (.read rfl rfl)))) <|
  .cons (.loop (.step (.start (.looked 0)))) <|
  .cons (.loop (.step (.start (.clear (by decide))))) <|
  .cons (.loop (.step (.start (.confirmed rfl)))) <|
  .cons (.loop (.step (.start (.dequeued ⟨_, rfl⟩)))) <|
  .cons (.loop (.step (.start (.launched rfl)))) <|
  .cons (.loop (.step (.start (.counted 0)))) <|
  .cons (.loop (.step .unlocked)) <|
  .cons (.loop (.step .consumed)) <|
  .cons (.loop .repeat) <|
  .nil _

lemma run_secondStarted : Run (Step threeSlots) firstStarted (List.replicate 19 .loop) secondStarted :=
  .cons (.loop (.again rfl)) <|
  .cons (.loop (.step (.entered (by decide)))) <|
  .cons (.loop (.step (.noneExpired 200000000 rfl))) <|
  .cons (.loop (.step (.rechecked (by decide)))) <|
  .cons (.loop (.step (.paced 200000000 (by rintro _ ⟨⟩; rfl)))) <|
  .cons (.loop (.step (.reserved (by decide)))) <|
  .cons (.loop (.step (.admitted rfl))) <|
  .cons (.loop (.step (.proceed rfl))) <|
  .cons (.loop (.step (.chosen rfl))) <|
  .cons (.loop (.step (.start (.read rfl rfl)))) <|
  .cons (.loop (.step (.start (.looked 200000000)))) <|
  .cons (.loop (.step (.start (.clear (by decide))))) <|
  .cons (.loop (.step (.start (.confirmed rfl)))) <|
  .cons (.loop (.step (.start (.dequeued ⟨_, rfl⟩)))) <|
  .cons (.loop (.step (.start (.launched rfl)))) <|
  .cons (.loop (.step (.start (.counted 200000000)))) <|
  .cons (.loop (.step .unlocked)) <|
  .cons (.loop (.step .consumed)) <|
  .cons (.loop .repeat) <|
  .nil _

def backupCall : TriggerCall :=
  ⟨{ backup with id := 1, revision := 1 }, "hash", .manual, none, none, 1, "", .waiting⟩

def directRun : Run := backupCall.newRun threeSlots "r3" .pending 300000000

lemma run_direct :
    ∃ c, Run (Step threeSlots) secondStarted (.trigger backupCall :: List.replicate 6 .call) c ∧
      c.shared.starts = secondStarted.shared.starts ∧
      .trigger { backupCall with pc := .launching directRun } ∈ c.procs :=
  ⟨_, .cons (.trigger _ _ rfl) <|
    .cons (.call (.mk secondStarted.procs [] (.admitted rfl rfl))) <|
    .cons (.call (.mk secondStarted.procs [] (.proceed rfl rfl))) <|
    .cons (.call (.mk secondStarted.procs [] (.job rfl rfl rfl (by decide)))) <|
    .cons (.call (.mk secondStarted.procs [] (.direct rfl (by decide)))) <|
    .cons (.call (.mk secondStarted.procs [] (.reserved rfl (by decide)))) <|
    .cons (.call (.mk secondStarted.procs [] (.storedRun "r3" 300000000 rfl rfl ⟨_, rfl⟩))) <|
    .nil _, rfl, List.mem_append_right _ List.mem_cons_self⟩

/-- Two runs of one definition wait; the loop starts them in turn, and only then a third
trigger starts directly. -/
theorem queue_not_overtaken_two_waiting :
    ∃ c : State, c.shared.starts = [⟨1, "r1", 1, 900000000⟩, ⟨2, "r2", 1, 900000000⟩] ∧
      (c.shared.starts.filter (·.definitionID = 1)).Sublist
        ((c.shared.enqueued.map (·.item)).filter (·.definitionID = 1)) ∧
      .trigger { backupCall with pc := .launching directRun } ∈ c.procs ∧ c.shared.db.queue = [] := by
  obtain ⟨hdb, ho⟩ := consistent_ordered_of_run (backup_enqueued.append backupTwice_enqueued)
  obtain ⟨c, hrun, hstarts, hmem⟩ := run_direct
  obtain ⟨hsub, hdirect⟩ :=
    queue_not_overtaken rfl hdb ho (run_firstStarted.append (run_secondStarted.append hrun))
  exact ⟨c, hstarts, hsub 1, hmem, hdirect _ _ hmem rfl rfl (by decide)⟩

/-! ## The loop rotates over the definitions -/

def LoopPc.taken : LoopPc → Option QueueItem
  | .step (.start item _) => some item
  | _ => none

def Shared.rotation (s : Shared) : Rotation :=
  ⟨s.db.queue, s.db.lastSeq, s.served, s.tick, s.loop.taken, s.services⟩

section

variable {o : QueueOptions} {c c' : State} {s s' : Shared} {p : Call} {out : List Call}

lemma Shrinks.rotation (h : Shrinks s s') (hs : s'.served = s.served) (ht : s'.tick = s.tick)
    (hv : s'.services = s.services) (hl : s'.loop.taken = s.loop.taken) :
    Rotation.Step s.rotation (.leave s'.db.queue) s'.rotation := by
  have he : s'.rotation = { s.rotation with queue := s'.db.queue } := by
    simp only [Shared.rotation, h.lastSeq, hs, ht, hv, hl]
  rw [he]
  exact .leave _ h.queue

lemma Logged.rotation (h : Logged s s') (hs : s'.served = s.served) (ht : s'.tick = s.tick)
    (hv : s'.services = s.services) (hl : s'.loop.taken = s.loop.taken) :
    ∃ e, Rotation.Step s.rotation e s'.rotation := by
  cases h with
  | shrink h => exact ⟨_, h.rotation hs ht hv hl⟩
  | grow row hq hseq hlast _ =>
    have he : s'.rotation =
        { s.rotation with queue := s.rotation.queue ++ [row], lastSeq := s.rotation.lastSeq + 1 } := by
      simp only [Shared.rotation, hq, hlast, hs, ht, hv, hl]
    rw [he]
    exact ⟨_, .enqueue row hseq⟩

lemma Local.loop_frame (hidle : s.loop = .stopped → s.closing = false → s.served = []) (h : Local o s p s' out) :
    s'.served = s.served ∧ s'.tick = s.tick ∧ s'.services = s.services := by
  cases p with
  | trigger call =>
    cases h with
    | startedLoop _ hc =>
      cases hloop : s.loop with
      | stopped => simp [Shared.startLoop, hloop, hidle hloop hc]
      | _ => simp [Shared.startLoop, hloop]
    | _ => exact ⟨rfl, rfl, rfl⟩
  | stop call | run r => cases h <;> exact ⟨rfl, rfl, rfl⟩

lemma StartStep.rotation {item : QueueItem} {pc : StartPc} {pc' : StepPc} (h : StartStep o item s pc s' pc' out)
    (hl : s.loop = .step (.start item pc)) :
    ∃ e, Rotation.Step s.rotation e { s' with loop := .step pc' }.rotation := by
  have htaken : s.rotation.taken = some item := congrArg LoopPc.taken hl
  have hshrinks : Shrinks s { s' with loop := .step pc' } :=
    ⟨h.shrinks.queue, h.shrinks.lastSeq, h.shrinks.enqueued⟩
  cases h with
  | counted => exact ⟨_, .settle item htaken⟩
  | unreadable | unknown | undropped | stopping | notDequeued => exact ⟨_, .fail item htaken⟩
  | _ => exact ⟨_, hshrinks.rotation rfl rfl rfl htaken.symm⟩

lemma LoopStep.rotation {pc' : LoopPc} (h : LoopStep o s s.loop s' pc' out) :
    ∃ e, Rotation.Step s.rotation e { s' with loop := pc' }.rotation := by
  have hshrinks : Shrinks s { s' with loop := pc' } := ⟨h.shrinks.queue, h.shrinks.lastSeq, h.shrinks.enqueued⟩
  generalize hl : s.loop = pc at h
  have htaken : s.rotation.taken = pc.taken := congrArg LoopPc.taken hl
  cases h with
  | step h =>
    cases h with
    | start h => exact h.rotation hl
    | chosen hi => exact ⟨_, .take _ htaken hi⟩
    | _ => exact ⟨_, hshrinks.rotation rfl rfl rfl htaken.symm⟩
  | _ => exact ⟨_, hshrinks.rotation rfl rfl rfl htaken.symm⟩

lemma LoopStep.idle {pc pc' : LoopPc} (h : LoopStep o s pc s' pc' out) (hp : pc' = .stopped) :
    s.closing = true := by
  cases h with
  | closing hc | failedClosing hc | stopping hc => exact hc
  | step h => cases h <;> cases hp
  | _ => cases hp

end

structure Rotates (db : DB) (c : State) : Prop where
  idle : c.shared.loop = .stopped → c.shared.closing = false → c.shared.served = []
  run : ∃ moves, Run Rotation.Step (Rotation.start db.queue db.lastSeq) moves c.shared.rotation

section

variable {o : QueueOptions} {c c' : State} {db : DB}

lemma Rotates.extend (hc : Rotates db c) (h : ∃ e, Rotation.Step c.shared.rotation e c'.shared.rotation)
    (hidle : c'.shared.loop = .stopped → c'.shared.closing = false → c'.shared.served = []) : Rotates db c' := by
  obtain ⟨moves, hrun⟩ := hc.run
  obtain ⟨e, hstep⟩ := h
  exact ⟨hidle, _, hrun.append (.cons hstep (.nil _))⟩

lemma Step.rotates {e : Event} (h : Step o c e c') (hm : Mirrored c) (hc : Rotates db c) : Rotates db c' := by
  cases h with
  | call h =>
    obtain ⟨p, out, hp, hl, _⟩ := h.total Call.marks
    have hmove : Move p.inAdmission c.shared.closing c.shared.gauge p.marks c'.shared.gauge (marksOf out) :=
      hl.effect hm.consistent
    obtain ⟨hserved, htick, hservices⟩ := hl.loop_frame hc.idle
    rcases hmove.loop with he | ⟨hs, ht⟩
    · refine hc.extend (hl.logged.rotation hserved htick hservices (congrArg LoopPc.taken he))
        fun hs hclosing => ?_
      exact hserved.trans (hc.idle (he.symm.trans hs) (hl.frame.1.symm.trans hclosing))
    · have hs' : c.shared.loop = .stopped := hs
      have ht' : c'.shared.loop = .top := ht
      exact hc.extend (hl.logged.rotation hserved htick hservices (by rw [hs', ht']; rfl))
        fun h => by simp [ht'] at h
  | loop h =>
    refine hc.extend h.rotation fun hs hclosing => ?_
    have hclosed := h.idle hs
    rw [← h.frame.1] at hclosed
    exact absurd hclosed (by simpa using hclosing)
  | store hf hi hdb =>
    have hshrinks : Shrinks c.shared { c.shared with db := _ } :=
      ⟨hdb.shrinks hm.consistent hi (foreign_isEnqueue hf), hdb.lastSeq (foreign_isEnqueue hf), rfl⟩
    exact hc.extend ⟨_, hshrinks.rotation rfl rfl rfl rfl⟩ hc.idle
  | trigger call hpc | stop id => exact ⟨hc.idle, hc.run⟩
  | shutdown => exact ⟨fun _ h => by simp at h, hc.run⟩

theorem rotates_run (hdb : Consistent db) (ho : Ordered db) {events : List Event}
    (h : Run (Step o) (resumeQueue db) events c) : Rotates db c := by
  refine (Run.invariant (P := fun c => Mirrored c ∧ Rotates db c)
    (fun _ _ _ hstep hs => ⟨hstep.mirrored hs.1, hstep.rotates hs.1 hs.2⟩) h
    ⟨mirrored_resumeQueue hdb ho, fun _ _ => rfl, [], ?_⟩).2
  have hstart : (resumeQueue db).shared.rotation = Rotation.start db.queue db.lastSeq := by
    rcases resumeQueue_loop db with ⟨hl, _⟩ | ⟨hl, _⟩ <;> rw [Shared.rotation, hl] <;> rfl
  rw [hstart]
  exact .nil _

theorem rotates_run_backup :
    secondStarted.shared.starts = [⟨1, "r1", 1, 900000000⟩, ⟨2, "r2", 1, 900000000⟩] ∧
      Rotates backupTwice secondStarted := by
  obtain ⟨hdb, ho⟩ := consistent_ordered_of_run (backup_enqueued.append backupTwice_enqueued)
  exact ⟨rfl, rotates_run hdb ho (run_firstStarted.append run_secondStarted)⟩

/-! ## The executor refines the store -/

lemma Step.stores {e : Event} (h : Step o c e c') : Stores o c.shared.db c'.shared.db := by
  cases h with
  | call h =>
    obtain ⟨p, out, _, hl, _⟩ := h.mem_procs
    exact hl.stores
  | loop h => exact h.stores
  | store _ hi hdb => exact .inr ⟨_, hi, hdb⟩
  | trigger | stop | shutdown => exact .inl rfl

lemma executor_refines_store {events : List Event} (h : Run (Step o) c events c') :
    ∃ ops, Run (Store.Step o.specHash) c.shared.db ops c'.shared.db := by
  have hstores : ∀ s e t db, Step o s e t → s.shared.db = db →
      ∃ ops db', Run (Store.Step o.specHash) db ops db' ∧ t.shared.db = db' := by
    rintro s _ t _ hstep rfl
    rcases hstep.stores with heq | ⟨op, hi, hc⟩
    · exact ⟨[], _, .nil _, heq⟩
    · exact ⟨[op], _, .cons ⟨hi, .inr hc⟩ (.nil _), rfl⟩
  obtain ⟨ops, _, hrun, rfl⟩ := h.simulates _ _ hstores rfl
  exact ⟨ops, hrun⟩

end

end Minicrond.Executor.Queue
