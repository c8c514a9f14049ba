import Mathlib.Algebra.Group.Prod
import Mathlib.Algebra.Order.BigOperators.Group.List
import Mathlib.Algebra.Order.Group.Nat
import Minicrond.Executor.DrainQueue

/-! The depth counter never falls behind the queue, and the drain loop does not sleep while rows wait without a
reason to wake up. -/

namespace Minicrond.Executor.Queue

open Minicrond.Library Minicrond.Store Minicrond.Time

/-! ## What the loop and the calls hold -/

def StartPc.gone : StartPc → Bool
  | .launching _ | .refused | .waking | .counting _ => true
  | _ => false

namespace StepPc

def claimed (queue : List QueueRow) : StepPc → ℕ
  | .uncounting n => queue.length + n
  | .start item pc => bif pc.gone then queue.length + 1 else queue.countP (·.runID ≠ item.runID) + 1
  | _ => queue.length

def inAdmission : StepPc → Bool
  | .checking | .choosing | .resyncing | .storing _ | .start _ _ | .unlocking _ _ => true
  | _ => false

end StepPc

namespace LoopPc

def claimed (queue : List QueueRow) : LoopPc → ℕ
  | .step pc => pc.claimed queue
  | _ => queue.length

def inAdmission : LoopPc → Bool
  | .step pc => pc.inAdmission
  | _ => false

def running : LoopPc → Bool
  | .top | .step _ | .returned _ => true
  | .stopped | .asleep _ _ => false

end LoopPc

/-- Rows enqueued and not counted, rows cancelled and not counted, enqueues whose signal is outstanding, and
released slots whose signal is outstanding. -/
abbrev Marks := ℕ × ℕ × ℕ × ℕ

namespace Call

def marks : Call → Marks
  | .trigger c =>
    match c.pc with
    | .counting => (1, 0, 1, 0)
    | .starting | .signalling => (0, 0, 1, 0)
    | .waking => (0, 0, 0, 1)
    | _ => 0
  | .stop c =>
    match c.pc with
    | .counting => (0, 1, 0, 0)
    | _ => 0
  | .run r =>
    match r.pc with
    | .waking => (0, 0, 0, 1)
    | _ => 0

def inAdmission : Call → Bool
  | .trigger c =>
    match c.pc with
    | .waiting => false
    | _ => true
  | .stop c =>
    match c.pc with
    | .entering | .waiting => false
    | _ => true
  | .run _ => false

def admissions (p : Call) : ℕ := p.inAdmission.toNat

end Call

namespace State

variable (c : State)

def marks : Marks := c.total Call.marks

def uncounted : ℕ := c.marks.1

def overcounted : ℕ := c.marks.2.1

def unsignalled : ℕ := c.marks.2.2.1

def releasing : ℕ := c.marks.2.2.2

end State

def marksOf (calls : List Call) : Marks := (calls.map Call.marks).sum

structure Gauge where
  queue : List QueueRow
  depth : ℤ
  wake : Bool
  tokens : ℕ
  loop : LoopPc

def Shared.gauge (s : Shared) : Gauge := ⟨s.db.queue, s.depth, s.wake, s.tokens, s.loop⟩

inductive Move (inside closing : Bool) : Gauge → Marks → Gauge → Marks → Prop
  | quiet {g m m'} {queue : List QueueRow} (hq : queue.Sublist g.queue) (hm : m' = m) :
      Move inside closing g m { g with queue := queue } m'
  | enqueue {g m m'} (row : QueueRow) (ha : inside = true) (hp : m = 0) (hm : m' = (1, 0, 1, 0)) :
      Move inside closing g m { g with queue := g.queue ++ [row] } m'
  | count {g m m'} (hp : m = (1, 0, 1, 0)) (hm : m' = (0, 0, 1, 0)) :
      Move inside closing g m { g with depth := g.depth + 1 } m'
  | start {g m m'} (hl : g.loop = .stopped) (hm : m' = m) : Move inside closing g m { g with loop := .top } m'
  | abandon {g m m'} (hc : closing = true) (hp : m = (0, 0, 1, 0)) (hm : m' = 0) : Move inside closing g m g m'
  | signal {g m m'} (hp : m = (0, 0, 1, 0)) (hm : m' = 0) : Move inside closing g m { g with wake := true } m'
  | cancel {g m m'} {queue : List QueueRow} (ha : inside = true) (hq : queue.Sublist g.queue)
      (hlt : queue.length < g.queue.length) (hp : m = 0) (hm : m' = (0, 1, 0, 0)) :
      Move inside closing g m { g with queue := queue } m'
  | uncount {g m m'} (hp : m = (0, 1, 0, 0)) (hm : m' = 0) :
      Move inside closing g m { g with depth := g.depth + -1 } m'
  | take {g m m'} (hm : m' = m) : Move inside closing g m { g with tokens := g.tokens + 1 } m'
  | give {g m m'} (hp : m = 0) (hm : m' = (0, 0, 0, 1)) :
      Move inside closing g m { g with tokens := g.tokens - 1 } m'
  | slot {g m m'} (hp : m = (0, 0, 0, 1)) (hm : m' = 0) :
      Move inside closing g m { g with wake := g.wake || decide (0 < g.depth) } m'

def CallEffect (s : Shared) (p : Call) (s' : Shared) (out : List Call) : Prop :=
  Move p.inAdmission s.closing s.gauge p.marks s'.gauge (marksOf out)

section

variable {o : QueueOptions} {s s' : Shared} {p : Call} {out : List Call}

@[simp]
lemma marksOf_goto (c : TriggerCall) (pc : TriggerPc) :
    marksOf (c.goto pc) = (Call.trigger { c with pc := pc }).marks := by
  simp [marksOf, TriggerCall.goto]

@[simp]
lemma marksOf_stop (c : StopCall) (pc : StopPc) : marksOf (c.goto pc) = (Call.stop { c with pc := pc }).marks := by
  simp [marksOf, StopCall.goto]

lemma marks_enqueueFailed (c : TriggerCall) (e : StoreError) :
    marksOf (c.goto (c.enqueueFailed e)) = 0 := by
  rw [marksOf_goto]
  cases e with
  | queueFull detail => by_cases h : c.trigger = .schedule <;> simp [TriggerCall.enqueueFailed, Call.marks, h]
  | _ => simp [TriggerCall.enqueueFailed, Call.marks]

lemma createRun_queue {r : Run} {db db' : DB} (h : (createRun r).Commits db db') : db'.queue = db.queue := by
  obtain ⟨_, h⟩ := h
  obtain ⟨_, rfl⟩ := createRun_ok h
  rfl

lemma admitIdempotentRun_queue {now later : ℤ} {r : Run} {idem : Idempotency} {db db' : DB}
    (h : (admitIdempotentRun now later r idem).Commits db db') : db'.queue = db.queue := by
  obtain ⟨_, h⟩ := h
  obtain ⟨_, ⟨_, rfl⟩ | ⟨_, _, rfl⟩⟩ := admitIdempotentRun_ok h
  · rfl
  · rfl

lemma cancelQueued_lt {id : String} {now : ℤ} {db db' : DB} (hdb : Consistent db)
    (h : cancelQueued id now db = .ok (true, db')) :
    db'.queue.Sublist db.queue ∧ db'.queue.length < db.queue.length := by
  obtain ⟨rfl, hqueued⟩ := endQueued_ok h
  refine ⟨deleteWhere_sublist, ?_⟩
  obtain ⟨r, hr, hrun⟩ := List.any_eq_true.mp hqueued.symm
  simp only [Bool.and_eq_true, decide_eq_true_eq] at hrun
  obtain ⟨q, hq, hid⟩ := hdb.exists_item hr hrun.2
  refine List.length_filter_lt_length_iff_exists.mpr ⟨q, hq, ?_⟩
  simp [hid, hrun.1]

lemma CallEffect.of_store {db' : DB} (hq : db'.queue.Sublist s.db.queue) (hm : marksOf out = p.marks) :
    CallEffect s p { s with db := db' } out := .quiet hq hm

lemma CallEffect.of_same (hg : s'.gauge = s.gauge) (hm : marksOf out = p.marks) : CallEffect s p s' out := by
  rw [CallEffect, hg]
  exact .quiet (List.Sublist.refl _) hm

lemma CallEffect.of_signalSlot (hp : p.marks = (0, 0, 0, 1)) (hm : marksOf out = 0) :
    CallEffect s p s.signalSlot out := by
  exact .slot hp hm

lemma TriggerStep.effect {c : TriggerCall} (h : TriggerStep o s c s' out) : CallEffect s (.trigger c) s' out := by
  cases h with
  | gaveUp h | left h => exact .of_same rfl (by simp [marksOf, Call.marks, h])
  | reserved h => exact .take (by simp [Call.marks, h])
  | enqueued id queued now later h hdb =>
    obtain ⟨_, ⟨ho, _⟩ | ⟨_, _, _, rfl⟩⟩ := enqueueRun_cases hdb
    · exact (ho rfl).elim
    · exact .enqueue _ (by simp [Call.inAdmission, h]) (by simp [Call.marks, h]) (marksOf_goto ..)
  | replayed id replay queued now later h hdb =>
    obtain ⟨_, ⟨_, rfl⟩ | ⟨ho, _⟩⟩ := enqueueRun_cases hdb
    · exact .of_same rfl (by simp [Call.marks, h])
    · exact (Option.some_ne_none _ ho).elim
  | refused id queued now later h => exact .of_same rfl (by rw [marks_enqueueFailed]; simp [Call.marks, h])
  | counted h => exact .count (by simp [Call.marks, h]) (marksOf_goto ..)
  | stopping h hc => exact .abandon hc (by simp [Call.marks, h]) (marksOf_goto ..)
  | startedLoop h hc =>
    have hm : marksOf (c.goto .signalling) = (Call.trigger c).marks := by simp [Call.marks, h]
    cases hl : s.loop with
    | stopped =>
      have hstart : s.startLoop.gauge = { s.gauge with loop := .top } := by
        simp [Shared.startLoop, Shared.gauge, hl]
      rw [CallEffect, hstart]
      exact .start hl hm
    | _ => exact .of_same (by simp [Shared.startLoop, hl]) hm
  | signalled h => exact .signal (by simp [Call.marks, h]) (marksOf_goto ..)
  | skippedKeyed id now read later h hk hdb =>
    exact .of_store (by simp [admitIdempotentRun_queue hdb]) (by simp [Call.marks, h])
  | skipped id now h hk hdb =>
    exact .of_store (by simp [createRun_queue hdb]) (by simp [Call.marks, h])
  | admittedRun id now read later h hk hdb | replayedRun id existing now read later h hk hdb =>
    exact .of_store (by simp [admitIdempotentRun_queue ⟨_, hdb⟩]) (by simp [Call.marks, h])
  | storedRun id now h hk hdb =>
    exact .of_store (by simp [createRun_queue hdb]) (by simp [Call.marks, h])
  | deferred id now h => exact .of_same rfl (by simp [Call.marks, h])
  | launched h => exact .of_same rfl (by simp [marksOf, TriggerCall.goto, Call.marks, h])
  | released h => exact .give (by simp [Call.marks, h]) (marksOf_goto ..)
  | woke h => exact .of_signalSlot (by simp [Call.marks, h]) (marksOf_goto ..)
  | _ h => exact .of_same rfl (by simp [Call.marks, h])

lemma StopStep.effect {c : StopCall} (hdb : Consistent s.db) (h : StopStep s c s' out) :
    CallEffect s (.stop c) s' out := by
  cases h with
  | found h | gaveUp h | left h => exact .of_same rfl (by simp [marksOf, Call.marks, h])
  | cancelled now h hc =>
    obtain ⟨hsub, hlt⟩ := cancelQueued_lt hdb hc
    exact .cancel (by simp [Call.inAdmission, h]) hsub hlt (by simp [Call.marks, h]) (marksOf_stop ..)
  | notQueued now h hc =>
    obtain ⟨rfl, _⟩ := endQueued_ok hc
    exact .of_store deleteWhere_sublist (by simp [Call.marks, h])
  | counted h => exact .uncount (by simp [Call.marks, h]) (marksOf_stop ..)
  | _ h => exact .of_same rfl (by simp [Call.marks, h])

lemma RunStep.effect {r : JobRun} (h : RunStep s r s' out) : CallEffect s (.run r) s' out := by
  cases h with
  | ended h | endedWorker h => exact .of_same rfl (by simp [marksOf, Call.marks, h])
  | released h => exact .give (by simp [Call.marks, h]) (by simp [marksOf, Call.marks])
  | woke h => exact .of_signalSlot (by simp [Call.marks, h]) rfl

lemma Local.effect (hdb : Consistent s.db) (h : Local o s p s' out) : CallEffect s p s' out := by
  cases p with
  | trigger c => exact TriggerStep.effect h
  | stop c => exact StopStep.effect hdb h
  | run r => exact RunStep.effect h

lemma TriggerStep.frame {call : TriggerCall} (h : TriggerStep o s call s' out) :
    s'.closing = s.closing ∧ (s'.backoff = s.backoff ∨ s'.backoff = queueBackoffMin) := by
  cases h with
  | startedLoop => cases hl : s.loop <;> simp [Shared.startLoop, hl]
  | _ => exact ⟨rfl, .inl rfl⟩

lemma Local.frame (h : Local o s p s' out) :
    s'.closing = s.closing ∧ (s'.backoff = s.backoff ∨ s'.backoff = queueBackoffMin) := by
  cases p with
  | trigger call => exact TriggerStep.frame h
  | stop call | run r => cases h <;> exact ⟨rfl, .inl rfl⟩

lemma StartStep.frame {item : QueueItem} {pc : StartPc} {pc' : StepPc} (h : StartStep o item s pc s' pc' out) :
    s'.closing = s.closing ∧ s'.backoff = s.backoff ∧ (s.wake = true → s'.wake = true) := by
  cases h with
  | woke => exact ⟨rfl, rfl, fun hw => by simp [Shared.signalSlot, hw]⟩
  | _ => exact ⟨rfl, rfl, id⟩

lemma LoopStep.frame {pc pc' : LoopPc} (h : LoopStep o s pc s' pc' out) :
    s'.closing = s.closing ∧ (s.wake = true → s'.wake = true ∨ pc' = .top) := by
  cases h with
  | step h =>
    cases h with
    | start h => exact ⟨h.frame.1, fun hw => .inl (h.frame.2.2 hw)⟩
    | _ => exact ⟨rfl, .inl⟩
  | woken => exact ⟨rfl, fun _ => .inr rfl⟩
  | _ => exact ⟨rfl, .inl⟩

end

/-! ## Transactions -/

def Stores (o : QueueOptions) (db db' : DB) : Prop :=
  db' = db ∨ ∃ op : Op, op.Issued ∧ op.Commits o.specHash db db'

section

variable {o : QueueOptions} {s s' : Shared} {p : Call} {out : List Call} {db db' : DB}

lemma Stores.consistent (h : Stores o db db') (hdb : Consistent db) : Consistent db' := by
  rcases h with rfl | ⟨op, hi, hc⟩
  · exact hdb
  · exact Store.Step.consistent ⟨hi, .inr hc⟩ hdb

lemma Stores.ordered (h : Stores o db db') (hdb : Consistent db) (ho : Ordered db) : Ordered db' := by
  rcases h with rfl | ⟨op, hi, hc⟩
  · exact ho
  · exact (hc.queueEffect hdb hi).ordered ho

lemma TriggerStep.stores {c : TriggerCall} (h : TriggerStep o s c s' out) : Stores o s.db s'.db := by
  cases h with
  | enqueued id queued now later h hdb | replayed id replay queued now later h hdb =>
    exact .inr ⟨.enqueue now later _ _ _ _, trivial, _, hdb⟩
  | skippedKeyed id now read later h hk hdb =>
    exact .inr ⟨.admitIdempotent read later _ _, by simp [Op.Issued, TriggerCall.skippedRun, TriggerCall.newRun],
      hdb⟩
  | skipped id now h hk hdb =>
    exact .inr ⟨.create _, by simp [Op.Issued, TriggerCall.skippedRun, TriggerCall.newRun], hdb⟩
  | admittedRun id now read later h hk hdb | replayedRun id existing now read later h hk hdb =>
    exact .inr ⟨.admitIdempotent read later _ _, by simp [Op.Issued, TriggerCall.newRun], _, hdb⟩
  | storedRun id now h hk hdb => exact .inr ⟨.create _, by simp [Op.Issued, TriggerCall.newRun], hdb⟩
  | startedLoop h hc => exact .inl (by cases hl : s.loop <;> simp [Shared.startLoop, hl])
  | _ => exact .inl rfl

lemma Local.stores (h : Local o s p s' out) : Stores o s.db s'.db := by
  cases p with
  | trigger c => exact TriggerStep.stores h
  | stop c =>
    cases h with
    | cancelled now h hc | notQueued now h hc => exact .inr ⟨.cancel c.id now, trivial, _, hc⟩
    | _ => exact .inl rfl
  | run r => cases h <;> exact .inl rfl

lemma StartStep.stores {item : QueueItem} {pc : StartPc} {pc' : StepPc} (h : StartStep o item s pc s' pc' out) :
    Stores o s.db s'.db := by
  cases h with
  | @dropped reason now _ _ hdb => exact .inr ⟨.drop item.runID reason now, trivial, _, hdb⟩
  | @dequeued current hash _ hdb => exact .inr ⟨.dequeue item.runID current.revision hash o.bootID, trivial, hdb⟩
  | _ => exact .inl rfl

lemma LoopStep.stores {pc pc' : LoopPc} (h : LoopStep o s pc s' pc' out) : Stores o s.db s'.db := by
  cases h with
  | step h =>
    cases h with
    | expired now hdb | noneExpired now hdb => exact .inr ⟨.expire now queueExpireBatch, trivial, _, hdb⟩
    | start h => exact h.stores
    | _ => exact .inl rfl
  | _ => exact .inl rfl

/-! ## The admission token -/

lemma admission_startLoop (s : Shared) : s.startLoop.admission = s.admission := by
  cases hl : s.loop <;> simp [Shared.startLoop, hl]

lemma admission_unlock (h : 1 ≤ s.admission.toNat) : s.unlock.admission.toNat + 1 = s.admission.toNat := by
  have := Bool.toNat_le s.admission
  simp only [Shared.unlock, Bool.toNat_false]
  omega

lemma inAdmission_goto {c : TriggerCall} {pc : TriggerPc} (h : pc ≠ .waiting) :
    ((c.goto pc).map Call.admissions).sum = 1 := by
  cases pc <;> simp_all [TriggerCall.goto, Call.admissions, Call.inAdmission]

lemma enqueueFailed_ne (c : TriggerCall) (e : StoreError) : c.enqueueFailed e ≠ .waiting := by
  cases e with
  | queueFull detail => by_cases h : c.trigger = .schedule <;> simp [TriggerCall.enqueueFailed, h]
  | _ => simp [TriggerCall.enqueueFailed]

lemma TriggerStep.admission {c : TriggerCall} (h : TriggerStep o s c s' out)
    (hp : (Call.trigger c).admissions ≤ s.admission.toNat) :
    s'.admission.toNat + (Call.trigger c).admissions = s.admission.toNat + (out.map Call.admissions).sum := by
  cases h with
  | admitted h ha =>
    rw [inAdmission_goto (by simp)]
    simp [Shared.lock, Call.admissions, Call.inAdmission, h, ha]
  | gaveUp h => simp [Call.admissions, Call.inAdmission, h]
  | left h =>
    simp only [Call.admissions, Call.inAdmission, h, Bool.toNat_true] at hp ⊢
    exact admission_unlock hp
  | refused id queued now later h =>
    rw [inAdmission_goto (enqueueFailed_ne c _)]
    simp [Call.admissions, Call.inAdmission, h]
  | startedLoop h =>
    rw [inAdmission_goto (by simp), admission_startLoop]
    simp [Call.admissions, Call.inAdmission, h]
  | woke h =>
    rw [inAdmission_goto (by simp)]
    simp [Shared.signalSlot, Call.admissions, Call.inAdmission, h]
  | launched h =>
    rw [List.map_append, List.sum_append, inAdmission_goto (by simp)]
    simp [Shared.register, Call.admissions, Call.inAdmission, h]
  | _ =>
    rw [inAdmission_goto (by simp)]
    simp_all [Shared.take, Shared.give, Shared.count, Shared.signal, Call.admissions, Call.inAdmission]

lemma Local.admission (h : Local o s p s' out) (hp : p.admissions ≤ s.admission.toNat) :
    s'.admission.toNat + p.admissions = s.admission.toNat + (out.map Call.admissions).sum := by
  cases p with
  | trigger c => exact TriggerStep.admission h hp
  | stop c =>
    cases h with
    | left h =>
      simp only [Call.admissions, Call.inAdmission, h, Bool.toNat_true] at hp ⊢
      exact admission_unlock hp
    | _ => simp_all [Shared.lock, Shared.count, StopCall.goto, Call.admissions, Call.inAdmission]
  | run r =>
    cases h with
    | woke h => simp [Shared.signalSlot, Call.admissions, Call.inAdmission]
    | _ => simp [Shared.unregister, Shared.give, Call.admissions, Call.inAdmission]

lemma StartStep.admission {item : QueueItem} {pc : StartPc} {pc' : StepPc} (h : StartStep o item s pc s' pc' out) :
    s'.admission = s.admission ∧ pc'.inAdmission = true ∧ (out.map Call.admissions).sum = 0 ∧ marksOf out = 0 := by
  cases h with
  | _ => exact ⟨rfl, rfl, rfl, rfl⟩

lemma LoopStep.admission {pc pc' : LoopPc} (h : LoopStep o s pc s' pc' out)
    (hp : pc.inAdmission.toNat ≤ s.admission.toNat) :
    s'.admission.toNat + pc.inAdmission.toNat = s.admission.toNat + pc'.inAdmission.toNat ∧
      (out.map Call.admissions).sum = 0 ∧ marksOf out = 0 := by
  cases h with
  | step h =>
    cases h with
    | admitted ha => simp [ha, Shared.lock, LoopPc.inAdmission, StepPc.inAdmission, marksOf]
    | start h =>
      obtain ⟨hs, hpc, hout, hm⟩ := h.admission
      exact ⟨by simp only [LoopPc.inAdmission, hs, hpc]; rfl, hout, hm⟩
    | unlocked =>
      simp only [LoopPc.inAdmission, StepPc.inAdmission, Bool.toNat_true] at hp
      refine ⟨?_, rfl, rfl⟩
      simp only [LoopPc.inAdmission, StepPc.inAdmission, Shared.unlock, Bool.toNat_true, Bool.toNat_false]
      have := Bool.toNat_le s.admission
      omega
    | _ => exact ⟨rfl, rfl, rfl⟩
  | _ => exact ⟨rfl, rfl, rfl⟩

/-! ## The counter and the rows -/

section

variable {queue queue' : List QueueRow} {id : String}

lemma countP_ne_lt {q : QueueRow} (hq : q ∈ queue) (hid : q.runID = id) :
    queue.countP (·.runID ≠ id) < queue.length := by
  rw [List.countP_eq_length_filter]
  exact List.length_filter_lt_length_iff_exists.mpr ⟨q, hq, by simpa using hid⟩

lemma length_le_countP_ne (hq : (queue.map (·.runID)).Nodup) (id : String) :
    queue.length ≤ queue.countP (·.runID ≠ id) + 1 := by
  have hcount : queue.countP (·.runID = id) ≤ 1 := by
    have hle := List.nodup_iff_count_le_one.mp hq id
    rwa [List.count, List.countP_map] at hle
  have hsplit := queue.length_eq_countP_add_countP (·.runID = id)
  simp only [decide_not, ne_eq] at hsplit ⊢
  simp only [Bool.decide_eq_true] at hsplit
  omega

lemma length_deleteWhere : (deleteWhere (·.runID = id) queue).length = queue.countP (·.runID ≠ id) := by
  simp [deleteWhere, List.countP_eq_length_filter]

lemma StepPc.claimed_mono (pc : StepPc) (h : queue'.Sublist queue) : pc.claimed queue' ≤ pc.claimed queue := by
  have hlength := h.length_le
  cases pc with
  | uncounting n => exact Nat.add_le_add_right hlength n
  | start item pc =>
    have hcount := h.countP_le (p := (·.runID ≠ item.runID))
    cases hpc : pc.gone with
    | true => simpa [claimed, hpc] using hlength
    | false => simpa [claimed, hpc] using hcount
  | _ => exact hlength

lemma LoopPc.claimed_mono (pc : LoopPc) (h : queue'.Sublist queue) : pc.claimed queue' ≤ pc.claimed queue := by
  cases pc with
  | step pc => exact pc.claimed_mono h
  | _ => exact h.length_le

lemma LoopPc.claimed_append (pc : LoopPc) (queue : List QueueRow) (row : QueueRow) :
    pc.claimed (queue ++ [row]) ≤ pc.claimed queue + 1 := by
  cases pc with
  | step pc =>
    cases pc with
    | uncounting n =>
      simp only [claimed, StepPc.claimed, List.length_append, List.length_singleton]
      omega
    | start item pc =>
      have hle := List.countP_le_length (p := (·.runID ≠ item.runID)) (l := [row])
      simp only [List.length_singleton] at hle
      cases hpc : pc.gone with
      | true => simp [claimed, StepPc.claimed, hpc]
      | false =>
        simp only [claimed, StepPc.claimed, hpc, cond_false, List.countP_append]
        omega
    | _ => simp [claimed, StepPc.claimed]
  | _ => simp [claimed]

lemma LoopPc.claimed_cancel {pc : LoopPc} (h : pc.inAdmission = false) (hlt : queue'.length < queue.length) :
    pc.claimed queue' + 1 ≤ pc.claimed queue := by
  cases pc with
  | step pc =>
    cases pc with
    | uncounting n =>
      simp only [claimed, StepPc.claimed]
      omega
    | start item pc => simp [inAdmission, StepPc.inAdmission] at h
    | _ => exact hlt
  | _ => exact hlt

lemma LoopPc.length_le_claimed (hq : (queue.map (·.runID)).Nodup) (pc : LoopPc) :
    queue.length ≤ pc.claimed queue := by
  cases pc with
  | step pc =>
    cases pc with
    | uncounting n => exact Nat.le_add_right _ _
    | start item pc =>
      cases hpc : pc.gone with
      | true => simp [claimed, StepPc.claimed, hpc]
      | false => simpa [claimed, StepPc.claimed, hpc] using length_le_countP_ne hq item.runID
    | _ => exact le_rfl
  | _ => exact le_rfl

end

lemma expireQueued_length {now : ℤ} {limit : ℕ} {ids : List String} (hdb : Consistent db)
    (h : expireQueued now limit db = .ok (ids, db')) : db'.queue.length + ids.length ≤ db.queue.length := by
  obtain ⟨hids, ⟨hnil, rfl⟩ | rfl⟩ := expireQueued_ok h
  · simp [hnil]
  · -- The expired identifiers are those of distinct rows, and each of these rows leaves.
    have hsub : ids.Subperm ((db.queue.filter fun q => ids.contains q.runID).map (·.runID)) := by
      have hperm : ids.Subperm ((db.queue.filter (·.expiresUs ≤ unixMicro now)).map (·.runID)) := by
        rw [hids, expiredIDs]
        exact ((List.take_sublist _ _).map _).subperm.trans ((List.perm_insertionSort _ _).map _).subperm
      have hnodup : ids.Nodup := by
        obtain ⟨l, hl, hls⟩ := hperm
        exact hl.nodup_iff.mp (hdb.queue.sublist (hls.trans (List.filter_sublist.map _)))
      refine List.subperm_of_subset hnodup fun id hid => ?_
      obtain ⟨q, hq, rfl⟩ := List.mem_map.mp (hperm.subset hid)
      exact List.mem_map_of_mem (List.mem_filter.mpr ⟨(List.mem_filter.mp hq).1, List.contains_iff_mem.mpr hid⟩)
    have hle := hsub.length_le
    have hsplit := db.queue.length_eq_length_filter_add fun q => ids.contains q.runID
    simp only [List.length_map] at hle
    simp only [endRuns, deleteWhere]
    omega

lemma dequeueRun_error {hash bootID : String} {revision : ℕ} {e : StoreError} {id : String}
    (h : dequeueRun id revision hash bootID db = .error e) {r : RunRow} (hr : r ∈ db.runs) (hid : r.runID = id) :
    r.status ≠ .queued := by
  intro hs
  have hany : (db.runs.any fun r => r.runID = id && r.status = .queued) = true :=
    List.any_eq_true.mpr ⟨r, hr, by simp [hid, hs]⟩
  have hok : dequeueRun id revision hash bootID db = .ok ((), db.dequeued id revision hash bootID) := by
    rw [dequeueRun, Transaction.bind_of_ok (Transaction.get_ok.mpr ⟨rfl, rfl⟩), hany]
    rfl
  simp [hok] at h

lemma countP_ne_of_dequeueRun_error {hash bootID : String} {revision : ℕ} {e : StoreError} {id : String}
    (hdb : Consistent db) (h : dequeueRun id revision hash bootID db = .error e) :
    db.queue.countP (·.runID ≠ id) = db.queue.length := by
  refine List.countP_eq_length.mpr fun q hq => ?_
  obtain ⟨r, hr, hid, hs⟩ := hdb.exists_run hq
  simp only [ne_eq, decide_eq_true_eq]
  exact fun he => dequeueRun_error h hr (hid.trans he) hs

lemma revalidate_gone {item : QueueItem} {run : RunRow} {now : ℤ} {found : Option (Definition × String)} :
    (revalidate o item run now found).gone = false := by
  rcases @revalidate_cases o item run now found with ⟨_, h⟩ | ⟨_, _, h, -⟩ <;> rw [h] <;> rfl

lemma StartStep.depth {item : QueueItem} {pc : StartPc} {pc' : StepPc} (hdb : Consistent s.db)
    (h : StartStep o item s pc s' pc' out) :
    (pc'.claimed s'.db.queue : ℤ) - s'.depth ≤ (StepPc.start item pc).claimed s.db.queue - s.depth := by
  have hexit : (s.db.queue.length : ℤ) ≤ (s.db.queue.countP (·.runID ≠ item.runID) + 1 : ℕ) :=
    Int.ofNat_le.mpr (length_le_countP_ne hdb.queue item.runID)
  cases h with
  | looked now =>
    simp only [StepPc.claimed, revalidate_gone]
    exact le_rfl
  | dropped now hd =>
    obtain ⟨rfl, _⟩ := endQueued_ok hd
    simp only [StepPc.claimed, StartPc.gone, cond_true, cond_false, endRuns, length_deleteWhere]
    exact le_rfl
  | dequeued hd =>
    obtain ⟨_, hd⟩ := hd
    obtain ⟨_, rfl⟩ := dequeueRun_ok hd
    simp only [StepPc.claimed, StartPc.gone, cond_true, cond_false, DB.dequeued, length_deleteWhere]
    exact le_rfl
  | endedElsewhere hd =>
    simp only [StepPc.claimed, StartPc.gone, cond_true, cond_false, countP_ne_of_dequeueRun_error hdb hd]
    exact le_rfl
  | counted now =>
    simp only [StepPc.claimed, StartPc.gone, cond_true, Shared.count]
    omega
  | unreadable | unknown | undropped | stopping | notDequeued => exact sub_le_sub_right hexit _
  | _ => exact le_rfl

lemma LoopStep.depth {pc pc' : LoopPc} (hdb : Consistent s.db) (h : LoopStep o s pc s' pc' out) :
    (pc'.claimed s'.db.queue : ℤ) - s'.depth ≤ pc.claimed s.db.queue - s.depth ∨
      ∃ n : ℕ, pc = .step (.storing n) ∧ s'.depth = n ∧ pc'.claimed s'.db.queue = s.db.queue.length := by
  cases h with
  | step h =>
    cases h with
    | expired now hd =>
      left
      have hlength := expireQueued_length hdb hd
      simp only [LoopPc.claimed, StepPc.claimed]
      omega
    | noneExpired now hd =>
      left
      have hlength := expireQueued_length hdb hd
      simp only [List.length_nil, add_zero] at hlength
      simp only [LoopPc.claimed, StepPc.claimed]
      omega
    | uncountedAll | uncounted =>
      left
      simp only [LoopPc.claimed, StepPc.claimed, Shared.count]
      omega
    | chosen hi =>
      obtain ⟨q, hq, rfl, _⟩ := mem_queueHeads (nextItem_mem hi)
      exact .inl (sub_le_sub_right (Int.ofNat_le.mpr (countP_ne_lt hq rfl)) _)
    | resynced => exact .inr ⟨_, rfl, rfl, rfl⟩
    | start h => exact .inl (h.depth hdb)
    | _ => exact .inl le_rfl
  | _ => exact .inl le_rfl

end

/-! ## The mirror -/

structure Mirrored (c : State) : Prop where
  consistent : Consistent c.shared.db
  ordered : Ordered c.shared.db
  admission : c.shared.loop.inAdmission.toNat + c.total Call.admissions = c.shared.admission.toNat
  depth : (c.shared.loop.claimed c.shared.db.queue : ℤ) + c.overcounted ≤ c.shared.depth + c.uncounted
  resync : ∀ n, c.shared.loop = .step (.storing n) → c.shared.db.queue.length ≤ n

section

variable {o : QueueOptions} {c c' : State} {s s' : Shared} {p : Call} {out : List Call}

lemma Mirrored.queue_le_depth (hc : Mirrored c) (h : c.uncounted = 0) :
    (c.shared.db.queue.length : ℤ) ≤ c.shared.depth := by
  have hdepth := hc.depth
  have hle := c.shared.loop.length_le_claimed hc.consistent.queue
  omega

lemma admissions_le (hp : p ∈ c.procs) : p.admissions ≤ c.total Call.admissions :=
  List.single_le_sum (fun _ _ => Nat.zero_le _) _ (List.mem_map_of_mem hp)

lemma Mirrored.loop_outside (hc : Mirrored c) (hp : p ∈ c.procs) (ha : p.inAdmission = true) :
    c.shared.loop.inAdmission = false := by
  have hle := admissions_le hp
  have hadm := hc.admission
  have hone := Bool.toNat_le c.shared.admission
  simp only [Call.admissions, ha, Bool.toNat_true] at hle
  cases h : c.shared.loop.inAdmission with
  | false => rfl
  | true =>
    simp only [h, Bool.toNat_true] at hadm
    omega

lemma marks_le_admissions (p : Call) : p.marks.1 ≤ p.admissions ∧ p.marks.2.1 ≤ p.admissions := by
  cases p with
  | trigger c | stop c => cases hpc : c.pc <;> simp [Call.marks, Call.admissions, Call.inAdmission, hpc]
  | run r => cases hpc : r.pc <;> simp [Call.marks, hpc]

lemma counted_le_admissions (c : State) :
    c.uncounted ≤ c.total Call.admissions ∧ c.overcounted ≤ c.total Call.admissions := by
  obtain ⟨s, procs⟩ := c
  simp only [State.uncounted, State.overcounted, State.marks, Config.total]
  induction procs with
  | nil => simp
  | cons p procs ih =>
    obtain ⟨hadd, hsub⟩ := marks_le_admissions p
    simp only [List.map_cons, List.sum_cons, Prod.fst_add, Prod.snd_add] at ih ⊢
    omega

lemma Mirrored.settled (hc : Mirrored c) (h : c.shared.loop.inAdmission = true) :
    c.uncounted = 0 ∧ c.overcounted = 0 := by
  have hadm := hc.admission
  have hone := Bool.toNat_le c.shared.admission
  obtain ⟨hadd, hsub⟩ := counted_le_admissions c
  simp only [h, Bool.toNat_true] at hadm
  omega

end

namespace Move

variable {inside closing : Bool} {g g' : Gauge} {m m' : Marks}

lemma loop (h : Move inside closing g m g' m') : g'.loop = g.loop ∨ g.loop = .stopped ∧ g'.loop = .top := by
  cases h with
  | start hl => exact .inr ⟨hl, rfl⟩
  | _ => exact .inl rfl

lemma queue_length (h : Move inside closing g m g' m') : g'.queue.length ≤ g.queue.length ∨ inside = true := by
  cases h with
  | quiet hq => exact .inl hq.length_le
  | enqueue _ ha | cancel ha => exact .inr ha
  | _ => exact .inl le_rfl

lemma depth (h : Move inside closing g m g' m') (hl : inside = true → g.loop.inAdmission = false) :
    (g'.loop.claimed g'.queue : ℤ) + m'.2.1 - g'.depth - m'.1 ≤ g.loop.claimed g.queue +
      m.2.1 - g.depth - m.1 := by
  cases h with
  | quiet hq hm =>
    have hle := g.loop.claimed_mono hq
    subst hm
    simp only
    omega
  | enqueue row _ hp hm =>
    have hle := g.loop.claimed_append g.queue row
    subst hp hm
    simp only [Prod.fst_zero, Prod.snd_zero]
    omega
  | cancel ha _ hlt hp hm =>
    have hle := LoopPc.claimed_cancel (hl ha) hlt
    subst hp hm
    simp only [Prod.fst_zero, Prod.snd_zero]
    omega
  | start hl hm =>
    subst hm
    rw [hl]
    exact le_rfl
  | count hp hm =>
    subst hp hm
    simp only
    omega
  | uncount hp hm =>
    subst hp hm
    simp only [Prod.fst_zero, Prod.snd_zero]
    omega
  | _ =>
    subst_vars
    exact le_rfl

end Move

section

variable {o : QueueOptions} {c c' : State} {s s' : Shared} {p : Call} {out : List Call}

lemma Mirrored.call (h : Interleave (Local o) c c') (hc : Mirrored c) : Mirrored c' := by
  obtain ⟨p, out, hp, hl, hmarks⟩ := h.total Call.marks
  obtain ⟨q, outq, hq, hlq, hadm⟩ := h.total Call.admissions
  have heffect : Move p.inAdmission c.shared.closing c.shared.gauge p.marks c'.shared.gauge (marksOf out) :=
    hl.effect hc.consistent
  have hstores := hl.stores
  refine ⟨hstores.consistent hc.consistent, hstores.ordered hc.consistent hc.ordered, ?_, ?_, fun n hn => ?_⟩
  · have hle : q.admissions ≤ c.shared.admission.toNat := by
      have := admissions_le hq
      have := hc.admission
      omega
    have hloop : c'.shared.loop.inAdmission = c.shared.loop.inAdmission := by
      rcases heffect.loop with he | ⟨hs, ht⟩
      · exact congrArg _ he
      · rw [show c'.shared.loop = .top from ht, show c.shared.loop = .stopped from hs]
        rfl
    have hstep := hlq.admission hle
    have := hc.admission
    rw [hloop]
    omega
  · have hstep := heffect.depth fun ha => hc.loop_outside hp ha
    have hdepth := hc.depth
    have hone := congrArg Prod.fst hmarks
    have htwo := congrArg (fun m : Marks => m.2.1) hmarks
    simp only [Prod.fst_add, Prod.snd_add] at hone htwo
    simp only [State.uncounted, State.overcounted, State.marks, marksOf, Shared.gauge] at hdepth hstep ⊢
    omega
  · have hsame : c.shared.loop = .step (.storing n) := by
      rcases heffect.loop with he | ⟨_, ht⟩
      · exact he.symm.trans hn
      · rw [show c'.shared.loop = .top from ht] at hn
        exact absurd hn (by simp)
    rcases heffect.queue_length with hle | ha
    · exact hle.trans (hc.resync n hsame)
    · have hout := hc.loop_outside hp ha
      simp [hsame, LoopPc.inAdmission, StepPc.inAdmission] at hout

lemma State.marks_append (h : marksOf out = 0) : State.marks ⟨s', c.procs ++ out⟩ = c.marks := by
  rw [marksOf] at h
  rw [State.marks, State.marks, Config.total, Config.total, List.map_append, List.sum_append, h, add_zero]

lemma LoopStep.recount {pc pc' : LoopPc} {n : ℕ} (h : LoopStep o s pc s' pc' out) (hn : pc' = .step (.storing n)) :
    s'.db.queue.length = n := by
  cases h with
  | step h =>
    cases h with
    | recounted => simpa [DB.queueDepth] using hn
    | start h => cases h <;> simp at hn
    | _ => simp at hn
  | _ => simp at hn

lemma Mirrored.loop {pc : LoopPc} (h : LoopStep o c.shared c.shared.loop s' pc out) (hc : Mirrored c) :
    Mirrored ⟨{ s' with loop := pc }, c.procs ++ out⟩ := by
  have hstores := h.stores
  have hle : c.shared.loop.inAdmission.toNat ≤ c.shared.admission.toNat := by
    have := hc.admission
    omega
  obtain ⟨hadm, hout, hmarks⟩ := h.admission hle
  refine ⟨hstores.consistent hc.consistent, hstores.ordered hc.consistent hc.ordered, ?_, ?_, fun n hn => ?_⟩
  · have := hc.admission
    simp only [Config.total, List.map_append, List.sum_append, hout] at this ⊢
    omega
  · have hdepth := hc.depth
    simp only [State.uncounted, State.overcounted, State.marks_append hmarks] at hdepth ⊢
    rcases h.depth hc.consistent with hle | ⟨n, hpc, hd, hclaim⟩
    · omega
    · -- The loop counted the rows while no other call could add one.
      have hsettled := hc.settled (by simp [hpc, LoopPc.inAdmission, StepPc.inAdmission])
      have hrows := hc.resync n hpc
      simp only [State.uncounted, State.overcounted] at hsettled
      rw [hclaim, hd]
      omega
  · exact (h.recount hn).le

lemma Mirrored.spawn (hc : Mirrored c) (ha : p.admissions = 0) (hm : p.marks = 0) : Mirrored (c.spawn p) := by
  have hmarks : State.marks (c.spawn p) = c.marks := State.marks_append (by simp [marksOf, hm])
  refine ⟨hc.consistent, hc.ordered, ?_, ?_, hc.resync⟩
  · rw [Config.total_spawn, ha, add_zero]
    exact hc.admission
  · rw [State.uncounted, State.overcounted, hmarks]
    exact hc.depth

lemma foreign_isEnqueue {op : Op} (h : foreign op = true) : op.isEnqueue = false := by
  cases op <;> simp_all [foreign, Op.isEnqueue]

lemma Mirrored.store {op : Op} {db' : DB} (hi : op.Issued) (hf : foreign op = true)
    (h : op.Commits o.specHash c.shared.db db') (hc : Mirrored c) :
    Mirrored ⟨{ c.shared with db := db' }, c.procs⟩ := by
  have hstores : Stores o c.shared.db db' := .inr ⟨op, hi, h⟩
  have hsub : db'.queue.Sublist c.shared.db.queue :=
    h.shrinks hc.consistent hi (foreign_isEnqueue hf)
  refine ⟨hstores.consistent hc.consistent, hstores.ordered hc.consistent hc.ordered, hc.admission, ?_,
    fun n hn => ?_⟩
  · have hle := c.shared.loop.claimed_mono hsub
    have hdepth := hc.depth
    simp only [State.uncounted, State.overcounted, State.marks, Config.total] at hdepth ⊢
    omega
  · exact hsub.length_le.trans (hc.resync n hn)

lemma Step.mirrored {e : Event} (h : Step o c e c') (hc : Mirrored c) : Mirrored c' := by
  cases h with
  | call h => exact hc.call h
  | loop h => exact hc.loop h
  | store hf hi hdb => exact hc.store hi hf hdb
  | trigger call hpc =>
    exact hc.spawn (by simp [Call.admissions, Call.inAdmission, hpc]) (by simp [Call.marks, hpc])
  | stop id => exact hc.spawn rfl rfl
  | shutdown => exact ⟨hc.consistent, hc.ordered, hc.admission, hc.depth, hc.resync⟩

lemma resumeQueue_loop (db : DB) :
    (resumeQueue db).shared.loop = .top ∧ (resumeQueue db).shared.wake = true ∨
      (resumeQueue db).shared.loop = .stopped ∧ db.queue = [] := by
  by_cases h : 0 < db.queueDepth
  · exact .inl ⟨if_pos h, decide_eq_true h⟩
  · exact .inr ⟨if_neg h, List.length_eq_zero_iff.mp (Nat.le_zero.mp (Nat.not_lt.mp h))⟩

lemma mirrored_resumeQueue {db : DB} (hdb : Consistent db) (ho : Ordered db) : Mirrored (resumeQueue db) := by
  have hcalls : (resumeQueue db).total Call.admissions = 0 ∧ State.marks (resumeQueue db) = 0 := ⟨rfl, rfl⟩
  refine ⟨hdb, ho, ?_, ?_, fun n hn => ?_⟩
  · rw [hcalls.1]
    rcases resumeQueue_loop db with ⟨hl, _⟩ | ⟨hl, _⟩ <;> rw [hl] <;> rfl
  · rw [State.uncounted, State.overcounted, hcalls.2]
    rcases resumeQueue_loop db with ⟨hl, _⟩ | ⟨hl, _⟩ <;> rw [hl] <;> exact le_rfl
  · rcases resumeQueue_loop db with ⟨hl, _⟩ | ⟨hl, _⟩ <;> simp [hl] at hn

end

end Minicrond.Executor.Queue
