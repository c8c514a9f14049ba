import Mathlib.Data.List.Dedup
import Mathlib.Data.List.MinMax
import Minicrond.Store.Lifecycle

/-! The order of the execution queue: the reads of the drain loop, and rows that stay in the order
of their enqueues. -/

namespace Minicrond.Store

open Minicrond.Library Minicrond.Time

structure QueueItem where
  seq : ℕ
  runID : String
  definitionID : ℕ
  expiresUs : ℤ
deriving DecidableEq, Repr

def QueueRow.item (q : QueueRow) : QueueItem := ⟨q.seq, q.runID, q.definitionID, q.expiresUs⟩

def isHead (queue : List QueueRow) (q : QueueRow) : Bool :=
  ((queue.filter (·.definitionID = q.definitionID)).map (·.seq)).min? = some q.seq

def queueHeads (limit : ℕ) (queue : List QueueRow) : List QueueItem :=
  (((queue.filter (isHead queue)).insertionSort fun a b => a.seq ≤ b.seq).take limit).map (·.item)

def nextQueueExpiry (queue : List QueueRow) : Option ℤ := (queue.map (·.expiresUs)).min?

def DB.definition (db : DB) (name : String) : Option (Definition × String) :=
  (db.registry.liveByName name).map fun row =>
    ({ row.spec with id := row.definitionID, revision := row.revision, source := row.source,
                     enabled := some row.enabled }, row.specHash)

def waitingDefinitions (queue : List QueueRow) : List ℕ := (queue.map (·.definitionID)).dedup

section

variable {queue : List QueueRow} {q : QueueRow}

def InOrder (queue : List QueueRow) : Prop := queue.Pairwise fun a b => a.seq < b.seq

instance : Decidable (InOrder queue) := inferInstanceAs (Decidable (queue.Pairwise _))

lemma InOrder.eq_of_seq (h : InOrder queue) {p : QueueRow} (hp : p ∈ queue) (hq : q ∈ queue) (hs : p.seq = q.seq) :
    p = q := by
  have hnodup : (queue.map (·.seq)).Nodup := by
    rw [List.Nodup, List.pairwise_map]
    exact h.imp fun hlt => hlt.ne
  exact List.inj_on_of_nodup_map hnodup hp hq hs

lemma InOrder.append (h : InOrder queue) {last : ℕ} (hlast : ∀ p ∈ queue, p.seq ≤ last) (hq : q.seq = last + 1) :
    InOrder (queue ++ [q]) ∧ ∀ p ∈ queue ++ [q], p.seq ≤ last + 1 := by
  refine ⟨?_, fun p hp => ?_⟩
  · rw [InOrder, List.pairwise_append]
    refine ⟨h, List.pairwise_singleton _ _, fun a ha b hb => ?_⟩
    rw [List.mem_singleton.mp hb, hq]
    exact Nat.lt_succ_of_le (hlast a ha)
  · rcases List.mem_append.mp hp with hp | hp
    · exact (hlast p hp).trans (Nat.le_succ _)
    · rw [List.mem_singleton.mp hp, hq]

lemma isHead_iff (hq : q ∈ queue) :
    isHead queue q = true ↔ ∀ p ∈ queue, p.definitionID = q.definitionID → q.seq ≤ p.seq := by
  simp only [isHead, decide_eq_true_eq, List.min?_eq_some_iff, List.mem_map, List.mem_filter]
  constructor
  · rintro ⟨_, hle⟩ p hp hd
    exact hle _ ⟨p, ⟨hp, hd⟩, rfl⟩
  · intro h
    refine ⟨⟨q, ⟨hq, rfl⟩, rfl⟩, ?_⟩
    rintro _ ⟨p, ⟨hp, hd⟩, rfl⟩
    exact h p hp hd

lemma exists_head (hq : q ∈ queue) :
    ∃ p ∈ queue, isHead queue p = true ∧ p.definitionID = q.definitionID ∧ p.seq ≤ q.seq := by
  have hne : (queue.filter (·.definitionID = q.definitionID)).argmin (·.seq) ≠ none := by
    rw [Ne, List.argmin_eq_none]
    exact List.ne_nil_of_mem (List.mem_filter.mpr ⟨hq, by simp⟩)
  obtain ⟨p, hp⟩ := Option.ne_none_iff_exists'.mp hne
  obtain ⟨hpq, hd⟩ := List.mem_filter.mp (List.argmin_mem hp)
  simp only [decide_eq_true_eq] at hd
  have hle : ∀ x ∈ queue, x.definitionID = q.definitionID → p.seq ≤ x.seq := fun x hx hxd =>
    List.le_of_mem_argmin (List.mem_filter.mpr ⟨hx, by simpa using hxd⟩) hp
  exact ⟨p, hpq, (isHead_iff hpq).mpr fun x hx hxd => hle x hx (hxd.trans hd), hd, hle q hq rfl⟩

lemma InOrder.queueHeads_eq (h : InOrder queue) (limit : ℕ) :
    queueHeads limit queue = ((queue.filter (isHead queue)).take limit).map (·.item) := by
  have hsorted : (queue.filter (isHead queue)).Pairwise fun a b => a.seq ≤ b.seq :=
    (h.imp fun hlt => hlt.le).sublist List.filter_sublist
  rw [queueHeads, hsorted.insertionSort_eq]

lemma InOrder.heads_nodup (h : InOrder queue) : ((queue.filter (isHead queue)).map (·.definitionID)).Nodup := by
  rw [List.Nodup, List.pairwise_map]
  refine (h.sublist List.filter_sublist).imp_of_mem fun {a b} ha hb hlt he => ?_
  obtain ⟨ha, _⟩ := List.mem_filter.mp ha
  obtain ⟨hb, hhead⟩ := List.mem_filter.mp hb
  exact absurd ((isHead_iff hb).mp hhead a ha he) (by omega)

lemma InOrder.heads_length (h : InOrder queue) :
    (queue.filter (isHead queue)).length ≤ (waitingDefinitions queue).length := by
  rw [← List.length_map (·.definitionID)]
  refine (List.subperm_of_subset h.heads_nodup fun d hd => ?_).length_le
  obtain ⟨p, hp, rfl⟩ := List.mem_map.mp hd
  exact List.mem_dedup.mpr (List.mem_map_of_mem (List.mem_filter.mp hp).1)

lemma mem_queueHeads {limit : ℕ} {item : QueueItem} (hi : item ∈ queueHeads limit queue) :
    ∃ q ∈ queue, q.item = item ∧ ∀ p ∈ queue, p.definitionID = item.definitionID → item.seq ≤ p.seq := by
  obtain ⟨q, hq, rfl⟩ := List.mem_map.mp hi
  obtain ⟨hq, hhead⟩ := List.mem_filter.mp ((List.mem_insertionSort _).mp (List.mem_of_mem_take hq))
  exact ⟨q, hq, rfl, (isHead_iff hq).mp hhead⟩

lemma InOrder.queueHeads_pairwise (h : InOrder queue) (limit : ℕ) :
    (queueHeads limit queue).Pairwise fun a b => a.seq < b.seq := by
  rw [h.queueHeads_eq, List.pairwise_map]
  exact h.sublist ((List.take_sublist _ _).trans List.filter_sublist)

lemma InOrder.exists_queueHead (h : InOrder queue) {limit : ℕ} (hl : (waitingDefinitions queue).length ≤ limit)
    (hq : q ∈ queue) : ∃ item ∈ queueHeads limit queue, item.definitionID = q.definitionID ∧ item.seq ≤ q.seq := by
  obtain ⟨p, hp, hhead, hd, hle⟩ := exists_head hq
  rw [h.queueHeads_eq, List.take_of_length_le (h.heads_length.trans hl)]
  exact ⟨p.item, List.mem_map_of_mem (List.mem_filter.mpr ⟨hp, hhead⟩), hd, hle⟩

lemma nextQueueExpiry_le {at' : ℤ} (h : nextQueueExpiry queue = some at') (hq : q ∈ queue) : at' ≤ q.expiresUs :=
  (List.min?_eq_some_iff.mp h).2 _ (List.mem_map_of_mem hq)

lemma nextQueueExpiry_none : nextQueueExpiry queue = none ↔ queue = [] := by
  simp [nextQueueExpiry]

end

structure Ordered (db : DB) : Prop where
  inOrder : InOrder db.queue
  issued : ∀ q ∈ db.queue, q.seq ≤ db.lastSeq

inductive QueueEffect (db db' : DB) : Prop
  | shrink (hq : db'.queue.Sublist db.queue) (hl : db'.lastSeq = db.lastSeq)
  | grow (row : QueueRow) (hq : db'.queue = db.queue ++ [row]) (hs : row.seq = db.lastSeq + 1)
      (hl : db'.lastSeq = db.lastSeq + 1)

section

variable {specHash : Definition → String} {op : Op} {db db' : DB}

lemma Op.Commits.lastSeq (h : op.Commits specHash db db') (hop : op.isEnqueue = false) :
    db'.lastSeq = db.lastSeq := by
  cases h.change with
  | enqueue now later r idem lim unique keys he => simp [he, isEnqueue] at hop
  | _ => rfl

lemma Op.Commits.shrinks (hdb : Consistent db) (hissued : op.Issued) (h : op.Commits specHash db db')
    (hop : op.isEnqueue = false) : db'.queue.Sublist db.queue := by
  rcases (Step.effect hdb.queue ⟨hissued, .inr h⟩).queue_sublist with hsub | ⟨_, _, _, _, _, _, _, _, rfl, _⟩
  · exact hsub
  · simp [isEnqueue] at hop

lemma enqueueRun_effect {now later : ℤ} {r : Run} {idem : Option Idempotency} {lim : QueueLimits} {unique : Bool}
    {o : Option String} (h : enqueueRun now later r idem lim unique db = .ok (o, db')) : QueueEffect db db' := by
  obtain ⟨_, ⟨_, rfl⟩ | ⟨_, _, _, rfl⟩⟩ := enqueueRun_cases h
  · exact .shrink (List.Sublist.refl _) rfl
  · exact .grow _ rfl rfl rfl

lemma Op.Commits.queueEffect (hdb : Consistent db) (hissued : op.Issued) (h : op.Commits specHash db db') :
    QueueEffect db db' := by
  cases hop : op.isEnqueue with
  | false => exact .shrink (h.shrinks hdb hissued hop) (h.lastSeq hop)
  | true =>
    cases op with
    | enqueue =>
      obtain ⟨_, h⟩ := h
      exact enqueueRun_effect h
    | _ => simp [isEnqueue] at hop

lemma QueueEffect.ordered (h : QueueEffect db db') (hdb : Ordered db) : Ordered db' := by
  cases h with
  | shrink hq hl => exact ⟨hdb.inOrder.sublist hq, fun q hmem => hl ▸ hdb.issued q (hq.subset hmem)⟩
  | grow row hq hs hl =>
    obtain ⟨hinOrder, hissued⟩ := hdb.inOrder.append hdb.issued hs
    refine ⟨?_, ?_⟩
    · rw [hq]
      exact hinOrder
    · rw [hq, hl]
      exact hissued

lemma consistent_ordered_of_run {ops : List Op} (h : Library.Run (Step specHash) DB.empty ops db) :
    Consistent db ∧ Ordered db := by
  refine Run.invariant (P := fun db => Consistent db ∧ Ordered db) (fun s i t hstep hs => ?_) h
    ⟨consistent_empty, List.Pairwise.nil, fun q hq => by simp [DB.empty] at hq⟩
  refine ⟨hstep.consistent hs.1, ?_⟩
  obtain ⟨hissued, rfl | hcommit⟩ := hstep
  · exact hs.2
  · exact (hcommit.queueEffect hs.1 hissued).ordered hs.2

end

end Minicrond.Store
