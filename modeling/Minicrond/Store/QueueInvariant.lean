import Mathlib.Algebra.Order.BigOperators.Group.List
import Mathlib.Algebra.Order.Group.Nat
import Minicrond.Library.Machine
import Minicrond.Store.Operations

/-! The queue and the run rows stay in step: over every sequence of operations the queue holds exactly the queued
runs, within the limits of the enqueues. -/

namespace Minicrond.Store

open Minicrond.Library Minicrond.Time

namespace DB

def queueIDs (db : DB) : Set String := {id | ∃ q ∈ db.queue, q.runID = id}

def queuedRuns (db : DB) : Set String := {id | ∃ r ∈ db.runs, r.runID = id ∧ r.status = .queued}

end DB

structure Consistent (db : DB) : Prop where
  runs : (db.runs.map (·.runID)).Nodup
  queue : (db.queue.map (·.runID)).Nodup
  queued : db.queueIDs = db.queuedRuns

section

variable {op : Op} {db db' : DB}

lemma Consistent.exists_run (h : Consistent db) {q : QueueRow} (hq : q ∈ db.queue) :
    ∃ r ∈ db.runs, r.runID = q.runID ∧ r.status = .queued := by
  have hmem : q.runID ∈ db.queueIDs := ⟨q, hq, rfl⟩
  rwa [h.queued] at hmem

lemma Consistent.exists_item (h : Consistent db) {r : RunRow} (hr : r ∈ db.runs) (hs : r.status = .queued) :
    ∃ q ∈ db.queue, q.runID = r.runID := by
  have hmem : r.runID ∈ db.queuedRuns := ⟨r, hr, rfl, hs⟩
  rwa [← h.queued] at hmem

lemma Consistent.run_unique (h : Consistent db) {r r' : RunRow} (hr : r ∈ db.runs) (hr' : r' ∈ db.runs)
    (he : r.runID = r'.runID) : r = r' := List.inj_on_of_nodup_map h.runs hr hr' he

lemma queued_updateWhere {sel : RunRow → Bool} {f : RunRow → RunRow}
    (hs : ∀ r, sel r = true → (f r).status ≠ .queued) {id : String} :
    (∃ r ∈ updateWhere sel f db.runs, r.runID = id ∧ r.status = .queued) ↔
      ∃ r ∈ db.runs, r.runID = id ∧ r.status = .queued ∧ sel r = false := by
  constructor
  · rintro ⟨r', hr', hid, hq⟩
    obtain ⟨r, hr, rfl⟩ := mem_updateWhere.mp hr'
    cases hsel : sel r with
    | true =>
      rw [if_pos hsel] at hq
      exact (hs r hsel hq).elim
    | false =>
      simp only [hsel, Bool.false_eq_true, ↓reduceIte] at hid hq
      exact ⟨r, hr, hid, hq, hsel⟩
  · rintro ⟨r, hr, hid, hq, hsel⟩
    exact ⟨r, mem_updateWhere.mpr ⟨r, hr, by simp [hsel]⟩, hid, hq⟩

lemma Consistent.create (hdb : Consistent db) {row : RunRow} (hr : db'.runs = db.runs ++ [row])
    (hq : db'.queue = db.queue) (hfresh : ∀ old ∈ db.runs, old.runID ≠ row.runID) (hs : row.status ≠ .queued) :
    Consistent db' := by
  refine ⟨hr ▸ nodup_append_fresh hdb.runs hfresh, hq ▸ hdb.queue, ?_⟩
  have hqueued := hdb.queued
  simp only [DB.queueIDs, DB.queuedRuns, hr, hq, Set.ext_iff, Set.mem_ofPred_eq] at hqueued ⊢
  intro id
  rw [hqueued id]
  simp [hs]

lemma Consistent.enqueue (hdb : Consistent db) {r : Run} {lim : QueueLimits} {unique : Bool} {row : RunRow}
    {item : QueueRow} (he : Enqueued r lim unique db db' row item) : Consistent db' := by
  have hitem : ∀ old ∈ db.queue, old.runID ≠ item.runID := by
    intro old hold hid
    obtain ⟨x, hx, hxid, _⟩ := hdb.exists_run hold
    exact he.fresh x hx (hxid.trans (hid.trans he.runID))
  refine ⟨he.runs ▸ nodup_append_fresh hdb.runs he.fresh, he.queue ▸ nodup_append_fresh hdb.queue hitem, ?_⟩
  have hqueued := hdb.queued
  simp only [DB.queueIDs, DB.queuedRuns, he.runs, he.queue, Set.ext_iff, Set.mem_ofPred_eq] at hqueued ⊢
  intro id
  simp only [List.mem_append, List.mem_singleton, or_and_right, exists_or, exists_eq_left, hqueued id, he.runID,
    he.status, and_true]

lemma Consistent.leave (hdb : Consistent db) {ids : List String} {sel : RunRow → Bool} {f : RunRow → RunRow}
    {p : QueueRow → Bool} (hr : db'.runs = updateWhere sel f db.runs) (hq : db'.queue = deleteWhere p db.queue)
    (hsel : ∀ r, sel r = true ↔ r.status = .queued ∧ r.runID ∈ ids)
    (hp : ∀ q ∈ db.queue, p q = true ↔ q.runID ∈ ids) (hid : ∀ r, (f r).runID = r.runID)
    (hs : ∀ r, (f r).status ≠ .queued) : Consistent db' := by
  refine ⟨?_, hq ▸ hdb.queue.sublist (deleteWhere_sublist.map _), ?_⟩
  · rw [hr, map_updateWhere hid]
    exact hdb.runs
  · simp only [DB.queueIDs, DB.queuedRuns, hr, hq, Set.ext_iff, Set.mem_ofPred_eq,
      queued_updateWhere fun r _ => hs r]
    intro id
    constructor
    · rintro ⟨q, hmem, rfl⟩
      obtain ⟨hqm, hpq⟩ := mem_deleteWhere.mp hmem
      obtain ⟨r, hrm, hre, hrs⟩ := hdb.exists_run hqm
      refine ⟨r, hrm, hre, hrs, Bool.eq_false_iff.mpr fun hselr => ?_⟩
      have hin := (hp q hqm).mpr (hre ▸ ((hsel r).mp hselr).2)
      simp [hin] at hpq
    · rintro ⟨r, hrm, rfl, hrs, hselr⟩
      obtain ⟨q, hqm, hqe⟩ := hdb.exists_item hrm hrs
      refine ⟨q, mem_deleteWhere.mpr ⟨hqm, Bool.eq_false_iff.mpr fun hpq => ?_⟩, hqe⟩
      have hin := (hsel r).mpr ⟨hrs, hqe ▸ (hp q hqm).mp hpq⟩
      simp [hin] at hselr

lemma Consistent.advance (hdb : Consistent db) {sel : RunRow → Bool} {f : RunRow → RunRow}
    (hr : db'.runs = updateWhere sel f db.runs) (hq : db'.queue = db.queue) (hid : ∀ r, (f r).runID = r.runID)
    (hs : ∀ r, sel r = true → (f r).status ≠ .queued)
    (hsel : ∀ r, sel r = true → r.status = .queued → ∀ q ∈ db.queue, q.runID ≠ r.runID) : Consistent db' := by
  refine ⟨?_, hq ▸ hdb.queue, ?_⟩
  · rw [hr, map_updateWhere hid]
    exact hdb.runs
  · have hqueued := hdb.queued
    simp only [DB.queueIDs, DB.queuedRuns, hr, hq, Set.ext_iff, Set.mem_ofPred_eq,
      queued_updateWhere hs] at hqueued ⊢
    intro id
    rw [hqueued id]
    constructor
    · rintro ⟨r, hrm, he, hrs⟩
      obtain ⟨q, hqm, hqe⟩ := hdb.exists_item hrm hrs
      exact ⟨r, hrm, he, hrs, Bool.eq_false_iff.mpr fun h => hsel r h hrs q hqm hqe⟩
    · rintro ⟨r, hrm, he, hrs, _⟩
      exact ⟨r, hrm, he, hrs⟩

lemma Consistent.delete (hdb : Consistent db) {sel : RunRow → Bool} (hr : db'.runs = deleteWhere sel db.runs)
    (hq : db'.queue = deleteWhere (fun q => db.runs.any fun r => r.runID = q.runID && sel r) db.queue)
    (hsel : ∀ r, sel r = true → r.status.terminal = true) : Consistent db' := by
  refine ⟨hr ▸ hdb.runs.sublist (deleteWhere_sublist.map _), hq ▸ hdb.queue.sublist (deleteWhere_sublist.map _),
    ?_⟩
  simp only [DB.queueIDs, DB.queuedRuns, hr, hq, Set.ext_iff, Set.mem_ofPred_eq]
  intro id
  constructor
  · rintro ⟨q, hmem, rfl⟩
    obtain ⟨hqm, hdel⟩ := mem_deleteWhere.mp hmem
    obtain ⟨r, hrm, hre, hrs⟩ := hdb.exists_run hqm
    refine ⟨r, mem_deleteWhere.mpr ⟨hrm, Bool.eq_false_iff.mpr fun h => ?_⟩, hre, hrs⟩
    exact ne_queued_of_terminal (hsel r h) hrs
  · rintro ⟨r, hmem, rfl, hrs⟩
    obtain ⟨hrm, _⟩ := mem_deleteWhere.mp hmem
    obtain ⟨q, hqm, hqe⟩ := hdb.exists_item hrm hrs
    refine ⟨q, mem_deleteWhere.mpr ⟨hqm, ?_⟩, hqe⟩
    -- The run of the row is queued, and a queued run is not deleted.
    simp only [List.any_eq_false, Bool.and_eq_true, decide_eq_true_eq, not_and]
    intro x hx hxe hselx
    obtain rfl := hdb.run_unique hx hrm (hxe.trans hqe)
    exact ne_queued_of_terminal (hsel x hselx) hrs

lemma Effect.consistent (h : Effect op db db') (hdb : Consistent db) : Consistent db' := by
  cases h with
  | keep hr hq =>
    refine ⟨hr ▸ hdb.runs, hq ▸ hdb.queue, ?_⟩
    simpa only [DB.queueIDs, DB.queuedRuns, hr, hq] using hdb.queued
  | create row hr hq hfresh hs => exact hdb.create hr hq hfresh hs
  | enqueue now later r idem lim unique hop row item he => exact hdb.enqueue he
  | leave ids sel f p hr hq hsel hp hid hs => exact hdb.leave hr hq hsel hp hid hs
  | advance sel f hr hq hid hs hsel => exact hdb.advance hr hq hid (fun r h => (hs r h).1) hsel
  | delete sel hr hq hsel => exact hdb.delete hr hq hsel

lemma checkLimits_none {r : Run} {lim : QueueLimits} {unique : Bool} {size : ℕ}
    (h : checkLimits r lim unique size db = none) :
    (unique = true → db.queueDepthOf r.definitionID = 0) ∧ db.queueDepth < lim.maxItems ∧
      db.queueDepthOf r.definitionID < lim.maxPerJob ∧ db.queueBytes + size ≤ lim.maxBytes := by
  simp only [checkLimits] at h
  split_ifs at h with hunique hitems hjob hbytes
  simp only [Bool.and_eq_true, decide_eq_true_eq, not_and, not_lt, Nat.le_zero] at hunique
  exact ⟨hunique, by omega, by omega, by omega⟩

lemma Effect.queue_sublist (h : Effect op db db') :
    db'.queue.Sublist db.queue ∨
      ∃ now later r idem lim unique row item, op = .enqueue now later r idem lim unique ∧
        Enqueued r lim unique db db' row item := by
  cases h with
  | keep _ hq | create _ _ hq => exact .inl (hq ▸ List.Sublist.refl _)
  | enqueue now later r idem lim unique hop row item he => exact .inr ⟨_, _, _, _, _, _, row, item, hop, he⟩
  | leave _ _ _ _ _ hq => exact .inl (hq ▸ deleteWhere_sublist)
  | advance _ _ _ hq => exact .inl (hq ▸ List.Sublist.refl _)
  | delete _ _ hq => exact .inl (hq ▸ deleteWhere_sublist)

end

structure Within (lim : QueueLimits) (db : DB) : Prop where
  items : db.queueDepth ≤ lim.maxItems
  perJob : ∀ definitionID, db.queueDepthOf definitionID ≤ lim.maxPerJob
  bytes : db.queueBytes ≤ lim.maxBytes

namespace Op

def HasLimits (lim : QueueLimits) : Op → Prop
  | .enqueue _ _ _ _ l _ => l = lim
  | _ => True

def UniqueFor (definitionID : ℕ) : Op → Prop
  | .enqueue _ _ r _ _ unique => r.definitionID = definitionID → unique = true
  | _ => True

end Op

section

variable {op : Op} {db db' : DB}

lemma Enqueued.depthOf {r : Run} {lim : QueueLimits} {unique : Bool} {row : RunRow} {item : QueueRow}
    (he : Enqueued r lim unique db db' row item) (definitionID : ℕ) :
    db'.queueDepthOf definitionID =
      db.queueDepthOf definitionID + if r.definitionID = definitionID then 1 else 0 := by
  simp only [DB.queueDepthOf, he.queue, List.countP_append, List.countP_singleton, he.definitionID,
    decide_eq_true_eq]

lemma Effect.within {lim : QueueLimits} (h : Effect op db db') (hop : op.HasLimits lim) (hdb : Within lim db) :
    Within lim db' := by
  rcases h.queue_sublist with hsub | ⟨now, later, r, idem, l, unique, row, item, rfl, he⟩
  · refine ⟨hsub.length_le.trans hdb.items, fun d => (hsub.countP_le).trans (hdb.perJob d), ?_⟩
    exact ((hsub.map _).sum_le_sum fun _ _ => Nat.zero_le _).trans hdb.bytes
  · obtain rfl : l = lim := hop
    obtain ⟨_, hitems, hjob, hbytes⟩ := checkLimits_none he.limits
    refine ⟨?_, fun d => ?_, ?_⟩
    · simp only [DB.queueDepth, he.queue, List.length_append, List.length_singleton] at hitems ⊢
      omega
    · rw [he.depthOf]
      split_ifs with hd
      · exact hd ▸ hjob
      · exact hdb.perJob d
    · simpa [DB.queueBytes, he.queue] using hbytes

lemma Effect.depthOf_le_one {definitionID : ℕ} (h : Effect op db db') (hop : op.UniqueFor definitionID)
    (hdb : db.queueDepthOf definitionID ≤ 1) : db'.queueDepthOf definitionID ≤ 1 := by
  rcases h.queue_sublist with hsub | ⟨now, later, r, idem, l, unique, row, item, rfl, he⟩
  · exact hsub.countP_le.trans hdb
  · rw [he.depthOf]
    split_ifs with hd
    · rw [← hd, (checkLimits_none he.limits).1 (hop hd)]
    · exact hdb

lemma consistent_empty : Consistent DB.empty := by
  refine ⟨List.nodup_nil, List.nodup_nil, ?_⟩
  simp [DB.queueIDs, DB.queuedRuns, DB.empty]

lemma Step.consistent {specHash : Definition → String} (h : Step specHash db op db') (hdb : Consistent db) :
    Consistent db' := (h.effect hdb.queue).consistent hdb

end

theorem queue_matches_runs {specHash : Definition → String} {ops : List Op} {db : DB}
    (h : Library.Run (Step specHash) DB.empty ops db) :
    db.queueIDs = db.queuedRuns ∧ (∀ lim, (∀ op ∈ ops, op.HasLimits lim) → Within lim db) ∧
      ∀ definitionID, (∀ op ∈ ops, op.UniqueFor definitionID) → db.queueDepthOf definitionID ≤ 1 := by
  refine ⟨(h.invariant (fun _ _ _ hstep => hstep.consistent) consistent_empty).queued, fun lim hops => ?_,
    fun d hops => ?_⟩
  · have hinv : Consistent db ∧ Within lim db := by
      refine Run.invariant (P := fun db => Consistent db ∧
        Within lim db) (fun s i t hstep hs => ?_) (h.of_labels hops)
        ⟨consistent_empty, ?_⟩
      · exact ⟨hstep.2.consistent hs.1, (hstep.2.effect hs.1.queue).within hstep.1 hs.2⟩
      · exact ⟨Nat.zero_le _, fun _ => Nat.zero_le _, Nat.zero_le _⟩
    exact hinv.2
  · have hinv : Consistent db ∧ db.queueDepthOf d ≤ 1 := by
      refine Run.invariant (P := fun db => Consistent db ∧ db.queueDepthOf d ≤ 1) (fun s i t hstep hs => ?_)
        (h.of_labels hops) ⟨consistent_empty, Nat.zero_le _⟩
      exact ⟨hstep.2.consistent hs.1, (hstep.2.effect hs.1.queue).depthOf_le_one hstep.1 hs.2⟩
    exact hinv.2

def backup : Definition := ⟨0, "backup", .job, 0, .api, none, [], ""⟩

def backupRun : Run :=
  ⟨"r1", 1, "backup", .job, 1, "hash", .queued, "", .manual, 1, "", none, 0, "boot", 0, none, "file:r1"⟩

def backupLimits : QueueLimits := ⟨100, 25, 262144, 15 * minute⟩

def backupSkipped (id : String) (now : ℤ) : Run :=
  { backupRun with
    id := id, status := .skipped, endReason := "overlap_skip", queuedAt := now, endedAt := some now, logRef := "" }

def backupDefined : DB where
  registry :=
    ⟨[⟨1, "backup", .job, backup, "hash", 1, true, .api, 0, 0, none⟩], [⟨1, 1, backup, "hash", "api", 0⟩], []⟩
  runs := []
  queue := []
  lastSeq := 0
  idempotency := []

def backupQueued : DB :=
  { backupDefined with runs := [runArgs backupRun], queue := [⟨1, "r1", 1, 0, 900000000, 150⟩], lastSeq := 1 }

lemma backup_enqueued :
    Library.Run (Step fun _ => "hash") DB.empty
      [.putDefinition backup 0 "api" false 0, .enqueue 0 0 backupRun none backupLimits true] backupQueued :=
  .cons ⟨trivial, .inr ⟨_, rfl⟩⟩ <|
  .cons ⟨trivial, .inr ⟨_, rfl⟩⟩ <|
  .nil _

def backupAgain : Run := { backupRun with id := "r2", logRef := "file:r2" }

lemma backupAgain_refused :
    enqueueRun 1 1 backupAgain none backupLimits true backupQueued = .error .queueDuplicate := rfl

lemma backupAgain_waits :
    ∃ db, Library.Run (Step fun _ => "hash") backupQueued
      [.enqueue 1 1 backupAgain none backupLimits true, .dequeue "r1" 1 "hash" "boot",
        .enqueue 2 2 backupAgain none backupLimits true] db ∧ db.queue.map (·.runID) = ["r2"] :=
  ⟨_, .cons ⟨trivial, .inl rfl⟩ <|
    .cons ⟨trivial, .inr ⟨_, rfl⟩⟩ <|
    .cons ⟨trivial, .inr ⟨_, rfl⟩⟩ <|
    .nil _, rfl⟩

theorem queue_matches_runs_duplicate :
    enqueueRun 1 1 backupAgain none backupLimits true backupQueued = .error .queueDuplicate ∧
      ∃ db : DB, db.queue.map (·.runID) = ["r2"] ∧ db.queueIDs = db.queuedRuns ∧ Within backupLimits db ∧
        db.queueDepthOf 1 ≤ 1 := by
  obtain ⟨db, hrun, hids⟩ := backupAgain_waits
  obtain ⟨hqueued, hlimits, hunique⟩ := queue_matches_runs (backup_enqueued.append hrun)
  refine ⟨backupAgain_refused, db, hids, hqueued, hlimits backupLimits ?_, hunique 1 ?_⟩
  · simp [Op.HasLimits]
  · simp [Op.UniqueFor]

end Minicrond.Store
