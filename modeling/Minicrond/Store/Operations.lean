import Minicrond.Store.Runs

/-! The operations of the store as steps of one machine, and what a step can do to run rows and queue rows. -/

namespace Minicrond.Store

open Minicrond.Library Minicrond.Time Transaction

inductive Op
  | create (r : Run)
  | admitIdempotent (now later : ℤ) (r : Run) (idem : Idempotency)
  | enqueue (now later : ℤ) (r : Run) (idem : Option Idempotency) (lim : QueueLimits) (unique : Bool)
  | expire (now : ℤ) (limit : ℕ)
  | drop (runID reason : String) (now : ℤ)
  | cancel (runID : String) (now : ℤ)
  | dequeue (runID : String) (revision : ℕ) (hash bootID : String)
  | start (id : String) (process : ProcessInfo) (now : ℤ)
  | finish (id : String) (t : Outcome)
  | recover (nowUs : ℤ)
  | deleteRuns (ids : List String) (now : ℤ)
  | deleteDefinition (name : String) (nowUs : ℤ)
  | setEnabled (name : String) (enabled : Bool) (nowUs : ℤ)
  | putDefinition (d : Definition) (expected : ℕ) (actor : String) (createOnly : Bool) (nowUs : ℤ)
  | importDefinitions (defs : List Definition) (actor : String) (nowUs : ℤ)
  | syncConfigDefinitions (defs : List Definition) (nowUs : ℤ)
  | pruneMetadata (now : ℤ)

/-- What the daemon passes: only `EnqueueRun` makes queued runs, and a run finishes in a terminal status. -/
def Op.Issued : Op → Prop
  | .create r => r.status ≠ .queued
  | .admitIdempotent _ _ r _ => r.status ≠ .queued
  | .finish _ t => t.status.terminal = true
  | _ => True

section

variable (specHash : Definition → String)

def Op.Commits : Op → DB → DB → Prop
  | .create r => (createRun r).Commits
  | .admitIdempotent now later r idem => (admitIdempotentRun now later r idem).Commits
  | .enqueue now later r idem lim unique => (enqueueRun now later r idem lim unique).Commits
  | .expire now limit => (expireQueued now limit).Commits
  | .drop runID reason now => (dropQueued runID reason now).Commits
  | .cancel runID now => (cancelQueued runID now).Commits
  | .dequeue runID revision hash bootID => (dequeueRun runID revision hash bootID).Commits
  | .start id process now => (startRun id process now).Commits
  | .finish id t => (finishRun id t).Commits
  | .recover nowUs => (Store.recover nowUs).Commits
  | .deleteRuns ids now => (Store.deleteRuns ids now).Commits
  | .deleteDefinition name nowUs => (Store.deleteDefinition name nowUs).Commits
  | .setEnabled name enabled nowUs => (Store.setEnabled name enabled nowUs).Commits
  | .putDefinition d expected actor createOnly nowUs =>
    (onRegistry (Registry.putDefinition specHash d expected actor createOnly nowUs)).Commits
  | .importDefinitions defs actor nowUs =>
    (onRegistry (Registry.importDefinitions specHash defs actor nowUs)).Commits
  | .syncConfigDefinitions defs nowUs => (onRegistry (Registry.syncConfigDefinitions specHash defs nowUs)).Commits
  | .pruneMetadata now => (Store.pruneMetadata now).Commits

def Step (db : DB) (op : Op) (db' : DB) : Prop := op.Issued ∧ (db' = db ∨ op.Commits specHash db db')

end

section

variable {db db' : DB} {r : Run} {u : Unit} {o : Option String} {now nowUs : ℤ} {idem : Idempotency} {id : String}

lemma onRegistry_ok {α : Type} {x : RegistryTx α} {a : α} (h : onRegistry x db = .ok (a, db')) :
    ∃ reg, db' = { db with registry := reg } := by
  rw [onRegistry, within_ok] at h
  obtain ⟨reg, _, rfl⟩ := h
  exact ⟨reg, rfl⟩

structure DB.Admits (db : DB) (r : Run) : Prop where
  fresh : ∀ row ∈ db.runs, row.runID ≠ r.id
  occurrence : ∀ row ∈ db.runs, sameOccurrence (runArgs r) row = false

lemma createRun_ok (h : createRun r db = .ok (u, db')) :
    db.Admits r ∧ db' = { db with runs := db.runs ++ [runArgs r] } := by
  simp only [createRun, bind_ok, get_ok, refuse_ok, set_ok, List.any_eq_false, decide_eq_true_eq] at h
  obtain ⟨_, _, ⟨rfl, rfl⟩, _, _, ⟨hfresh, rfl⟩, _, _, ⟨hoccurrence, rfl⟩, _, _, ⟨_, rfl⟩, rfl⟩ := h
  exact ⟨⟨hfresh, fun row hrow => Bool.eq_false_iff.mpr (hoccurrence row hrow)⟩, rfl⟩

lemma reserveIdempotency_ok
    (h : reserveIdempotency now idem db = .ok (o, db')) : ∃ keys, db' = { db with idempotency := keys } := by
  simp only [reserveIdempotency, bind_ok, get_ok] at h
  obtain ⟨_, _, ⟨rfl, rfl⟩, h⟩ := h
  cases hf : db.idempotency.find? (sameKey idem) with
  | none =>
    simp only [hf, pure_ok] at h
    exact ⟨db.idempotency, h.2.symm⟩
  | some row =>
    simp only [hf] at h
    split_ifs at h
    · simp only [bind_ok, refuse_ok, pure_ok] at h
      obtain ⟨_, _, ⟨_, rfl⟩, _, rfl⟩ := h
      exact ⟨db.idempotency, rfl⟩
    · simp only [bind_ok, set_ok, pure_ok] at h
      obtain ⟨_, _, rfl, _, rfl⟩ := h
      exact ⟨_, rfl⟩

lemma reserveKey_ok {key : Option Idempotency} (h : reserveKey now key db = .ok (o, db')) :
    ∃ keys, db' = { db with idempotency := keys } := by
  cases key with
  | none =>
    simp only [reserveKey, pure_ok] at h
    exact ⟨db.idempotency, h.2.symm⟩
  | some idem => exact reserveIdempotency_ok h

lemma insertIdempotency_ok
    (h : insertIdempotency idem id nowUs db = .ok (u, db')) : ∃ keys, db' = { db with idempotency := keys } := by
  simp only [insertIdempotency, bind_ok, get_ok, refuse_ok, modify_ok] at h
  obtain ⟨_, _, ⟨rfl, rfl⟩, _, _, ⟨_, rfl⟩, rfl⟩ := h
  exact ⟨_, rfl⟩

lemma insertKey_ok {key : Option Idempotency}
    (h : insertKey key id nowUs db = .ok (u, db')) : ∃ keys, db' = { db with idempotency := keys } := by
  cases key with
  | none =>
    simp only [insertKey, pure_ok] at h
    exact ⟨db.idempotency, h.2.symm⟩
  | some idem => exact insertIdempotency_ok h

lemma admitIdempotentRun_ok {now later : ℤ} (h : admitIdempotentRun now later r idem db = .ok (o, db')) :
    ∃ keys, o ≠ none ∧ db' = { db with idempotency := keys } ∨
      o = none ∧ db.Admits r ∧ db' = { db with runs := db.runs ++ [runArgs r], idempotency := keys } := by
  simp only [admitIdempotentRun, bind_ok] at h
  obtain ⟨replay, _, hreserve, h⟩ := h
  obtain ⟨keys, rfl⟩ := reserveIdempotency_ok hreserve
  cases replay with
  | some id =>
    simp only [pure_ok] at h
    exact ⟨keys, .inl ⟨by simp [← h.1], h.2.symm⟩⟩
  | none =>
    simp only [bind_ok, pure_ok] at h
    obtain ⟨_, _, hcreate, _, _, hinsert, ho, rfl⟩ := h
    obtain ⟨⟨hfresh, hoccurrence⟩, rfl⟩ := createRun_ok hcreate
    obtain ⟨_, rfl⟩ := insertIdempotency_ok hinsert
    exact ⟨_, .inr ⟨ho.symm, ⟨hfresh, hoccurrence⟩, rfl⟩⟩

def DB.nextRow (db : DB) (r : Run) (now : ℤ) (lim : QueueLimits) (size : ℕ) : QueueRow :=
  ⟨db.lastSeq + 1, r.id, r.definitionID, unixMicro now, unixMicro (now + lim.maxAge), size⟩

lemma insertQueue_ok {lim : QueueLimits} {size : ℕ} (h : insertQueue r now lim size db = .ok (u, db')) :
    db' = { db with queue := db.queue ++ [db.nextRow r now lim size], lastSeq := db.lastSeq + 1 } := by
  simp only [insertQueue, bind_ok, get_ok, refuse_ok, set_ok] at h
  obtain ⟨_, _, ⟨rfl, rfl⟩, _, _, ⟨_, rfl⟩, rfl⟩ := h
  rfl

structure Enqueued (r : Run) (lim : QueueLimits) (unique : Bool) (db db' : DB) (row : RunRow) (item : QueueRow) :
    Prop where
  fresh : ∀ old ∈ db.runs, old.runID ≠ row.runID
  status : row.status = .queued
  runID : item.runID = row.runID
  definitionID : item.definitionID = r.definitionID
  limits : checkLimits r lim unique item.payloadBytes db = none
  runs : db'.runs = db.runs ++ [row]
  queue : db'.queue = db.queue ++ [item]

lemma enqueueRun_cases {now later : ℤ} {idem : Option Idempotency} {lim : QueueLimits} {unique : Bool}
    (h : enqueueRun now later r idem lim unique db = .ok (o, db')) :
    ∃ keys, o ≠ none ∧ db' = { db with idempotency := keys } ∨
      o = none ∧ db.Admits r ∧
        checkLimits r lim unique (queuePayloadBytes r idem) db = none ∧
        db' = { db with
          runs := db.runs ++ [runArgs { r with status := .queued }]
          queue := db.queue ++ [db.nextRow r later lim (queuePayloadBytes r idem)]
          lastSeq := db.lastSeq + 1
          idempotency := keys } := by
  simp only [enqueueRun, bind_ok] at h
  obtain ⟨replay, _, hreserve, h⟩ := h
  obtain ⟨keys, rfl⟩ := reserveKey_ok hreserve
  cases replay with
  | some id =>
    simp only [pure_ok] at h
    exact ⟨keys, .inl ⟨by simp [← h.1], h.2.symm⟩⟩
  | none =>
    simp only [bind_ok, get_ok] at h
    obtain ⟨_, _, ⟨rfl, rfl⟩, h⟩ := h
    cases hl : checkLimits r lim unique (queuePayloadBytes r idem) { db with idempotency := keys } with
    | some e => simp only [hl, throw_ok] at h
    | none =>
      simp only [hl, bind_ok, pure_ok] at h
      obtain ⟨_, _, hcreate, _, _, hqueue, _, _, hinsert, ho, rfl⟩ := h
      obtain ⟨⟨hfresh, hoccurrence⟩, rfl⟩ := createRun_ok hcreate
      obtain rfl := insertQueue_ok hqueue
      obtain ⟨keys', rfl⟩ := insertKey_ok hinsert
      exact ⟨keys', .inr ⟨ho.symm, ⟨hfresh, hoccurrence⟩, hl, rfl⟩⟩

lemma endQueued_ok {runID reason : String} {status : Status} {b : Bool}
    (h : endQueued runID status reason now db = .ok (b, db')) :
    db' = endRuns [runID] (·.runID = runID) status reason (unixMicro now) db ∧
      b = db.runs.any fun r => r.runID = runID && r.status = .queued := by
  simp only [endQueued, bind_ok, get_ok, set_ok, pure_ok] at h
  obtain ⟨_, _, ⟨rfl, rfl⟩, _, _, rfl, rfl, rfl⟩ := h
  exact ⟨rfl, rfl⟩

lemma dropDefinitionQueued_ok {id : ℕ} {reason : String}
    (h : dropDefinitionQueued id reason nowUs db = .ok (u, db')) :
    db' = endRuns ((db.queue.filter (·.definitionID = id)).map (·.runID)) (·.definitionID = id) .skipped reason
      nowUs db := by
  rw [dropDefinitionQueued, modify_ok] at h
  exact h.symm

lemma expireQueued_ok {limit : ℕ} {ids : List String} (h : expireQueued now limit db = .ok (ids, db')) :
    ids = expiredIDs now limit db ∧ (ids = [] ∧ db' = db ∨
      db' = endRuns ids (fun row => ids.contains row.runID) .skipped "queue_expired" (unixMicro now) db) := by
  simp only [expireQueued, bind_ok, get_ok] at h
  obtain ⟨_, _, ⟨rfl, rfl⟩, h⟩ := h
  split_ifs at h with hempty
  · simp only [pure_ok] at h
    obtain ⟨rfl, rfl⟩ := h
    exact ⟨(List.isEmpty_iff.mp hempty).symm, .inl ⟨rfl, rfl⟩⟩
  · simp only [bind_ok, set_ok, pure_ok] at h
    obtain ⟨_, _, rfl, rfl, rfl⟩ := h
    exact ⟨rfl, .inr rfl⟩

lemma dequeueRun_ok {runID hash bootID : String} {revision : ℕ}
    (h : dequeueRun runID revision hash bootID db = .ok (u, db')) :
    (∃ r ∈ db.runs, r.runID = runID ∧ r.status = .queued) ∧ db' = db.dequeued runID revision hash bootID := by
  simp only [dequeueRun, bind_ok, get_ok, refuse_ok, modify_ok, Bool.not_eq_false', List.any_eq_true,
    Bool.and_eq_true, decide_eq_true_eq] at h
  obtain ⟨_, _, ⟨rfl, rfl⟩, _, _, ⟨hqueued, rfl⟩, rfl⟩ := h
  exact ⟨hqueued, rfl⟩

lemma startRun_ok {process : ProcessInfo} (h : startRun id process now db = .ok (u, db')) :
    (∃ r ∈ db.runs, r.runID = id ∧ r.status = .pending) ∧ db' = db.started id process now := by
  simp only [startRun, bind_ok, get_ok, refuse_ok, modify_ok, Bool.not_eq_false', List.any_eq_true,
    Bool.and_eq_true, decide_eq_true_eq] at h
  obtain ⟨_, _, ⟨rfl, rfl⟩, _, _, ⟨hpending, rfl⟩, rfl⟩ := h
  exact ⟨hpending, rfl⟩

lemma finishRun_ok {t : Outcome} (h : finishRun id t db = .ok (u, db')) :
    (∃ r ∈ db.runs, finishable id t.status r = true) ∧ db' = db.finished id t := by
  simp only [finishRun, bind_ok, get_ok, refuse_ok, modify_ok, Bool.not_eq_false', List.any_eq_true] at h
  obtain ⟨_, _, ⟨rfl, rfl⟩, _, _, ⟨hfinishable, rfl⟩, rfl⟩ := h
  exact ⟨hfinishable, rfl⟩

lemma deleteDefinition_ok {name : String} (h : deleteDefinition name nowUs db = .ok (u, db')) :
    ∃ reg id, dropDefinitionQueued id "definition_removed" nowUs { db with registry := reg } = .ok (u, db') := by
  simp only [deleteDefinition, bind_ok] at h
  obtain ⟨_, _, hreg, h⟩ := h
  obtain ⟨reg, rfl⟩ := onRegistry_ok hreg
  exact ⟨reg, _, h⟩

lemma setEnabled_ok {name : String} {enabled : Bool} (h : setEnabled name enabled nowUs db = .ok (u, db')) :
    ∃ reg, db' = { db with registry := reg } ∨
      ∃ id, dropDefinitionQueued id "definition_disabled" nowUs { db with registry := reg } = .ok (u, db') := by
  simp only [setEnabled, bind_ok] at h
  obtain ⟨_, _, hreg, h⟩ := h
  obtain ⟨reg, rfl⟩ := onRegistry_ok hreg
  split_ifs at h
  · exact ⟨reg, .inr ⟨_, h⟩⟩
  · simp only [pure_ok] at h
    exact ⟨reg, .inl h.2.symm⟩

lemma pruneMetadata_ok (h : pruneMetadata now db = .ok (u, db')) :
    ∃ reg, db' = { db with
      registry := reg, idempotency := deleteWhere (·.createdUs ≤ keyExpiry now) db.idempotency } := by
  simp only [pruneMetadata, bind_ok, modify_ok] at h
  obtain ⟨_, _, rfl, h⟩ := h
  obtain ⟨reg, rfl⟩ := onRegistry_ok h
  exact ⟨reg, rfl⟩

end

structure Status.Progress (a b : Status) : Prop where
  rank : a.rank ≤ b.rank
  final : a.terminal = true → b = a

def Op.inserts : Op → Option Run
  | .create r => some r
  | .admitIdempotent _ _ r _ => some r
  | .enqueue _ _ r _ _ _ => some r
  | _ => none

def Op.isEnqueue : Op → Bool
  | .enqueue .. => true
  | _ => false

/-- The operations that keep every key and every run that a key names. -/
def Op.keepsKeys : Op → Bool
  | .admitIdempotent .. | .enqueue .. | .deleteRuns .. | .pruneMetadata _ => false
  | _ => true

def Op.Ends : Op → Prop
  | .finish _ t => t.status.terminal = true
  | _ => True

/-- The columns of a run row that no operation changes. -/
def RunRow.identity (r : RunRow) : String × ℕ × Trigger × Option ℤ × ℤ :=
  (r.runID, r.definitionID, r.trigger, r.scheduledForUs, r.queuedUs)

structure RunRow.Moves (r r' : RunRow) : Prop where
  identity : r'.identity = r.identity
  ended : r'.status.terminal = true → r'.endedUs.isSome = true

lemma RunRow.Moves.runID {r r' : RunRow} (h : r.Moves r') : r'.runID = r.runID := congrArg Prod.fst h.identity

/-- All that one committed operation does to the database. -/
inductive Change (op : Op) (db : DB) : DB → Prop
  | rest (reg : Registry) (keys : List IdempotencyRow) (hkeys : op.keepsKeys = true → keys = db.idempotency) :
      Change op db { db with registry := reg, idempotency := keys }
  | insert (r : Run) (keys : List IdempotencyRow)
      (hop : op = .create r ∧ keys = db.idempotency ∨ ∃ now later idem, op = .admitIdempotent now later r idem)
      (hadmits : db.Admits r) : Change op db { db with runs := db.runs ++ [runArgs r], idempotency := keys }
  | enqueue (now later : ℤ) (r : Run) (idem : Option Idempotency) (lim : QueueLimits) (unique : Bool)
      (keys : List IdempotencyRow) (hop : op = .enqueue now later r idem lim unique) (hadmits : db.Admits r)
      (hlimits : checkLimits r lim unique (queuePayloadBytes r idem) db = none) :
      Change op db { db with
        runs := db.runs ++ [runArgs { r with status := .queued }]
        queue := db.queue ++ [db.nextRow r later lim (queuePayloadBytes r idem)]
        lastSeq := db.lastSeq + 1
        idempotency := keys }
  | leave (reg : Registry) (ids : List String) (sel : RunRow → Bool) (f : RunRow → RunRow) (p : QueueRow → Bool)
      (hsel : ∀ r, sel r = true ↔ r.status = .queued ∧ r.runID ∈ ids)
      (hp : (db.queue.map (·.runID)).Nodup → ∀ q ∈ db.queue, p q = true ↔
        q.runID ∈ ids) (hf : ∀ r : RunRow, r.Moves (f r))
      (hs : ∀ r, (f r).status ≠ .queued) :
      Change op db { db with registry := reg, runs := updateWhere sel f db.runs, queue := deleteWhere p db.queue }
  | advance (sel : RunRow → Bool) (f : RunRow → RunRow) (hf : ∀ r : RunRow, r.Moves (f r))
      (hs : op.Ends → ∀ r, (f r).status ≠ .queued)
      (hsel : op.Ends → ∀ r, sel r = true → r.status.Progress (f r).status ∧
        (r.status = .queued → ∀ q ∈ db.queue, q.runID ≠ r.runID)) :
      Change op db { db with runs := updateWhere sel f db.runs }
  | delete (ids : List String) (now : ℤ) (hop : op = .deleteRuns ids now) (sel : RunRow → Bool)
      (hsel : ∀ r, sel r = true → r.status.terminal = true) :
      Change op db { db with
        runs := deleteWhere sel db.runs
        queue := deleteWhere (fun q => db.runs.any fun r => r.runID = q.runID && sel r) db.queue }

inductive Effect (op : Op) (db db' : DB) : Prop
  | keep (hr : db'.runs = db.runs) (hq : db'.queue = db.queue)
  | create (row : RunRow) (hr : db'.runs = db.runs ++ [row]) (hq : db'.queue = db.queue)
      (hfresh : ∀ old ∈ db.runs, old.runID ≠ row.runID) (hs : row.status ≠ .queued)
  | enqueue (now later : ℤ) (r : Run) (idem : Option Idempotency) (lim : QueueLimits) (unique : Bool)
      (hop : op = .enqueue now later r idem lim unique) (row : RunRow) (item : QueueRow)
      (h : Enqueued r lim unique db db' row item)
  | leave (ids : List String) (sel : RunRow → Bool) (f : RunRow → RunRow) (p : QueueRow → Bool)
      (hr : db'.runs = updateWhere sel f db.runs) (hq : db'.queue = deleteWhere p db.queue)
      (hsel : ∀ r, sel r = true ↔ r.status = .queued ∧ r.runID ∈ ids)
      (hp : ∀ q ∈ db.queue, p q = true ↔ q.runID ∈ ids) (hid : ∀ r, (f r).runID = r.runID)
      (hs : ∀ r, (f r).status ≠ .queued)
  | advance (sel : RunRow → Bool) (f : RunRow → RunRow) (hr : db'.runs = updateWhere sel f db.runs)
      (hq : db'.queue = db.queue) (hid : ∀ r, (f r).runID = r.runID)
      (hs : ∀ r, sel r = true → (f r).status ≠ .queued ∧ r.status.Progress (f r).status)
      (hsel : ∀ r, sel r = true → r.status = .queued → ∀ q ∈ db.queue, q.runID ≠ r.runID)
  | delete (sel : RunRow → Bool) (hr : db'.runs = deleteWhere sel db.runs)
      (hq : db'.queue = deleteWhere (fun q => db.runs.any fun r => r.runID = q.runID && sel r) db.queue)
      (hsel : ∀ r, sel r = true → r.status.terminal = true)

section

variable {specHash : Definition → String} {op : Op} {db db' : DB} {status : Status} {r : RunRow}

lemma progress_running {a : Status} (h : a = .pending) : a.Progress .running :=
  h ▸ ⟨by decide, by decide⟩

lemma progress_terminal {a b : Status} (ha : a.terminal = false) (hb : b.terminal = true) : a.Progress b where
  rank := by cases a <;> cases b <;> simp_all [Status.terminal, Status.rank]
  final h := by simp [h] at ha

lemma progress_refl (a : Status) : a.Progress a := ⟨le_rfl, fun _ => rfl⟩

lemma ne_queued_of_terminal {a : Status} (h : a.terminal = true) : a ≠ .queued := by
  rintro rfl
  simp [Status.terminal, Status.rank] at h

lemma finishable_progress {id : String} (hs : status.terminal = true)
    (h : finishable id status r = true) : r.status ≠ .queued ∧ r.status.Progress status := by
  simp only [finishable, Bool.and_eq_true, Bool.or_eq_true, decide_eq_true_eq] at h
  rcases h.2 with (hp | hr) | he
  · exact ⟨by simp [hp], progress_terminal (by simp [hp, Status.terminal, Status.rank]) hs⟩
  · exact ⟨by simp [hr], progress_terminal (by simp [hr, Status.terminal, Status.rank]) hs⟩
  · exact ⟨he ▸ ne_queued_of_terminal hs, he ▸ progress_refl _⟩

lemma recoverable_nonterminal (h : recoverable db r = true) : r.status.terminal = false := by
  simp only [recoverable, Bool.and_eq_true, Bool.or_eq_true, decide_eq_true_eq] at h
  rcases h with (hp | hr) | ⟨hq, _⟩
  · simp [hp, Status.terminal, Status.rank]
  · simp [hr, Status.terminal, Status.rank]
  · simp [hq, Status.terminal, Status.rank]

lemma RunRow.moves_endAt {reason : String} {nowUs : ℤ} :
    r.Moves (r.endAt status reason nowUs) := ⟨rfl, fun _ => rfl⟩

lemma Change.onRegistry {α : Type} {x : RegistryTx α} (h : (onRegistry x).Commits db db') : Change op db db' := by
  obtain ⟨_, h⟩ := h
  obtain ⟨reg, rfl⟩ := onRegistry_ok h
  exact .rest reg db.idempotency fun _ => rfl

lemma Change.endQueued {runID reason : String} {now : ℤ} (hs : status ≠ .queued)
    (h : (endQueued runID status reason now).Commits db db') : Change op db db' := by
  obtain ⟨_, h⟩ := h
  obtain ⟨rfl, _⟩ := endQueued_ok h
  exact .leave db.registry [runID] _ _ _ (fun r => by simp) (fun _ q _ => by simp) (fun _ => RunRow.moves_endAt)
    (fun _ => hs)

lemma Change.dropDefinitionQueued {id : ℕ} {reason : String} {nowUs : ℤ} {reg : Registry} {u : Unit}
    (h : dropDefinitionQueued id reason nowUs { db with registry := reg } = .ok (u, db')) : Change op db db' := by
  obtain rfl := dropDefinitionQueued_ok h
  refine .leave reg ((db.queue.filter (·.definitionID = id)).map (·.runID)) _ _ _ (fun r => by simp)
    (fun hnodup q hq => ?_) (fun _ => RunRow.moves_endAt) (fun _ => by simp [RunRow.endAt])
  simp only [decide_eq_true_eq, List.mem_map, List.mem_filter]
  constructor
  · exact fun hd => ⟨q, ⟨hq, hd⟩, rfl⟩
  · rintro ⟨q', ⟨hq', hd⟩, he⟩
    exact List.inj_on_of_nodup_map hnodup hq' hq he ▸ hd

lemma Change.start {id : String} {process : ProcessInfo} {now : ℤ} : Change op db (db.started id process now) := by
  refine .advance _ _ (fun _ => ⟨rfl, fun h => ?_⟩) (fun _ _ => by simp [RunRow.start]) fun _ r hr => ?_
  · simp [RunRow.start, Status.terminal, Status.rank] at h
  · simp only [Bool.and_eq_true, decide_eq_true_eq] at hr
    exact ⟨progress_running hr.2, fun hq => by simp [hr.2] at hq⟩

lemma Change.finish {id : String} {t : Outcome} : Change (.finish id t) db (db.finished id t) := by
  refine .advance _ _ (fun _ => ⟨rfl, fun _ => rfl⟩) (fun ht _ => ne_queued_of_terminal ht) fun ht r hr => ?_
  exact ⟨(finishable_progress ht hr).2, fun hq => ((finishable_progress ht hr).1 hq).elim⟩

lemma Op.Commits.change (h : op.Commits specHash db db') : Change op db db' := by
  cases op with
  | create =>
    obtain ⟨_, h⟩ := h
    obtain ⟨hadmits, rfl⟩ := createRun_ok h
    exact .insert _ db.idempotency (.inl ⟨rfl, rfl⟩) hadmits
  | admitIdempotent =>
    obtain ⟨_, h⟩ := h
    obtain ⟨keys, ⟨_, rfl⟩ | ⟨_, hadmits, rfl⟩⟩ := admitIdempotentRun_ok h
    · exact .rest db.registry keys nofun
    · exact .insert _ keys (.inr ⟨_, _, _, rfl⟩) hadmits
  | enqueue =>
    obtain ⟨_, h⟩ := h
    obtain ⟨keys, ⟨_, rfl⟩ | ⟨_, hadmits, hlimits, rfl⟩⟩ := enqueueRun_cases h
    · exact .rest db.registry keys nofun
    · exact .enqueue _ _ _ _ _ _ keys rfl hadmits hlimits
  | expire =>
    obtain ⟨_, h⟩ := h
    obtain ⟨_, ⟨_, rfl⟩ | rfl⟩ := expireQueued_ok h
    · exact .rest db'.registry db'.idempotency fun _ => rfl
    · exact .leave db.registry _ _ _ _ (fun r => by simp) (fun _ q _ => List.contains_iff_mem)
        (fun _ => RunRow.moves_endAt) (fun _ => by simp [RunRow.endAt])
  | drop | cancel => exact .endQueued (by decide) h
  | dequeue runID =>
    obtain ⟨_, h⟩ := h
    obtain ⟨_, rfl⟩ := dequeueRun_ok h
    refine .leave db.registry [runID] _ _ _ (fun r => by simp [and_comm]) (fun _ q _ => by simp)
      (fun _ => ⟨rfl, fun h => ?_⟩) (fun _ => by simp [RunRow.dequeue])
    simp [RunRow.dequeue, Status.terminal, Status.rank] at h
  | start =>
    obtain ⟨_, h⟩ := h
    obtain ⟨_, rfl⟩ := startRun_ok h
    exact .start
  | finish =>
    obtain ⟨_, h⟩ := h
    obtain ⟨_, rfl⟩ := finishRun_ok h
    exact .finish
  | recover =>
    obtain ⟨_, h⟩ := h
    rw [Store.recover, modify_ok] at h
    subst h
    refine .advance _ _ (fun _ => RunRow.moves_endAt) (fun _ _ => by simp [RunRow.endAt])
      fun _ r hr => ⟨?_, fun hq => ?_⟩
    · exact progress_terminal (recoverable_nonterminal hr) rfl
    · simpa [recoverable, hq] using hr
  | deleteRuns =>
    obtain ⟨_, h⟩ := h
    rw [Store.deleteRuns, modify_ok] at h
    subst h
    refine .delete _ _ rfl _ fun r hr => ?_
    simp only [deletable, Bool.and_eq_true] at hr
    exact hr.1.2
  | deleteDefinition =>
    obtain ⟨_, h⟩ := h
    obtain ⟨_, _, h⟩ := deleteDefinition_ok h
    exact .dropDefinitionQueued h
  | setEnabled =>
    obtain ⟨_, h⟩ := h
    obtain ⟨reg, rfl | ⟨_, h⟩⟩ := setEnabled_ok h
    · exact .rest reg db.idempotency fun _ => rfl
    · exact .dropDefinitionQueued h
  | putDefinition | importDefinitions | syncConfigDefinitions => exact .onRegistry h
  | pruneMetadata =>
    obtain ⟨_, h⟩ := h
    obtain ⟨reg, rfl⟩ := pruneMetadata_ok h
    exact .rest reg _ nofun

lemma Op.Issued.ends (h : op.Issued) : op.Ends := by
  cases op with
  | finish => exact h
  | _ => trivial

lemma Change.mem (h : Change op db db') {x : RunRow} (hx : x ∈ db'.runs) :
    x ∈ db.runs ∨ (∃ y ∈ db.runs, y.Moves x) ∨
      ∃ r, op.inserts = some r ∧ (op.isEnqueue = false ∧ x = runArgs r ∨
      x = runArgs { r with status := .queued }) := by
  have hupdate {sel : RunRow → Bool} {f : RunRow → RunRow} (hf : ∀ r : RunRow, r.Moves (f r))
      (hx : x ∈ updateWhere sel f db.runs) : x ∈ db.runs ∨ ∃ y ∈ db.runs, y.Moves x := by
    obtain ⟨y, hy, rfl⟩ := mem_updateWhere.mp hx
    split_ifs
    · exact .inr ⟨y, hy, hf y⟩
    · exact .inl hy
  cases h with
  | rest => exact .inl hx
  | insert r keys hop =>
    rcases List.mem_append.mp hx with hx | hx
    · exact .inl hx
    · obtain ⟨rfl, _⟩ | ⟨_, _, _, rfl⟩ := hop
      · exact .inr (.inr ⟨r, rfl, .inl ⟨rfl, List.mem_singleton.mp hx⟩⟩)
      · exact .inr (.inr ⟨r, rfl, .inl ⟨rfl, List.mem_singleton.mp hx⟩⟩)
  | enqueue now later r idem lim unique keys hop =>
    rcases List.mem_append.mp hx with hx | hx
    · exact .inl hx
    · exact .inr (.inr ⟨r, hop ▸ rfl, .inr (List.mem_singleton.mp hx)⟩)
  | leave reg ids sel f p hsel hp hf | advance sel f hf => exact (hupdate hf hx).imp id .inl
  | delete => exact .inl (mem_deleteWhere.mp hx).1

lemma Change.effect (hnodup : (db.queue.map (·.runID)).Nodup) (hissued : op.Issued) (h : Change op db db') :
    Effect op db db' := by
  cases h with
  | rest => exact .keep rfl rfl
  | insert r keys hop hadmits =>
    refine .create _ rfl rfl hadmits.fresh ?_
    obtain ⟨rfl, _⟩ | ⟨_, _, _, rfl⟩ := hop
    · exact hissued
    · exact hissued
  | enqueue now later r idem lim unique keys hop hadmits hlimits =>
    exact .enqueue _ _ _ _ _ _ hop _ _ ⟨hadmits.fresh, rfl, rfl, rfl, hlimits, rfl, rfl⟩
  | leave reg ids sel f p hsel hp hf hs =>
    exact .leave ids _ _ _ rfl rfl hsel (hp hnodup) (fun r => (hf r).runID) hs
  | advance sel f hf hs hsel =>
    exact .advance _ _ rfl rfl (fun r => (hf r).runID)
      (fun r hr => ⟨hs hissued.ends r, (hsel hissued.ends r hr).1⟩) fun r hr => (hsel hissued.ends r hr).2
  | delete ids now hop sel hsel => exact .delete sel rfl rfl hsel

lemma Step.effect (hnodup : (db.queue.map (·.runID)).Nodup) (h : Step specHash db op db') : Effect op db db' := by
  obtain ⟨hissued, rfl | h⟩ := h
  · exact .keep rfl rfl
  · exact h.change.effect hnodup hissued

end

end Minicrond.Store
