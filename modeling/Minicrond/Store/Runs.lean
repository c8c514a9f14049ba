import Mathlib.Data.List.Sort
import Minicrond.Store.Registry

/-! The run rows, the durable execution queue and the idempotency keys of the store, with the transactions
that change them. -/

namespace Minicrond.Store

open Minicrond.Library Minicrond.Time Transaction

inductive Status
  | queued
  | pending
  | running
  | succeeded
  | failed
  | timeout
  | stopped
  | interrupted
  | skipped
  | missed
deriving DecidableEq, Repr

namespace Status

def rank : Status → ℕ
  | queued => 0
  | pending => 1
  | running => 2
  | _ => 3

def terminal (s : Status) : Bool := s.rank == 3

end Status

inductive Trigger
  | schedule
  | manual
  | retry
  | startup
deriving DecidableEq, Repr

def Trigger.text : Trigger → String
  | schedule => "schedule"
  | manual => "manual"
  | retry => "retry"
  | startup => "startup"

structure Run where
  id : String
  definitionID : ℕ
  job : String
  kind : Kind
  revision : ℕ
  definitionHash : String
  status : Status
  endReason : String
  trigger : Trigger
  attempt : ℕ
  parentRunID : String
  scheduledFor : Option ℤ
  missedCount : ℕ
  bootID : String
  queuedAt : ℤ
  endedAt : Option ℤ
  logRef : String
deriving DecidableEq, Repr

structure Usage where
  userCpuUs : ℤ
  systemCpuUs : ℤ
  peakRssBytes : ℤ
deriving DecidableEq, Repr

structure RunRow where
  runID : String
  definitionID : ℕ
  job : String
  kind : Kind
  revision : ℕ
  definitionHash : String
  status : Status
  endReason : Option String
  trigger : Trigger
  attempt : ℕ
  parentRunID : Option String
  scheduledForUs : Option ℤ
  missedCount : ℕ
  bootID : String
  pid : Option ℤ := none
  pgid : Option ℤ := none
  processStartID : Option String := none
  exitCode : Option ℤ := none
  signal : Option String := none
  queuedUs : ℤ
  startedUs : Option ℤ := none
  endedUs : Option ℤ
  logRef : String
  logBytes : ℤ := 0
  logTruncated : Bool := false
  usage : Option Usage := none
deriving DecidableEq, Repr

structure QueueRow where
  seq : ℕ
  runID : String
  definitionID : ℕ
  enqueuedUs : ℤ
  expiresUs : ℤ
  payloadBytes : ℕ
deriving DecidableEq, Repr

structure Idempotency where
  principal : String
  operation : String
  key : String
  requestHash : String
deriving DecidableEq, Repr

structure IdempotencyRow extends Idempotency where
  runID : String
  createdUs : ℤ
deriving DecidableEq, Repr

structure DB where
  registry : Registry
  runs : List RunRow
  queue : List QueueRow
  lastSeq : ℕ
  idempotency : List IdempotencyRow
deriving DecidableEq, Repr

def DB.empty : DB := ⟨⟨[], [], []⟩, [], [], 0, []⟩

abbrev Tx := Transaction DB StoreError

def onRegistry {α : Type} (x : RegistryTx α) : Tx α := x.within DB.registry fun r db => { db with registry := r }

def nullString (s : String) : Option String := if s = "" then none else some s

def runArgs (r : Run) : RunRow where
  runID := r.id
  definitionID := r.definitionID
  job := r.job
  kind := r.kind
  revision := r.revision
  definitionHash := r.definitionHash
  status := r.status
  endReason := nullString r.endReason
  trigger := r.trigger
  attempt := r.attempt
  parentRunID := nullString r.parentRunID
  scheduledForUs := r.scheduledFor.map unixMicro
  missedCount := r.missedCount
  bootID := r.bootID
  queuedUs := unixMicro r.queuedAt
  endedUs := r.endedAt.map unixMicro
  logRef := r.logRef

def sameOccurrence (row other : RunRow) : Bool :=
  row.trigger = .schedule && other.trigger = .schedule && row.definitionID = other.definitionID &&
    row.scheduledForUs.isSome && row.scheduledForUs = other.scheduledForUs

def createRun (r : Run) : Tx Unit := do
  let db ← get
  let row := runArgs r
  refuse (db.runs.any (·.runID = row.runID)) .constraint
  refuse (db.runs.any (sameOccurrence row)) .constraint
  refuse (!db.registry.definitions.any (·.definitionID = row.definitionID)) .constraint
  set { db with runs := db.runs ++ [row] }

def keyExpiry (now : ℤ) : ℤ := unixMicro (now - 24 * hour)

def sameKey (idem : Idempotency) (row : IdempotencyRow) : Bool :=
  row.principal = idem.principal && row.operation = idem.operation && row.key = idem.key

def reserveIdempotency (now : ℤ) (idem : Idempotency) : Tx (Option String) := do
  let db ← get
  match db.idempotency.find? (sameKey idem) with
  | none => return none
  | some row =>
    if keyExpiry now < row.createdUs then
      refuse (row.requestHash ≠ idem.requestHash) .idempotencyConflict
      return some row.runID
    else
      set { db with idempotency := deleteWhere (sameKey idem) db.idempotency }
      return none

def insertIdempotency (idem : Idempotency) (runID : String) (nowUs : ℤ) : Tx Unit := do
  let db ← get
  refuse (db.idempotency.any (sameKey idem)) .constraint
  modify fun db => { db with idempotency := db.idempotency ++ [⟨idem, runID, nowUs⟩] }

def reserveKey (now : ℤ) : Option Idempotency → Tx (Option String)
  | none => return none
  | some idem => reserveIdempotency now idem

def insertKey (key : Option Idempotency) (runID : String) (nowUs : ℤ) : Tx Unit :=
  match key with
  | none => return ()
  | some idem => insertIdempotency idem runID nowUs

def admitIdempotentRun (now later : ℤ) (r : Run) (idem : Idempotency) : Tx (Option String) := do
  match ← reserveIdempotency now idem with
  | some existing => return some existing
  | none =>
    createRun r
    insertIdempotency idem r.id (unixMicro later)
    return none

structure QueueLimits where
  maxItems : ℕ
  maxPerJob : ℕ
  maxBytes : ℕ
  maxAge : ℤ
deriving DecidableEq, Repr

def queuePayloadOverhead : ℕ := 128

def queuePayloadBytes (r : Run) (idem : Option Idempotency) : ℕ :=
  queuePayloadOverhead + r.id.utf8ByteSize + r.job.utf8ByteSize + r.definitionHash.utf8ByteSize +
      r.parentRunID.utf8ByteSize + r.trigger.text.utf8ByteSize + r.bootID.utf8ByteSize +
    idem.elim 0 fun i =>
      i.principal.utf8ByteSize + i.operation.utf8ByteSize + i.key.utf8ByteSize + i.requestHash.utf8ByteSize

def DB.queueDepth (db : DB) : ℕ := db.queue.length

def DB.queueBytes (db : DB) : ℕ := (db.queue.map (·.payloadBytes)).sum

def DB.queueDepthOf (db : DB) (definitionID : ℕ) : ℕ := db.queue.countP (·.definitionID = definitionID)

def insertQueue (r : Run) (now : ℤ) (lim : QueueLimits) (size : ℕ) : Tx Unit := do
  let db ← get
  refuse (db.queue.any (·.runID = r.id)) .constraint
  let row : QueueRow := ⟨db.lastSeq + 1, r.id, r.definitionID, unixMicro now, unixMicro (now + lim.maxAge), size⟩
  set { db with queue := db.queue ++ [row], lastSeq := db.lastSeq + 1 }

def checkLimits (r : Run) (lim : QueueLimits) (unique : Bool) (size : ℕ) (db : DB) : Option StoreError :=
  let depth := db.queueDepth
  let perJob := db.queueDepthOf r.definitionID
  if unique && 0 < perJob then some .queueDuplicate
  else if lim.maxItems ≤ depth then some (.queueFull (toString depth ++ " items queued (queue.max_items)"))
  else if lim.maxPerJob ≤ perJob then
    some (.queueFull (toString perJob ++ " items queued for " ++ r.job ++ " (queue.max_per_job)"))
  else if lim.maxBytes < db.queueBytes + size then
    some (.queueFull (toString db.queueBytes ++ " payload bytes queued (queue.max_bytes)"))
  else none

def enqueueRun (now later : ℤ) (r : Run) (idem : Option Idempotency) (lim : QueueLimits) (unique : Bool) :
    Tx (Option String) := do
  -- a request without a key reserves nothing
  let key := idem.filter (·.key ≠ "")
  match ← reserveKey now key with
  | some existing => return some existing
  | none =>
    let db ← get
    let size := queuePayloadBytes r idem
    match checkLimits r lim unique size db with
    | some e => throw e
    | none =>
      createRun { r with status := .queued }
      insertQueue r later lim size
      insertKey key r.id (unixMicro later)
      return none

def RunRow.endAt (r : RunRow) (status : Status) (reason : String) (nowUs : ℤ) : RunRow :=
  { r with status := status, endReason := some reason, endedUs := some nowUs }

def endRuns (ids : List String) (p : QueueRow → Bool) (status : Status) (reason : String) (nowUs : ℤ) (db : DB) :
    DB :=
  { db with
    runs := updateWhere (fun r => r.status = .queued && ids.contains r.runID) (·.endAt status reason nowUs) db.runs
    queue := deleteWhere p db.queue }

def expiredIDs (now : ℤ) (limit : ℕ) (db : DB) : List String :=
  (((db.queue.filter (·.expiresUs ≤ unixMicro now)).insertionSort fun a b => a.expiresUs ≤ b.expiresUs).take
    limit).map (·.runID)

def expireQueued (now : ℤ) (limit : ℕ) : Tx (List String) := do
  let db ← get
  let ids := expiredIDs now limit db
  if ids.isEmpty then
    return []
  else
    set (endRuns ids (fun row => ids.contains row.runID) .skipped "queue_expired" (unixMicro now) db)
    return ids

def endQueued (runID : String) (status : Status) (reason : String) (now : ℤ) : Tx Bool := do
  let db ← get
  set (endRuns [runID] (·.runID = runID) status reason (unixMicro now) db)
  return db.runs.any fun r => r.runID = runID && r.status = .queued

def dropQueued (runID reason : String) (now : ℤ) : Tx Bool := endQueued runID .skipped reason now

def cancelQueued (runID : String) (now : ℤ) : Tx Bool := endQueued runID .stopped "queue_cancelled" now

def dropDefinitionQueued (definitionID : ℕ) (reason : String) (nowUs : ℤ) : Tx Unit :=
  modify fun db =>
    let ids := (db.queue.filter (·.definitionID = definitionID)).map (·.runID)
    endRuns ids (·.definitionID = definitionID) .skipped reason nowUs db

def RunRow.dequeue (r : RunRow) (revision : ℕ) (hash bootID : String) : RunRow :=
  { r with status := .pending, revision := revision, definitionHash := hash, bootID := bootID }

def DB.dequeued (db : DB) (runID : String) (revision : ℕ) (hash bootID : String) : DB :=
  { db with
    runs := updateWhere (fun r => r.runID = runID && r.status = .queued) (·.dequeue revision hash bootID) db.runs
    queue := deleteWhere (·.runID = runID) db.queue }

def dequeueRun (runID : String) (revision : ℕ) (hash bootID : String) : Tx Unit := do
  let db ← get
  refuse (!db.runs.any fun r => r.runID = runID && r.status = .queued)
    (.invalidTransition ("dequeue run " ++ runID))
  modify fun db => db.dequeued runID revision hash bootID

structure ProcessInfo where
  pid : ℤ
  pgid : ℤ
  startID : String
deriving DecidableEq, Repr

def RunRow.start (r : RunRow) (process : ProcessInfo) (now : ℤ) : RunRow :=
  { r with
    status := .running, pid := some process.pid, pgid := some process.pgid, processStartID := some process.startID,
    startedUs := some (unixMicro now) }

def DB.started (db : DB) (id : String) (process : ProcessInfo) (now : ℤ) : DB :=
  { db with runs := updateWhere (fun r => r.runID = id && r.status = .pending) (·.start process now) db.runs }

def startRun (id : String) (process : ProcessInfo) (now : ℤ) : Tx Unit := do
  let db ← get
  refuse (!db.runs.any fun r => r.runID = id && r.status = .pending) (.invalidTransition ("start run " ++ id))
  modify fun db => db.started id process now

structure Outcome where
  status : Status
  reason : String
  code : Option ℤ
  signal : String
  ended : ℤ
  bytes : ℤ
  truncated : Bool
  usage : Option Usage
deriving DecidableEq, Repr

/-- The rows that `FinishRunWithUsage` may end: started or pending ones, and those that already have the status. -/
def finishable (id : String) (status : Status) (r : RunRow) : Bool :=
  r.runID = id && (r.status = .pending || r.status = .running || r.status = status)

def RunRow.finish (r : RunRow) (t : Outcome) : RunRow :=
  { r with
    status := t.status, endReason := some t.reason, exitCode := t.code, signal := nullString t.signal,
    endedUs := some (unixMicro t.ended), logBytes := t.bytes, logTruncated := t.truncated, usage := t.usage }

def DB.finished (db : DB) (id : String) (t : Outcome) : DB :=
  { db with runs := updateWhere (finishable id t.status) (·.finish t) db.runs }

def finishRun (id : String) (t : Outcome) : Tx Unit := do
  let db ← get
  refuse (!db.runs.any (finishable id t.status)) (.invalidTransition ("finish run " ++ id))
  modify fun db => db.finished id t

def recoverable (db : DB) (r : RunRow) : Bool :=
  r.status = .pending || r.status = .running || (r.status = .queued && !(db.queue.any fun q => q.runID = r.runID))

def recover (nowUs : ℤ) : Tx Unit :=
  modify fun db => { db with
    runs := updateWhere (recoverable db) (·.endAt .interrupted "crash_recovery" nowUs) db.runs }

def deletable (ids : List String) (now : ℤ) (db : DB) (r : RunRow) : Bool :=
  ids.contains r.runID && r.status.terminal &&
    !(db.idempotency.any fun i => i.runID = r.runID && keyExpiry now < i.createdUs)

def deleteRuns (ids : List String) (now : ℤ) : Tx Unit :=
  modify fun db => { db with
    runs := deleteWhere (deletable ids now db) db.runs
    queue := deleteWhere (fun q => db.runs.any fun r => r.runID = q.runID && deletable ids now db r) db.queue }

def deleteDefinition (name : String) (nowUs : ℤ) : Tx Unit := do
  let id ← onRegistry (Registry.deleteDefinition name nowUs)
  dropDefinitionQueued id "definition_removed" nowUs

def setEnabled (name : String) (enabled : Bool) (nowUs : ℤ) : Tx Unit := do
  let id ← onRegistry (Registry.setEnabled name enabled nowUs)
  if !enabled then dropDefinitionQueued id "definition_disabled" nowUs

def pruneMetadata (now : ℤ) : Tx Unit := do
  modify fun db => { db with idempotency := deleteWhere (·.createdUs ≤ keyExpiry now) db.idempotency }
  onRegistry Registry.pruneRevisions

end Minicrond.Store
