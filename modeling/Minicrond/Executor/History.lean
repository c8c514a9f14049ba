import Minicrond.Store.Lifecycle

/-! Execution first: the life of one run next to the background history writer, which stores what could not be
written when it happened. The other runs of the service are the environment: they change the database, the health
flag and the room in the spool. -/

namespace Minicrond.Executor.History

open Minicrond.Library Minicrond.Store Minicrond.Time

def finalizerBackoffMin : ℤ := second

def finalizerBackoffMax : ℤ := 30 * second

def finishAttempts : ℕ := 5

/-! ## Database writes -/

inductive WriteResult
  | ok
  | refused (e : StoreError)
  | unavailable

inductive Attempt (x : Tx Unit) (db : DB) : WriteResult → DB → Prop
  | ok {db' : DB} (h : x db = .ok ((), db')) : Attempt x db .ok db'
  | refused {e : StoreError} (h : x db = .error e) : Attempt x db (.refused e) db
  | failed : Attempt x db .unavailable db
  | ambiguous {db' : DB} (h : x db = .ok ((), db')) : Attempt x db .unavailable db'

/-! ## Runs and their outcomes -/

structure Job where
  r : Run
  successCodes : List ℤ
  skipsUnrecorded : Bool
  retries : ℕ
  retryDelay : ℤ

structure StartInfo where
  process : ProcessInfo
  started : ℤ
deriving DecidableEq

structure Terminal extends Outcome where
  retry : Bool
deriving DecidableEq

inductive WaitError
  | exit (code : ℤ) (signal : String)
  | other

inductive Cause
  | deadline
  | stop

def classifyExit (cause : Option Cause) (success : List ℤ) (code : ℤ) (signal : String) : Status × String :=
  match cause with
  | some .deadline => (.timeout, "timeout")
  | some .stop => (.stopped, "stop_signal")
  | none =>
    if success.contains code then (.succeeded, "exit")
    else if signal ≠ "" then (.failed, "signal")
    else (.failed, "exit_nonzero")

def classify (err : Option WaitError) (cause : Option Cause) (success : List ℤ) :
    Status × String × Option ℤ × String :=
  match err with
  | none => let (status, reason) := classifyExit cause success 0 ""; (status, reason, some 0, "")
  | some (.exit code signal) =>
    let (status, reason) := classifyExit cause success code signal; (status, reason, some code, signal)
  | some .other => (.failed, "start_error", none, "")

structure Remains where
  ended : ℤ
  bytes : ℤ
  truncated : Bool
  usage : Option Usage

def Remains.exit (x : Remains) (err : Option WaitError) (cause : Option Cause) (success : List ℤ) : Terminal :=
  let (status, reason, code, signal) := classify err cause success
  ⟨⟨status, reason, code, signal, x.ended, x.bytes, x.truncated, x.usage⟩, true⟩

def Remains.startError (x : Remains) : Terminal :=
  ⟨⟨.failed, "start_error", none, "", x.ended, x.bytes, x.truncated, x.usage⟩, true⟩

def unavailableSkip (now : ℤ) : Terminal :=
  ⟨⟨.skipped, "history_unavailable", none, "", now, 0, false, none⟩, false⟩

def refusedStart (now : ℤ) : Outcome := ⟨.failed, "start_error", none, "", now, 0, false, none⟩

structure Announcement where
  r : Run
  code : Option ℤ
  signal : String
  usage : Option Usage
deriving DecidableEq

def announce (r : Run) (t : Terminal) : Announcement :=
  ⟨{ r with status := t.status, endReason := t.reason, endedAt := some t.ended }, t.code, t.signal, t.usage⟩

structure RetryItem where
  due : ℤ
  runID : String
  name : String
  definitionID : ℕ
  revision : ℕ
  hash : String
  attempt : ℕ
  scheduled : Option ℤ
  delay : ℤ
deriving DecidableEq

def Job.delay (j : Job) : ℤ := if 0 < j.retryDelay then j.retryDelay * second else 5 * second

def Job.retryItem (j : Job) (now : ℤ) : RetryItem :=
  ⟨now + j.delay, j.r.id, j.r.job, j.r.definitionID, j.r.revision, j.r.definitionHash, j.r.attempt,
    j.r.scheduledFor, j.delay⟩

def Job.mayRetry (j : Job) (t : Terminal) : Bool :=
  t.retry && j.r.kind = .job && t.status = .failed && j.r.attempt ≤ j.retries

/-! ## Deferred history -/

structure FinalItem where
  ref : ℕ
  create : Bool
  start : Option StartInfo
  done : Option Terminal
  backoff : ℤ
  nextTry : ℤ
  attempts : ℕ

structure FinalItemView where
  ref : ℕ
  create : Bool
  start : Option StartInfo
  done : Option Terminal

namespace FinalItem

variable (it : FinalItem)

def view : FinalItemView := ⟨it.ref, it.create, it.start, it.done⟩

def setCreate : FinalItem := { it with create := true }

def setStart (info : StartInfo) : FinalItem := { it with start := some info }

def setDone (t : Terminal) : FinalItem := { it with done := some t }

def stored : FinalItem := { it with create := false }

def running : FinalItem := { it with start := none }

def delay (now : ℤ) : FinalItem :=
  let backoff := min (it.backoff * 2) finalizerBackoffMax
  { it with attempts := it.attempts + 1, backoff := backoff, nextTry := now + backoff }

end FinalItem

inductive WriterPc
  | idle
  | holding (v : FinalItemView)
  | creating (v : FinalItemView)
  | looking (v : FinalItemView)
  | created (v : FinalItemView)
  | starting (v : FinalItemView)
  | started (v : FinalItemView)
  | finishing (v : FinalItemView)
  | retiring (v : FinalItemView)
  | recovering
  | dropping
  | delaying (v : FinalItemView)
  | stopped

inductive RecordPc
  | looking
  | checking
  | writing (attempt : ℕ)
  | spooling
  | registering
  | recorded
  | rejected

inductive RunPc
  | admitting
  | inserting
  | deferring
  | registering (t : Option Terminal)
  | skipping (t : Terminal)
  | skipped (t : Terminal)
  | declined
  | launching (recorded : Bool)
  | refusing (t : Outcome) (attempt : ℕ)
  | executing
  | persisting (info : StartInfo) (pc : RecordPc)
  | supervising (startErr : Bool)
  | completing (t : Terminal) (pc : RecordPc)
  | announcing (t : Terminal)
  | retrying (t : Terminal)
  | ended (t : Terminal)

/-- The service as one run sees it. `spawned` and `exit` are the process that was started and the outcome it came
to, `finished` the calls of the completion callback. -/
structure State where
  db : DB
  down : Bool
  closing : Bool
  item : Option FinalItem
  refs : ℕ
  writer : WriterPc
  run : RunPc
  unrecorded : Bool
  spawned : Option StartInfo
  exit : Option Terminal
  finished : List Announcement
  heap : List RetryItem
  evidence : List RetryItem

namespace State

variable (s : State)

def newItem (now : ℤ) : FinalItem :=
  ⟨s.refs, false, none, none, finalizerBackoffMin, if s.down then now + finalizerBackoffMin else now, 0⟩

def spool (full : Bool) (now : ℤ) (update : FinalItem → FinalItem) : Option State :=
  if s.closing then none
  else
    match s.item with
    | some it => some { s with item := some (update it) }
    | none => if full then none else some { s with item := some (update (s.newItem now)), refs := s.refs + 1 }

def spooled (update : FinalItem → FinalItem) : Option State :=
  s.item.map fun it => { s with item := some (update it) }

def dropFinalizer : State := { s with item := none }

def modifyItem (ref : ℕ) (f : FinalItem → FinalItem) : State :=
  { s with item := s.item.map fun it => if it.ref = ref then f it else it }

def retires (v : FinalItemView) : Bool :=
  s.item.any fun it => it.ref = v.ref && !it.create && it.start.isNone && (v.done.isSome || it.done.isNone)

end State

/-! ## The steps of the run -/

inductive RecordStep (full : Bool) (update : FinalItem → FinalItem) (x : Tx Unit) (tries : ℕ) :
    State → RecordPc → State → RecordPc → Prop
  | unrecorded {s : State} (h : s.unrecorded = true) : RecordStep full update x tries s .looking s .recorded
  | spooled {s s' : State} (hr : s.unrecorded = false) (h : s.spooled update = some s') :
      RecordStep full update x tries s .looking s' .recorded
  | absent {s : State} (hr : s.unrecorded = false) (h : s.item = none) :
      RecordStep full update x tries s .looking s .checking
  | healthy {s : State} (h : s.down = false) : RecordStep full update x tries s .checking s (.writing 0)
  | degraded {s : State} (h : s.down = true) : RecordStep full update x tries s .checking s .spooling
  | written {s : State} {n : ℕ} {db' : DB} (h : Attempt x s.db .ok db') :
      RecordStep full update x tries s (.writing n) { s with db := db', down := false } .recorded
  | again {s : State} {n : ℕ} {result : WriteResult} {db' : DB} (h : Attempt x s.db result db')
      (hfailed : result ≠ .ok) (hn : n + 1 < tries) :
      RecordStep full update x tries s (.writing n) { s with db := db' } (.writing (n + 1))
  | rejected {s : State} {n : ℕ} {e : StoreError} {db' : DB} (h : Attempt x s.db (.refused e) db') :
      RecordStep full update x tries s (.writing n) { s with db := db' } .rejected
  | failed {s : State} {n : ℕ} {db' : DB} (h : Attempt x s.db .unavailable db') :
      RecordStep full update x tries s (.writing n) { s with db := db', down := true } .spooling
  | spool {s s' : State} (now : ℤ) (h : s.spool full now update = some s') :
      RecordStep full update x tries s .spooling s' .registering
  | overflow {s : State} (now : ℤ) (h : s.spool full now update = none) :
      RecordStep full update x tries s .spooling s .recorded
  | registered {s : State} (h : s.closing = false) : RecordStep full update x tries s .registering s .recorded
  | abandoned {s : State} (h : s.closing = true) :
      RecordStep full update x tries s .registering s.dropFinalizer .recorded

def persistStart (j : Job) (full : Bool) (info : StartInfo) : State → RecordPc → State → RecordPc → Prop :=
  RecordStep full (·.setStart info) (startRun j.r.id info.process info.started) 1

def complete (j : Job) (full : Bool) (t : Terminal) : State → RecordPc → State → RecordPc → Prop :=
  RecordStep full (·.setDone t) (finishRun j.r.id t.toOutcome) finishAttempts

def Job.deferred (j : Job) (now : ℤ) : Option Terminal :=
  if j.r.kind = .job && j.skipsUnrecorded then some (unavailableSkip now) else none

def deferRow (t : Option Terminal) (it : FinalItem) : FinalItem := t.elim it.setCreate it.setCreate.setDone

def afterSpool : Option Terminal → Bool → RunPc
  | some t, _ => .skipping t
  | none, kept => .launching kept

inductive RunStep (j : Job) (full : Bool) : State → RunPc → State → RunPc → Prop
  -- `admitRow`; `others` tells whether the history of another run is pending
  | bypassed {s : State} (others : Bool) (hd : s.down = true) (h : s.item.isSome || others) :
      RunStep j full s .admitting s .deferring
  | cancelled {s : State} (others : Bool) (hd : s.down = true) (h : s.item.isSome || others) :
      RunStep j full s .admitting s .declined
  | attempted {s : State} (others : Bool) (h : (s.down && (s.item.isSome || others)) = false) :
      RunStep j full s .admitting s .inserting
  | inserted {s : State} {db' : DB} (h : Attempt (createRun j.r) s.db .ok db') :
      RunStep j full s .inserting { s with db := db', down := false } (.launching true)
  | unavailable {s : State} {db' : DB} (h : Attempt (createRun j.r) s.db .unavailable db') :
      RunStep j full s .inserting { s with db := db', down := true } .deferring
  -- the caller gave up, or the row was refused
  | declined {s : State} {result : WriteResult} {db' : DB} (h : Attempt (createRun j.r) s.db result db')
      (hfailed : result ≠ .ok) : RunStep j full s .inserting { s with db := db' } .declined
  | defer {s s' : State} (now : ℤ) (h : s.spool full now (deferRow (j.deferred now)) = some s') :
      RunStep j full s .deferring s' (.registering (j.deferred now))
  | lost {s : State} (now : ℤ) (h : s.spool full now (deferRow (j.deferred now)) = none) :
      RunStep j full s .deferring s (afterSpool (j.deferred now) false)
  | registered {s : State} {t : Option Terminal} (h : s.closing = false) :
      RunStep j full s (.registering t) s (afterSpool t true)
  | abandoned {s : State} {t : Option Terminal} (h : s.closing = true) :
      RunStep j full s (.registering t) s.dropFinalizer (afterSpool t false)
  | skip {s : State} {t : Terminal} :
      RunStep j full s (.skipping t) { s with finished := s.finished ++ [announce j.r t] } (.skipped t)
  -- `launch`
  | launched {s : State} {recorded : Bool} (h : s.closing = false) :
      RunStep j full s (.launching recorded) { s with unrecorded := !recorded } .executing
  | turnedAway {s : State} (h : s.closing = true) :
      RunStep j full s (.launching false) s.dropFinalizer .declined
  | refused {s : State} (now : ℤ) (h : s.closing = true) :
      RunStep j full s (.launching true) s.dropFinalizer (.refusing (refusedStart now) 0)
  | refuse {s : State} {t : Outcome} {n : ℕ} {result : WriteResult} {db' : DB}
      (h : Attempt (finishRun j.r.id t) s.db result db') :
      RunStep j full s (.refusing t n) { s with db := db' } .declined
  | refuseAgain {s : State} {t : Outcome} {n : ℕ} {result : WriteResult} {db' : DB}
      (h : Attempt (finishRun j.r.id t) s.db result db') (hfailed : result ≠ .ok) (hn : n + 1 < finishAttempts) :
      RunStep j full s (.refusing t n) { s with db := db' } (.refusing t (n + 1))
  -- `executeRun`
  | notSpawned {s : State} (x : Remains) (hx : x.usage = none) :
      RunStep j full s .executing { s with exit := some x.startError } (.completing x.startError .looking)
  | spawned {s : State} (info : StartInfo) :
      RunStep j full s .executing { s with spawned := some info } (.persisting info .looking)
  | persist {s s' : State} {info : StartInfo} {pc pc' : RecordPc} (h : persistStart j full info s pc s' pc') :
      RunStep j full s (.persisting info pc) s' (.persisting info pc')
  | persisted {s : State} {info : StartInfo} :
      RunStep j full s (.persisting info .recorded) s (.supervising false)
  | unpersisted {s : State} {info : StartInfo} :
      RunStep j full s (.persisting info .rejected) s (.supervising true)
  | exited {s : State} (err : Option WaitError) (cause : Option Cause) (x : Remains) :
      RunStep j full s (.supervising false) { s with exit := some (x.exit err cause j.successCodes) }
        (.completing (x.exit err cause j.successCodes) .looking)
  | killed {s : State} (x : Remains) :
      RunStep j full s (.supervising true) { s with exit := some x.startError } (.completing x.startError .looking)
  | complete {s s' : State} {t : Terminal} {pc pc' : RecordPc} (h : complete j full t s pc s' pc') :
      RunStep j full s (.completing t pc) s' (.completing t pc')
  -- the refused terminal write returns before `finished`
  | rejected {s : State} {t : Terminal} : RunStep j full s (.completing t .rejected) s (.ended t)
  | completed {s : State} {t : Terminal} : RunStep j full s (.completing t .recorded) s (.announcing t)
  | announced {s : State} {t : Terminal} :
      RunStep j full s (.announcing t) { s with finished := s.finished ++ [announce j.r t] } (.retrying t)
  | unretried {s : State} {t : Terminal} (h : j.mayRetry t = false ∨ s.closing = true) :
      RunStep j full s (.retrying t) s (.ended t)
  | retried {s : State} {t : Terminal} (now : ℤ) (h : j.mayRetry t = true) (hc : s.closing = false) :
      RunStep j full s (.retrying t) { s with heap := s.heap ++ [j.retryItem now] } (.ended t)
  -- the heap is at `MaxPendingRetries`
  | dropped {s : State} {t : Terminal} (now : ℤ) (h : j.mayRetry t = true) (hc : s.closing = false) :
      RunStep j full s (.retrying t) { s with evidence := s.evidence ++ [j.retryItem now] } (.ended t)

/-! ## The steps of the writer -/

inductive WriterStep (j : Job) (readable : Bool) : State → WriterPc → State → WriterPc → Prop
  | snapshot {s : State} {it : FinalItem} (now : ℤ) (h : s.item = some it) (hdue : it.nextTry ≤ now) :
      WriterStep j readable s .idle s (.holding it.view)
  -- the pass ends before the item's turn
  | leave {s : State} {v : FinalItemView} : WriterStep j readable s (.holding v) s .idle
  | turn {s : State} {v : FinalItemView} (h : s.closing = false) :
      WriterStep j readable s (.holding v) s (.creating v)
  | createNothing {s : State} {v : FinalItemView} (hv : v.create = false) :
      WriterStep j readable s (.creating v) s (.starting v)
  | create {s : State} {v : FinalItemView} {db' : DB} (hv : v.create = true)
      (h : Attempt (createRun j.r) s.db .ok db') :
      WriterStep j readable s (.creating v) { s with db := db' } (.created v)
  | createRefused {s : State} {v : FinalItemView} {e : StoreError} {db' : DB} (hv : v.create = true)
      (h : Attempt (createRun j.r) s.db (.refused e) db') :
      WriterStep j readable s (.creating v) { s with db := db' } (.looking v)
  | createFailed {s : State} {v : FinalItemView} {db' : DB} (hv : v.create = true)
      (h : Attempt (createRun j.r) s.db .unavailable db') :
      WriterStep j readable s (.creating v) { s with db := db' } (.delaying v)
  | found {s : State} {v : FinalItemView} (h : (s.db.run j.r.id).isSome) (hr : readable = true) :
      WriterStep j readable s (.looking v) s (.created v)
  | conflict {s : State} {v : FinalItemView} (h : (s.db.run j.r.id).isNone ∨ readable = false) :
      WriterStep j readable s (.looking v) s .dropping
  | created {s : State} {v : FinalItemView} :
      WriterStep j readable s (.created v) (s.modifyItem v.ref FinalItem.stored) (.starting v)
  | startNothing {s : State} {v : FinalItemView} (hv : v.start = none) :
      WriterStep j readable s (.starting v) s (.finishing v)
  -- a refused transition counts as written
  | start {s : State} {v : FinalItemView} {info : StartInfo} {result : WriteResult} {db' : DB}
      (hv : v.start = some info) (h : Attempt (startRun j.r.id info.process info.started) s.db result db')
      (hr : result ≠ .unavailable) : WriterStep j readable s (.starting v) { s with db := db' } (.started v)
  | startFailed {s : State} {v : FinalItemView} {info : StartInfo} {db' : DB} (hv : v.start = some info)
      (h : Attempt (startRun j.r.id info.process info.started) s.db .unavailable db') :
      WriterStep j readable s (.starting v) { s with db := db' } (.delaying v)
  | started {s : State} {v : FinalItemView} :
      WriterStep j readable s (.started v) (s.modifyItem v.ref FinalItem.running) (.finishing v)
  | finishNothing {s : State} {v : FinalItemView} (hv : v.done = none) :
      WriterStep j readable s (.finishing v) s (.retiring v)
  | finish {s : State} {v : FinalItemView} {t : Terminal} {db' : DB} (hv : v.done = some t)
      (h : Attempt (finishRun j.r.id t.toOutcome) s.db .ok db') :
      WriterStep j readable s (.finishing v) { s with db := db' } (.retiring v)
  | finishRefused {s : State} {v : FinalItemView} {t : Terminal} {e : StoreError} {db' : DB} (hv : v.done = some t)
      (h : Attempt (finishRun j.r.id t.toOutcome) s.db (.refused e) db') :
      WriterStep j readable s (.finishing v) { s with db := db' } .dropping
  | finishFailed {s : State} {v : FinalItemView} {t : Terminal} {db' : DB} (hv : v.done = some t)
      (h : Attempt (finishRun j.r.id t.toOutcome) s.db .unavailable db') :
      WriterStep j readable s (.finishing v) { s with db := db' } (.delaying v)
  | retire {s : State} {v : FinalItemView} (h : s.retires v = true) :
      WriterStep j readable s (.retiring v) { s with item := none } .recovering
  | keep {s : State} {v : FinalItemView} (h : s.retires v = false) :
      WriterStep j readable s (.retiring v) s .recovering
  | recovered {s : State} : WriterStep j readable s .recovering { s with down := false } .idle
  | drop {s : State} : WriterStep j readable s .dropping s.dropFinalizer .idle
  | delay {s : State} {v : FinalItemView} (now : ℤ) :
      WriterStep j readable s (.delaying v) { s.modifyItem v.ref (·.delay now) with down := true } .idle
  | abandon {s : State} (h : s.closing = true) : WriterStep j readable s .idle s.dropFinalizer .stopped

inductive Event
  | run (full : Bool)
  | writer (readable : Bool)
  | store (db : DB)
  | health (down : Bool)
  | shutdown

inductive Step (j : Job) : State → Event → State → Prop
  | run {s s' : State} {full : Bool} {pc : RunPc} (h : RunStep j full s s.run s' pc) :
      Step j s (.run full) { s' with run := pc }
  | writer {s s' : State} {readable : Bool} {pc : WriterPc} (h : WriterStep j readable s s.writer s' pc) :
      Step j s (.writer readable) { s' with writer := pc }
  | store (s : State) (db : DB) : Step j s (.store db) { s with db := db }
  | health (s : State) (down : Bool) : Step j s (.health down) { s with down := down }
  | shutdown (s : State) : Step j s .shutdown { s with closing := true }

def admission (db : DB) (down : Bool) : State :=
  ⟨db, down, false, none, 0, .idle, .admitting, false, none, none, [], [], []⟩

def admitStored (db : DB) (down : Bool) : State := { admission db down with run := .launching true }

end Minicrond.Executor.History
