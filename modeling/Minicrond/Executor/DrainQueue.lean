import Minicrond.Executor.Capacity
import Minicrond.Executor.Rotation

/-! The durable execution queue at work: triggers that start or enqueue runs, the drain loop, operator stops and
runs that end, as processes over the database, the depth counter, the wake channel and the capacity channel. -/

namespace Minicrond.Executor.Queue

open Minicrond.Library Minicrond.Store Minicrond.Time

def millisecond : ℤ := 1000000

def queueExpireBatch : ℕ := 100

def queueBackoffMin : ℤ := second

def queueBackoffMax : ℤ := 30 * second

/-- The options of the executor. The settings that it reads from the text of a definition are functions. -/
structure QueueOptions extends Options where
  limits : QueueLimits
  drainRate : ℕ
  bootID : String
  specHash : Definition → String
  skipsOverlap : Definition → Bool
  skipsUnrecorded : Definition → Bool
  retries : Definition → ℕ

/-! ## The state -/

structure Sleep where
  length : ℤ
  read : ℤ

inductive StepResult
  | again
  | sleep (timer : Option Sleep) (full : Bool)
  | failed

inductive StartPc
  | reading
  | looking (run : RunRow)
  | overlapping (current : Definition) (hash : String)
  | dropping (reason : String)
  | confirming (current : Definition) (hash : String)
  | dequeuing (current : Definition) (hash : String)
  | launching (current : Definition)
  | refused
  | waking
  | counting (started : Bool)

inductive StepPc
  | entering
  | expiring
  | uncounting (n : ℕ)
  | rechecking
  | pacing
  | reserving
  | measuring (base : Option Sleep) (full : Bool)
  | timing (base : Option Sleep) (full : Bool) (expiryUs : ℤ)
  | acquiring
  | checking
  | choosing
  | resyncing
  | storing (n : ℕ)
  | start (item : QueueItem) (pc : StartPc)
  | unlocking (result : StepResult) (consumedSlot : Bool)
  | settling (result : StepResult) (consumedSlot : Bool)

inductive Wait
  | timer (timer : Option Sleep) (full : Bool)
  | backoff (length : ℤ)

inductive LoopPc
  | stopped
  | top
  | step (pc : StepPc)
  | returned (result : StepResult)
  -- since the clock reading `armed`
  | asleep (wait : Wait) (armed : ℤ)

/-- The shared state. `services`, `starts` and `enqueued` record the definitions served, the latest first, and the
items started and the rows enqueued, the latest last. -/
structure Shared where
  db : DB
  depth : ℤ
  wake : Bool
  tokens : ℕ
  admission : Bool
  closing : Bool
  active : List (String × String)
  loop : LoopPc
  backoff : ℤ
  nextStart : Option ℤ
  served : Served
  tick : ℕ
  services : List ℕ
  starts : List QueueItem
  enqueued : List QueueRow

namespace Shared

variable (s : Shared)

def isActive (id : String) : Bool := s.active.any (·.1 = id)

def activeJob (name : String) : Bool := s.active.any (·.2 = name)

def lock : Shared := { s with admission := true }

def unlock : Shared := { s with admission := false }

def take : Shared := { s with tokens := s.tokens + 1 }

def give : Shared := { s with tokens := s.tokens - 1 }

def count (n : ℤ) : Shared := { s with depth := s.depth + n }

def signal : Shared := { s with wake := true }

def signalSlot : Shared := { s with wake := s.wake || decide (0 < s.depth) }

def register (id name : String) : Shared := { s with active := s.active ++ [(id, name)] }

def unregister (id : String) : Shared := { s with active := s.active.filter (·.1 ≠ id) }

def startLoop : Shared :=
  match s.loop with
  | .stopped => { s with loop := .top, served := [], backoff := queueBackoffMin }
  | _ => s

end Shared

inductive TriggerPc
  | waiting
  | checking
  | deciding
  | placing
  | reserving
  | enqueuing
  | counting
  | starting
  | signalling
  | skipping (reason : String)
  | storing
  | launching (run : Run)
  | releasing
  | waking
  | leaving

structure TriggerCall where
  d : Definition
  hash : String
  trigger : Trigger
  scheduled : Option ℤ
  idem : Option Idempotency
  attempt : ℕ
  parent : String
  pc : TriggerPc

inductive StopPc
  | entering
  | waiting
  | checking
  | cancelling
  | counting
  | leaving

structure StopCall where
  id : String
  pc : StopPc

inductive RunPc
  | executing
  | releasing
  | waking

structure JobRun where
  id : String
  kind : Kind
  pc : RunPc

inductive Call
  | trigger (c : TriggerCall)
  | stop (c : StopCall)
  | run (r : JobRun)

namespace TriggerCall

variable (c : TriggerCall)

def goto (pc : TriggerPc) : List Call := [.trigger { c with pc := pc }]

def isJob : Bool := c.d.kind = .job

def key : Option Idempotency := c.idem.filter (·.key ≠ "")

def newRun (o : QueueOptions) (id : String) (status : Status) (now : ℤ) : Run :=
  ⟨id, c.d.id, c.d.name, c.d.kind, c.d.revision, c.hash, status, "", c.trigger, c.attempt, c.parent, c.scheduled,
    0, o.bootID, now, none, "file:" ++ id⟩

def skippedRun (o : QueueOptions) (id reason : String) (now : ℤ) : Run :=
  { c.newRun o id .skipped now with endReason := reason, endedAt := some now, logRef := "" }

def enqueueFailed : StoreError → TriggerPc
  | .queueDuplicate => .skipping "overlap_skip"
  | .queueFull _ => if c.trigger = .schedule then .skipping "queue_full" else .leaving
  | _ => .leaving

end TriggerCall

/-! ## Triggers, stops and runs -/

inductive TriggerStep (o : QueueOptions) : Shared → TriggerCall → Shared → List Call → Prop
  -- `acquireAdmission`; the caller's context may end at any time
  | admitted {s c} (h : c.pc = .waiting) (ha : s.admission = false) : TriggerStep o s c s.lock (c.goto .checking)
  | gaveUp {s c} (h : c.pc = .waiting) : TriggerStep o s c s []
  | closed {s c} (h : c.pc = .checking) (hc : s.closing = true) : TriggerStep o s c s (c.goto .leaving)
  | proceed {s c} (h : c.pc = .checking) (hc : s.closing = false) : TriggerStep o s c s (c.goto .deciding)
  | declined {s c} (h : c.pc = .deciding) : TriggerStep o s c s (c.goto .leaving)
  | overlap {s c} (h : c.pc = .deciding) (hd : c.d.isEnabled = true) (hk : c.isJob = true)
      (ho : o.skipsOverlap c.d = true ∧ s.activeJob c.d.name = true) :
      TriggerStep o s c s (c.goto (.skipping "overlap_skip"))
  | job {s c} (h : c.pc = .deciding) (hd : c.d.isEnabled = true) (hk : c.isJob = true)
      (ho : ¬ (o.skipsOverlap c.d = true ∧ s.activeJob c.d.name = true)) : TriggerStep o s c s (c.goto .placing)
  | worker {s c} (h : c.pc = .deciding) (hd : c.d.isEnabled = true) (hk : c.isJob = false) :
      TriggerStep o s c s (c.goto .storing)
  -- a queueable trigger joins a queue that is not empty
  | behind {s c} (h : c.pc = .placing) (hq : queueable o.toOptions c.trigger = true) (hd : 0 < s.depth) :
      TriggerStep o s c s (c.goto .enqueuing)
  | direct {s c} (h : c.pc = .placing) (hq : ¬ (queueable o.toOptions c.trigger = true ∧ 0 < s.depth)) :
      TriggerStep o s c s (c.goto .reserving)
  | reserved {s c} (h : c.pc = .reserving) (ht : s.tokens < o.slots) : TriggerStep o s c s.take (c.goto .storing)
  | full {s c} (h : c.pc = .reserving) (ht : o.slots ≤ s.tokens) (hq : queueable o.toOptions c.trigger = true) :
      TriggerStep o s c s (c.goto .enqueuing)
  | fullRetry {s c} (h : c.pc = .reserving) (ht : o.slots ≤ s.tokens)
      (hq : queueable o.toOptions c.trigger = false ∧ c.trigger = .retry) : TriggerStep o s c s (c.goto .leaving)
  | fullSkip {s c} (h : c.pc = .reserving) (ht : o.slots ≤ s.tokens)
      (hq : queueable o.toOptions c.trigger = false ∧ c.trigger ≠ .retry) :
      TriggerStep o s c s (c.goto (.skipping "queue_full"))
  -- `enqueue`
  | enqueued {s c} (id : String) (queued now later : ℤ) {db' : DB} (h : c.pc = .enqueuing)
      (hdb : enqueueRun now later (c.newRun o id .queued queued) c.idem o.limits (o.skipsOverlap c.d) s.db =
        .ok (none, db')) :
      TriggerStep o s c { s with db := db', enqueued := s.enqueued ++ db'.queue.drop s.db.queue.length }
        (c.goto .counting)
  | replayed {s c} (id replay : String) (queued now later : ℤ) {db' : DB} (h : c.pc = .enqueuing)
      (hdb : enqueueRun now later (c.newRun o id .queued queued) c.idem o.limits (o.skipsOverlap c.d) s.db =
        .ok (some replay, db')) :
      TriggerStep o s c { s with db := db' } (c.goto .leaving)
  | refused {s c} (id : String) (queued now later : ℤ) {e : StoreError} (h : c.pc = .enqueuing)
      (hdb : enqueueRun now later (c.newRun o id .queued queued) c.idem o.limits (o.skipsOverlap c.d) s.db =
        .error e) :
      TriggerStep o s c s (c.goto (c.enqueueFailed e))
  | unavailable {s c} (h : c.pc = .enqueuing) : TriggerStep o s c s (c.goto .leaving)
  | counted {s c} (h : c.pc = .counting) : TriggerStep o s c (s.count 1) (c.goto .starting)
  | stopping {s c} (h : c.pc = .starting) (hc : s.closing = true) : TriggerStep o s c s (c.goto .leaving)
  | startedLoop {s c} (h : c.pc = .starting) (hc : s.closing = false) :
      TriggerStep o s c s.startLoop (c.goto .signalling)
  | signalled {s c} (h : c.pc = .signalling) : TriggerStep o s c s.signal (c.goto .leaving)
  -- `recordSkipped`
  | skippedKeyed {s c} (id : String) (now read later : ℤ) {reason : String} {key : Idempotency} {db' : DB}
      (h : c.pc = .skipping reason) (hk : c.key = some key)
      (hdb : (admitIdempotentRun read later (c.skippedRun o id reason now) key).Commits s.db db') :
      TriggerStep o s c { s with db := db' } (c.goto .leaving)
  | skipped {s c} (id : String) (now : ℤ) {reason : String} {db' : DB} (h : c.pc = .skipping reason)
      (hk : c.key = none) (hdb : (createRun (c.skippedRun o id reason now)).Commits s.db db') :
      TriggerStep o s c { s with db := db' } (c.goto .leaving)
  | unskipped {s c} {reason : String} (h : c.pc = .skipping reason) : TriggerStep o s c s (c.goto .leaving)
  -- the row of a run that starts at once
  | admittedRun {s c} (id : String) (now read later : ℤ) {key : Idempotency} {db' : DB} (h : c.pc = .storing)
      (hk : c.key = some key)
      (hdb : admitIdempotentRun read later (c.newRun o id .pending now) key s.db = .ok (none, db')) :
      TriggerStep o s c { s with db := db' } (c.goto (.launching (c.newRun o id .pending now)))
  | replayedRun {s c} (id existing : String) (now read later : ℤ) {key : Idempotency} {db' : DB}
      (h : c.pc = .storing) (hk : c.key = some key)
      (hdb : admitIdempotentRun read later (c.newRun o id .pending now) key s.db = .ok (some existing, db')) :
      TriggerStep o s c { s with db := db' } (c.goto .releasing)
  | storedRun {s c} (id : String) (now : ℤ) {db' : DB} (h : c.pc = .storing) (hk : c.key = none)
      (hdb : (createRun (c.newRun o id .pending now)).Commits s.db db') :
      TriggerStep o s c { s with db := db' } (c.goto (.launching (c.newRun o id .pending now)))
  | unstored {s c} (h : c.pc = .storing) : TriggerStep o s c s (c.goto .releasing)
  -- the database cannot take the row and the job runs without it
  | deferred {s c} (id : String) (now : ℤ) (h : c.pc = .storing) (hk : c.key = none)
      (hs : ¬ (c.isJob = true ∧ o.skipsUnrecorded c.d = true)) :
      TriggerStep o s c s (c.goto (.launching (c.newRun o id .pending now)))
  | launched {s c run} (h : c.pc = .launching run) (hc : s.closing = false) :
      TriggerStep o s c (s.register run.id run.job) (c.goto .leaving ++ [.run ⟨run.id, run.kind, .executing⟩])
  | notLaunched {s c run} (h : c.pc = .launching run) (hc : s.closing = true) :
      TriggerStep o s c s (c.goto .releasing)
  | released {s c} (h : c.pc = .releasing) (hk : c.isJob = true) (ht : 0 < s.tokens) :
      TriggerStep o s c s.give (c.goto .waking)
  | unowned {s c} (h : c.pc = .releasing) (hk : c.isJob = false) : TriggerStep o s c s (c.goto .leaving)
  | woke {s c} (h : c.pc = .waking) : TriggerStep o s c s.signalSlot (c.goto .leaving)
  | left {s c} (h : c.pc = .leaving) : TriggerStep o s c s.unlock []

def StopCall.goto (c : StopCall) (pc : StopPc) : List Call := [.stop { c with pc := pc }]

inductive StopStep : Shared → StopCall → Shared → List Call → Prop
  | found {s c} (h : c.pc = .entering) (ha : s.isActive c.id = true) : StopStep s c s []
  | missing {s c} (h : c.pc = .entering) (ha : s.isActive c.id = false) : StopStep s c s (c.goto .waiting)
  | admitted {s c} (h : c.pc = .waiting) (ha : s.admission = false) : StopStep s c s.lock (c.goto .checking)
  | gaveUp {s c} (h : c.pc = .waiting) : StopStep s c s []
  | stopped {s c} (h : c.pc = .checking) (ha : s.isActive c.id = true) : StopStep s c s (c.goto .leaving)
  | waiting {s c} (h : c.pc = .checking) (ha : s.isActive c.id = false) : StopStep s c s (c.goto .cancelling)
  | cancelled {s c} (now : ℤ) {db' : DB} (h : c.pc = .cancelling)
      (hdb : cancelQueued c.id now s.db = .ok (true, db')) : StopStep s c { s with db := db' } (c.goto .counting)
  | notQueued {s c} (now : ℤ) {db' : DB} (h : c.pc = .cancelling)
      (hdb : cancelQueued c.id now s.db = .ok (false, db')) : StopStep s c { s with db := db' } (c.goto .leaving)
  | failed {s c} (h : c.pc = .cancelling) : StopStep s c s (c.goto .leaving)
  | counted {s c} (h : c.pc = .counting) : StopStep s c (s.count (-1)) (c.goto .leaving)
  | left {s c} (h : c.pc = .leaving) : StopStep s c s.unlock []

inductive RunStep : Shared → JobRun → Shared → List Call → Prop
  | ended {s r} (h : r.pc = .executing) (hk : r.kind = .job) :
      RunStep s r (s.unregister r.id) [.run { r with pc := .releasing }]
  | endedWorker {s r} (h : r.pc = .executing) (hk : r.kind ≠ .job) : RunStep s r (s.unregister r.id) []
  | released {s r} (h : r.pc = .releasing) (ht : 0 < s.tokens) : RunStep s r s.give [.run { r with pc := .waking }]
  | woke {s r} (h : r.pc = .waking) : RunStep s r s.signalSlot []

def Local (o : QueueOptions) (s : Shared) : Call → Shared → List Call → Prop
  | .trigger c => TriggerStep o s c
  | .stop c => StopStep s c
  | .run r => RunStep s r

/-! ## The drain loop -/

def revalidate (o : QueueOptions) (item : QueueItem) (run : RunRow) (now : ℤ)
    (found : Option (Definition × String)) :
    StartPc :=
  if item.expiresUs ≤ unixMicro now then .dropping "queue_expired"
  else
    match found with
    | none => .dropping "definition_removed"
    | some (current, hash) =>
      if current.id ≠ item.definitionID ∨ current.kind ≠ .job then .dropping "definition_removed"
      else if !current.isEnabled then .dropping "definition_disabled"
      else if run.trigger = .retry ∧ o.retries current < run.attempt - 1 then .dropping "retry_budget"
      else .overlapping current hash

lemma revalidate_cases {o : QueueOptions} {item : QueueItem} {run : RunRow} {now : ℤ}
    {found : Option (Definition × String)} :
    (∃ reason, revalidate o item run now found = .dropping reason) ∨
      ∃ d hash, revalidate o item run now found = .overlapping d hash ∧ d.kind = .job ∧ d.isEnabled = true := by
  simp only [revalidate]
  split_ifs
  · exact .inl ⟨_, rfl⟩
  · rcases found with _ | ⟨d, hash⟩
    · exact .inl ⟨_, rfl⟩
    · dsimp only
      split_ifs <;> simp_all

inductive StartStep (o : QueueOptions) (item : QueueItem) : Shared → StartPc → Shared → StepPc → List Call → Prop
  | unreadable {s} : StartStep o item s .reading s (.unlocking .failed false) []
  | inconsistent {s run} (hr : s.db.run item.runID = some run) (hs : run.status ≠ .queued) :
      StartStep o item s .reading s (.start item (.dropping "queue_inconsistent")) []
  | read {s run} (hr : s.db.run item.runID = some run) (hs : run.status = .queued) :
      StartStep o item s .reading s (.start item (.looking run)) []
  | looked {s run} (now : ℤ) :
      StartStep o item s (.looking run) s (.start item (revalidate o item run now (s.db.definition run.job))) []
  -- the definition could not be read
  | unknown {s run} (now : ℤ) (he : unixMicro now < item.expiresUs) :
      StartStep o item s (.looking run) s (.unlocking .failed false) []
  | expired {s run} (now : ℤ) (he : item.expiresUs ≤ unixMicro now) :
      StartStep o item s (.looking run) s (.start item (.dropping "queue_expired")) []
  | overlap {s current hash} (ho : o.skipsOverlap current = true ∧ s.activeJob current.name = true) :
      StartStep o item s (.overlapping current hash) s (.start item (.dropping "overlap_skip")) []
  | clear {s current hash} (ho : ¬ (o.skipsOverlap current = true ∧ s.activeJob current.name = true)) :
      StartStep o item s (.overlapping current hash) s (.start item (.confirming current hash)) []
  -- ended here or elsewhere
  | dropped {s reason} (now : ℤ) {ended : Bool} {db' : DB}
      (hdb : dropQueued item.runID reason now s.db = .ok (ended, db')) :
      StartStep o item s (.dropping reason) { s with db := db' } (.start item (.counting false)) []
  | undropped {s reason} : StartStep o item s (.dropping reason) s (.unlocking .failed false) []
  | stopping {s current hash} (hc : s.closing = true) :
      StartStep o item s (.confirming current hash) s (.unlocking .failed false) []
  | confirmed {s current hash} (hc : s.closing = false) :
      StartStep o item s (.confirming current hash) s (.start item (.dequeuing current hash)) []
  | dequeued {s current hash} {db' : DB}
      (hdb : (dequeueRun item.runID current.revision hash o.bootID).Commits s.db db') :
      StartStep o item s (.dequeuing current hash) { s with db := db' } (.start item (.launching current)) []
  | endedElsewhere {s current hash detail}
      (hdb : dequeueRun item.runID current.revision hash o.bootID s.db = .error (.invalidTransition detail)) :
      StartStep o item s (.dequeuing current hash) s (.start item (.counting false)) []
  | notDequeued {s current hash} : StartStep o item s (.dequeuing current hash) s (.unlocking .failed false) []
  | launched {s current} (hc : s.closing = false) :
      StartStep o item s (.launching current)
        { s.register item.runID current.name with starts := s.starts ++ [item] }
        (.start item (.counting true)) [.run ⟨item.runID, current.kind, .executing⟩]
  | notLaunched {s current} (hc : s.closing = true) :
      StartStep o item s (.launching current) s (.start item .refused) []
  | released {s} (ht : 0 < s.tokens) : StartStep o item s .refused s.give (.start item .waking) []
  | woke {s} : StartStep o item s .waking s.signalSlot (.start item (.counting true)) []
  | counted {s started} (now : ℤ) :
      StartStep o item s (.counting started)
        { s.count (-1) with
          served := if servedLimit < s.served.length then [] else s.served
          nextStart := if started then some (now + second / o.drainRate) else s.nextStart }
        (.unlocking .again started) []

def untilExpiry (base : Option Sleep) (expiryUs now : ℤ) : Sleep :=
  let until' := max (ofUnixMicro expiryUs - now) millisecond
  match base with
  | none => ⟨until', now⟩
  | some b => if until' < b.length then ⟨until', now⟩ else ⟨b.length, now⟩

inductive DrainStep (o : QueueOptions) : Shared → StepPc → Shared → LoopPc → List Call → Prop
  | idle {s} (hd : s.depth ≤ 0) : DrainStep o s .entering s (.returned (.sleep none false)) []
  | entered {s} (hd : 0 < s.depth) : DrainStep o s .entering s (.step .expiring) []
  | expired {s} (now : ℤ) {ids : List String} {db' : DB}
      (hdb : expireQueued now queueExpireBatch s.db = .ok (ids, db'))
      (hi : ids ≠ []) : DrainStep o s .expiring { s with db := db' } (.step (.uncounting ids.length)) []
  | noneExpired {s} (now : ℤ) {db' : DB} (hdb : expireQueued now queueExpireBatch s.db = .ok ([], db')) :
      DrainStep o s .expiring { s with db := db' } (.step .rechecking) []
  | notExpired {s} : DrainStep o s .expiring s (.returned .failed) []
  | uncountedAll {s} :
      DrainStep o s (.uncounting queueExpireBatch) (s.count (-queueExpireBatch)) (.returned .again) []
  | uncounted {s n} (hn : n ≠ queueExpireBatch) :
      DrainStep o s (.uncounting n) (s.count (-n)) (.step .rechecking) []
  | drained {s} (hd : s.depth ≤ 0) : DrainStep o s .rechecking s (.returned (.sleep none false)) []
  | rechecked {s} (hd : 0 < s.depth) : DrainStep o s .rechecking s (.step .pacing) []
  | early {s} {next : ℤ} (now : ℤ) (hn : s.nextStart = some next) (hw : 0 < next - now) :
      DrainStep o s .pacing s (.step (.measuring (some ⟨next - now, now⟩) false)) []
  | paced {s} (now : ℤ) (hw : ∀ next, s.nextStart = some next → next - now ≤ 0) :
      DrainStep o s .pacing s (.step .reserving) []
  | full {s} (ht : o.slots ≤ s.tokens) : DrainStep o s .reserving s (.step (.measuring none true)) []
  | reserved {s} (ht : s.tokens < o.slots) : DrainStep o s .reserving s.take (.step .acquiring) []
  | empty {s base full} (he : nextQueueExpiry s.db.queue = none) :
      DrainStep o s (.measuring base full) s (.returned (.sleep base full)) []
  | measured {s base full expiryUs} (he : nextQueueExpiry s.db.queue = some expiryUs) :
      DrainStep o s (.measuring base full) s (.step (.timing base full expiryUs)) []
  | unmeasured {s base full} : DrainStep o s (.measuring base full) s (.returned .failed) []
  | timed {s base full expiryUs} (now : ℤ) :
      DrainStep o s (.timing base full expiryUs) s
        (.returned (.sleep (some (untilExpiry base expiryUs now)) full)) []
  | admitted {s} (ha : s.admission = false) : DrainStep o s .acquiring s.lock (.step .checking) []
  | gaveUp {s} (hc : s.closing = true) :
      DrainStep o s .acquiring s (.step (.settling (.sleep none false) false)) []
  | closed {s} (hc : s.closing = true) :
      DrainStep o s .checking s (.step (.unlocking (.sleep none false) false)) []
  | proceed {s} (hc : s.closing = false) : DrainStep o s .checking s (.step .choosing) []
  | chosen {s item} (hi : nextItem s.served (queueHeads queueHeadWindow s.db.queue) = some item) :
      DrainStep o s .choosing
        { s with
          tick := s.tick + 1
          served := s.served.mark item.definitionID (s.tick + 1)
          services := item.definitionID :: s.services }
        (.step (.start item .reading)) []
  | noItem {s} (hi : nextItem s.served (queueHeads queueHeadWindow s.db.queue) = none) :
      DrainStep o s .choosing s (.step .resyncing) []
  | unread {s} : DrainStep o s .choosing s (.step (.unlocking .failed false)) []
  | recounted {s} : DrainStep o s .resyncing s (.step (.storing s.db.queueDepth)) []
  | unrecounted {s} : DrainStep o s .resyncing s (.step (.unlocking .failed false)) []
  | resynced {s n} : DrainStep o s (.storing n) { s with depth := n } (.step (.unlocking .again false)) []
  | start {s item pc s' pc' out} (h : StartStep o item s pc s' pc' out) :
      DrainStep o s (.start item pc) s' (.step pc') out
  -- the deferred calls
  | unlocked {s result consumedSlot} :
      DrainStep o s (.unlocking result consumedSlot) s.unlock (.step (.settling result consumedSlot)) []
  | consumed {s result} : DrainStep o s (.settling result true) s (.returned result) []
  | settled {s result} (ht : 0 < s.tokens) : DrainStep o s (.settling result false) s.give (.returned result) []

inductive LoopStep (o : QueueOptions) : Shared → LoopPc → Shared → LoopPc → List Call → Prop
  | closing {s} (hc : s.closing = true) : LoopStep o s .top s .stopped []
  | again {s} (hc : s.closing = false) : LoopStep o s .top s (.step .entering) []
  | step {s pc s' pc' out} (h : DrainStep o s pc s' pc' out) : LoopStep o s (.step pc) s' pc' out
  | repeat {s} : LoopStep o s (.returned .again) { s with backoff := queueBackoffMin } .top []
  | sleep {s timer full} (now : ℤ) :
      LoopStep o s (.returned (.sleep timer full)) { s with backoff := queueBackoffMin }
        (.asleep (.timer timer full) now)
        []
  | failedClosing {s} (hc : s.closing = true) : LoopStep o s (.returned .failed) s .stopped []
  | failed {s} (now : ℤ) (hc : s.closing = false) :
      LoopStep o s (.returned .failed) { s with backoff := min (s.backoff * 2) queueBackoffMax }
        (.asleep (.backoff s.backoff) now) []
  | stopping {s wait armed} (hc : s.closing = true) : LoopStep o s (.asleep wait armed) s .stopped []
  | woken {s wait armed} (hw : s.wake = true) : LoopStep o s (.asleep wait armed) { s with wake := false } .top []
  | timeUp {s sleep full armed} : LoopStep o s (.asleep (.timer (some sleep) full) armed) s .top []
  | retry {s length armed} : LoopStep o s (.asleep (.backoff length) armed) s .top []

/-! ## The machine -/

def foreign : Op → Bool
  | .enqueue .. | .expire .. | .drop .. | .cancel .. | .dequeue .. | .recover .. => false
  | _ => true

inductive Event
  | call
  | loop
  | store (op : Op)
  | trigger (c : TriggerCall)
  | stop (id : String)
  | shutdown

abbrev State := Config Shared Call

inductive Step (o : QueueOptions) : State → Event → State → Prop
  | call {c c'} (h : Interleave (Local o) c c') : Step o c .call c'
  | loop {c : State} {s' : Shared} {pc : LoopPc} {out : List Call}
      (h : LoopStep o c.shared c.shared.loop s' pc out) : Step o c .loop ⟨{ s' with loop := pc }, c.procs ++ out⟩
  | store {c : State} {op : Op} {db' : DB} (hf : foreign op = true) (hi : op.Issued)
      (hdb : op.Commits o.specHash c.shared.db db') : Step o c (.store op) ⟨{ c.shared with db := db' }, c.procs⟩
  | trigger (c : State) (call : TriggerCall) (h : call.pc = .waiting) :
      Step o c (.trigger call) (c.spawn (.trigger call))
  | stop (c : State) (id : String) : Step o c (.stop id) (c.spawn (.stop ⟨id, .entering⟩))
  | shutdown (c : State) : Step o c .shutdown ⟨{ c.shared with closing := true }, c.procs⟩

def resumeQueue (db : DB) : State where
  shared :=
    { db := db
      depth := db.queueDepth
      wake := 0 < db.queueDepth
      tokens := 0
      admission := false
      closing := false
      active := []
      loop := if 0 < db.queueDepth then .top else .stopped
      backoff := queueBackoffMin
      nextStart := none
      served := []
      tick := 0
      services := []
      starts := []
      enqueued := db.queue }
  procs := []

def oneSlot : QueueOptions where
  maxConcurrentRuns := 1
  queueDisabled := false
  limits := backupLimits
  drainRate := 5
  bootID := "boot"
  specHash _ := "hash"
  skipsOverlap _ := false
  skipsUnrecorded _ := false
  retries _ := 0

end Minicrond.Executor.Queue
