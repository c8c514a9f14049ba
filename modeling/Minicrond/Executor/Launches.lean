import Minicrond.Executor.DrainQueue
import Minicrond.Executor.History
import Minicrond.Store.Occurrence

/-! Which runs are launched: triggers, missed occurrences, the drain loop and the history writer at work on one
database, over storage failures, crashes and restarts of the daemon. The calls, the runs they write and the checks
of a queued run are those of the queue machine; slots, admission and the counter decide nothing here. -/

namespace Minicrond.Executor.Launches

open Minicrond.Library Minicrond.Store Minicrond.Time
open Queue (QueueOptions revalidate)
open History (Attempt WriteResult)

/-- The database and the memory of the daemon; `spool` holds the rows that the history writer may still insert. The
last four fields are a record over all boots: the runs that were given an id, the ids whose row the store
acknowledged, the runs that were launched and the rows that are gone. -/
structure Daemon where
  db : DB
  options : QueueOptions
  down : Bool
  closing : Bool
  spool : List Run
  issued : List Run
  acknowledged : List String
  launched : List RunRow
  deleted : List RunRow

namespace Daemon

variable (s : Daemon)

def Fresh (id : String) : Prop := ∀ r ∈ s.issued, r.id ≠ id

def issue (r : Run) : Daemon := { s with issued := s.issued ++ [r] }

def gone (db' : DB) : List RunRow := s.db.runs.filter fun x => !db'.runs.any (·.runID = x.runID)

def write (db' : DB) : Daemon := { s with db := db', deleted := s.deleted ++ s.gone db' }

def acknowledge (id : String) : Daemon := { s with acknowledged := s.acknowledged ++ [id] }

def defer (r : Run) (kept : Bool) : Daemon := { s with spool := if kept then s.spool ++ [r] else s.spool }

def setDown (down : Bool) : Daemon := { s with down := down }

def launch (x : RunRow) : Daemon := { s with launched := s.launched ++ [x] }

end Daemon

inductive TriggerPc
  | deciding
  | enqueuing (r : Run)
  | skipping (reason : String)
  | recording (r : Run)
  | inserting (r : Run)
  | deferring (r : Run)
  | launching (r : Run)

inductive DrainPc
  | reading
  | looking (run : RunRow)
  | dequeuing (run : RunRow) (current : Definition) (hash : String)
  | launching (run : RunRow)

inductive Call
  | trigger (c : Queue.TriggerCall) (pc : TriggerPc)
  | missed (r : Run)
  | drain (item : QueueItem) (pc : DrainPc)

inductive RecordStep (r : Run) : Daemon → Daemon → Prop
  | attempted {s result db'} (h : Attempt (createRun r) s.db result db') : RecordStep r s (s.write db')
  | deferred {s db'} (kept : Bool) (h : Attempt (createRun r) s.db .unavailable db') :
      RecordStep r s (((s.write db').setDown true).defer r kept)
  | bypassed {s} (kept : Bool) (hd : s.down = true) : RecordStep r s (s.defer r kept)

inductive TriggerStep (c : Queue.TriggerCall) : Daemon → TriggerPc → Daemon → Option TriggerPc → Prop
  -- shutdown, a context that ended, a disabled definition, a retry without a slot
  | declined {s} : TriggerStep c s .deciding s none
  | overlap {s} (hk : c.isJob = true) (ho : s.options.skipsOverlap c.d = true) :
      TriggerStep c s .deciding s (some (.skipping "overlap_skip"))
  | full {s} (hk : c.isJob = true) (hq : queueable s.options.toOptions c.trigger = false)
      (ht : c.trigger ≠ .retry) : TriggerStep c s .deciding s (some (.skipping "queue_full"))
  | queue {s} (id : String) (now : ℤ) (hid : s.Fresh id) (hk : c.isJob = true)
      (hq : queueable s.options.toOptions c.trigger = true) :
      TriggerStep c s .deciding (s.issue (c.newRun s.options id .queued now))
        (some (.enqueuing (c.newRun s.options id .queued now)))
  | direct {s} (id : String) (now : ℤ) (hid : s.Fresh id) :
      TriggerStep c s .deciding (s.issue (c.newRun s.options id .pending now))
        (some (.inserting (c.newRun s.options id .pending now)))
  -- `enqueue`; the item is durable, or the request repeats an earlier one
  | enqueued {s r reply db'} (now later : ℤ)
      (h : enqueueRun now later r c.idem s.options.limits (s.options.skipsOverlap c.d) s.db = .ok (reply, db')) :
      TriggerStep c s (.enqueuing r) (s.write db') none
  | enqueueSkipped {s r e reason} (now later : ℤ)
      (h : enqueueRun now later r c.idem s.options.limits (s.options.skipsOverlap c.d) s.db = .error e)
      (he : c.enqueueFailed e = .skipping reason) : TriggerStep c s (.enqueuing r) s (some (.skipping reason))
  | enqueueRefused {s r e} (now later : ℤ)
      (h : enqueueRun now later r c.idem s.options.limits (s.options.skipsOverlap c.d) s.db = .error e)
      (he : c.enqueueFailed e = .leaving) : TriggerStep c s (.enqueuing r) s none
  | enqueueUnavailable {s r} : TriggerStep c s (.enqueuing r) s none
  | enqueueAmbiguous {s r db'} (now later : ℤ)
      (h : (enqueueRun now later r c.idem s.options.limits (s.options.skipsOverlap c.d)).Commits s.db db') :
      TriggerStep c s (.enqueuing r) (s.write db') none
  -- `recordSkipped`
  | skip {s reason} (id : String) (now : ℤ) (hid : s.Fresh id) :
      TriggerStep c s (.skipping reason) (s.issue (c.skippedRun s.options id reason now))
        (some (.recording (c.skippedRun s.options id reason now)))
  | recordedKeyed {s r key db'} (now later : ℤ) (hk : c.key = some key)
      (h : (admitIdempotentRun now later r key).Commits s.db db') :
      TriggerStep c s (.recording r) (s.write db') none
  | notRecordedKeyed {s r key} (hk : c.key = some key) : TriggerStep c s (.recording r) s none
  | recorded {s r s'} (hk : c.key = none) (h : RecordStep r s s') : TriggerStep c s (.recording r) s' none
  -- a trigger with an idempotency key
  | admitted {s r key db'} (now later : ℤ) (hk : c.key = some key)
      (h : admitIdempotentRun now later r key s.db = .ok (none, db')) :
      TriggerStep c s (.inserting r) ((s.write db').acknowledge r.id) (some (.launching r))
  | replayed {s r key replay db'} (now later : ℤ) (hk : c.key = some key)
      (h : admitIdempotentRun now later r key s.db = .ok (some replay, db')) :
      TriggerStep c s (.inserting r) (s.write db') none
  | notAdmitted {s r key} (hk : c.key = some key) : TriggerStep c s (.inserting r) s none
  | admitAmbiguous {s r key db'} (now later : ℤ) (hk : c.key = some key)
      (h : (admitIdempotentRun now later r key).Commits s.db db') :
      TriggerStep c s (.inserting r) (s.write db') none
  -- `admitRow`; a refused row and a context that ended are errors of the trigger
  | bypassed {s r} (hk : c.key = none) (hd : s.down = true) :
      TriggerStep c s (.inserting r) s (some (.deferring r))
  | inserted {s r db'} (hk : c.key = none) (h : Attempt (createRun r) s.db .ok db') :
      TriggerStep c s (.inserting r) (((s.write db').setDown false).acknowledge r.id) (some (.launching r))
  | unavailable {s r db'} (hk : c.key = none) (h : Attempt (createRun r) s.db .unavailable db') :
      TriggerStep c s (.inserting r) ((s.write db').setDown true) (some (.deferring r))
  | rejected {s r result db'} (hk : c.key = none) (h : Attempt (createRun r) s.db result db') (hr : result ≠ .ok) :
      TriggerStep c s (.inserting r) (s.write db') none
  | skipUnrecorded {s r} (kept : Bool) (hs : c.isJob = true ∧ s.options.skipsUnrecorded c.d = true) :
      TriggerStep c s (.deferring r) (s.defer r kept) none
  | deferred {s r} (kept : Bool) (hs : ¬ (c.isJob = true ∧ s.options.skipsUnrecorded c.d = true)) :
      TriggerStep c s (.deferring r) (s.defer r kept) (some (.launching r))
  | launched {s r} (hc : s.closing = false) : TriggerStep c s (.launching r) (s.launch (runArgs r)) none
  | refused {s r} (hc : s.closing = true) : TriggerStep c s (.launching r) s none

inductive DrainStep (item : QueueItem) : Daemon → DrainPc → Daemon → Option DrainPc → Prop
  -- a failed read, a drop that fails, a shutdown
  | failed {s pc} : DrainStep item s pc s none
  | read {s run} (hr : s.db.run item.runID = some run) (hs : run.status = .queued) :
      DrainStep item s .reading s (some (.looking run))
  | inconsistent {s run db'} (now : ℤ) (hr : s.db.run item.runID = some run) (hs : run.status ≠ .queued)
      (h : (dropQueued item.runID "queue_inconsistent" now).Commits s.db db') :
      DrainStep item s .reading (s.write db') none
  | looked {s run current hash} (now : ℤ)
      (h : revalidate s.options item run now (s.db.definition run.job) = .overlapping current hash) :
      DrainStep item s (.looking run) s (some (.dequeuing run current hash))
  | dropped {s run reason db'} (now : ℤ) (h : (dropQueued item.runID reason now).Commits s.db db') :
      DrainStep item s (.looking run) (s.write db') none
  | dequeued {s run current hash db'}
      (h : Attempt (dequeueRun item.runID current.revision hash s.options.bootID) s.db .ok db') :
      DrainStep item s (.dequeuing run current hash) ((s.write db').acknowledge item.runID)
        (some (.launching { run with
          status := .pending, revision := current.revision, definitionHash := hash, bootID := s.options.bootID }))
  | notDequeued {s run current hash result db'}
      (h : Attempt (dequeueRun item.runID current.revision hash s.options.bootID) s.db result db')
        (hr : result ≠ .ok) : DrainStep item s (.dequeuing run current hash) (s.write db') none
  | launched {s run} (hc : s.closing = false) : DrainStep item s (.launching run) (s.launch run) none

inductive Local : Daemon → Call → Daemon → List Call → Prop
  | trigger {c s pc s' pc'} (h : TriggerStep c s pc s' pc') :
      Local s (.trigger c pc) s' (pc'.toList.map (.trigger c))
  | missed {r s s'} (h : RecordStep r s s') : Local s (.missed r) s' []
  | drain {item s pc s' pc'} (h : DrainStep item s pc s' pc') :
      Local s (.drain item pc) s' (pc'.toList.map (.drain item))

/-! ## The machine -/

def missedRun (o : QueueOptions) (d : Definition) (hash : String) (count : ℕ) (scheduled : ℤ) (id : String)
    (now : ℤ) : Run :=
  ⟨id, d.id, d.name, d.kind, d.revision, hash, .missed, "crash_recovery", .schedule, 1, "", some scheduled, count,
    o.bootID, now, some now, ""⟩

def background : Op → Bool
  | .create .. | .admitIdempotent .. | .enqueue .. | .dequeue .. | .recover .. => false
  | _ => true

inductive Event
  | call
  | trigger (c : Queue.TriggerCall)
  | missed (d : Definition) (hash : String) (count : ℕ) (scheduled : ℤ)
  | drain
  | writer
  | store (op : Op)
  | health (down : Bool)
  | shutdown
  | restart

abbrev State := Config Daemon Call

inductive Step : State → Event → State → Prop
  | call {c c'} (h : Interleave Local c c') : Step c .call c'
  | trigger {c} (t : Queue.TriggerCall) : Step c (.trigger t) (c.spawn (.trigger t .deciding))
  | missed {s procs} (d : Definition) (hash : String) (count : ℕ) (scheduled : ℤ) (id : String) (now : ℤ)
      (hid : s.Fresh id) :
      Step ⟨s, procs⟩ (.missed d hash count scheduled)
        ⟨s.issue (missedRun s.options d hash count scheduled id now),
          procs ++ [.missed (missedRun s.options d hash count scheduled id now)]⟩
  | drain {c q} (hq : q ∈ c.shared.db.queue) : Step c .drain (c.spawn (.drain q.item .reading))
  -- the background history writer inserts a row, or is done with some
  | written {s procs r result db'} (hr : r ∈ s.spool) (h : Attempt (createRun r) s.db result db') :
      Step ⟨s, procs⟩ .writer ⟨s.write db', procs⟩
  | retired {s procs spool'} (h : spool'.Sublist s.spool) :
      Step ⟨s, procs⟩ .writer ⟨{ s with spool := spool' }, procs⟩
  | store {s procs db'} (op : Op) (hop : background op = true) (h : Store.Step s.options.specHash s.db op db') :
      Step ⟨s, procs⟩ (.store op) ⟨s.write db', procs⟩
  | health {s procs} (down : Bool) : Step ⟨s, procs⟩ (.health down) ⟨s.setDown down, procs⟩
  | shutdown {s procs} : Step ⟨s, procs⟩ .shutdown ⟨{ s with closing := true }, procs⟩
  -- a crash or an orderly stop, and the next start
  | restart {s procs db'} (options : QueueOptions) (nowUs : ℤ)
      (h : Store.Step options.specHash s.db (.recover nowUs) db') :
      Step ⟨s, procs⟩ .restart
        ⟨{ s.write db' with options := options, down := false, closing := false, spool := [] }, []⟩

def boot (options : QueueOptions) : State := ⟨⟨DB.empty, options, false, false, [], [], [], [], []⟩, []⟩

/-! ## What every write keeps -/

def Known (issued : List Run) (id : String) (occurrence : Option Occurrence) : Prop :=
  ∃ r ∈ issued, r.id = id ∧ (runArgs r).occurrence = occurrence

structure Books (s : Daemon) : Prop where
  indexed : s.db.Indexed
  ids : (s.issued.map (·.id)).Nodup
  rows : ∀ x ∈ s.db.runs, Known s.issued x.runID x.occurrence
  spool : ∀ r ∈ s.spool, r ∈ s.issued
  stored : ∀ id ∈ s.acknowledged, ∃ x ∈ s.db.runs ++ s.deleted, x.runID = id

def Daemon.Retains (s : Daemon) (k : Occurrence) : Prop := ∀ x ∈ s.deleted, x.occurrence ≠ some k

structure Extends (s s' : Daemon) : Prop where
  options : s'.options = s.options
  issued : s.issued ⊆ s'.issued
  acknowledged : s.acknowledged ⊆ s'.acknowledged
  retains : ∀ k, s'.Retains k → s.Retains k
  spent : ∀ k id, s'.Retains k → s.db.Spent k id → s'.db.Spent k id

section

variable {s s' s'' : Daemon} {r : Run} {op : Op} {db' : DB} {id : String} {k : Occurrence}

lemma Known.unique {issued : List Run} {a b : Option Occurrence} (hn : (issued.map (·.id)).Nodup)
    (ha : Known issued id a) (hb : Known issued id b) : a = b := by
  obtain ⟨r, hr, hrid, rfl⟩ := ha
  obtain ⟨t, ht, htid, rfl⟩ := hb
  rw [List.inj_on_of_nodup_map hn hr ht (hrid.trans htid.symm)]

lemma Known.mono {issued issued' : List Run} {a : Option Occurrence} (hi : issued ⊆ issued')
    (h : Known issued id a) : Known issued' id a := by
  obtain ⟨r, hr, h⟩ := h
  exact ⟨r, hi hr, h⟩

lemma Extends.refl (s : Daemon) : Extends s s :=
  ⟨rfl, fun _ h => h, fun _ h => h, fun _ h => h, fun _ _ _ h => h⟩

lemma Extends.trans (h : Extends s s') (h' : Extends s' s'') : Extends s s'' where
  options := h'.options.trans h.options
  issued := List.Subset.trans h.issued h'.issued
  acknowledged := List.Subset.trans h.acknowledged h'.acknowledged
  retains k hk := h.retains k (h'.retains k hk)
  spent k id hk hs := h'.spent k id hk (h.spent k id (h'.retains k hk) hs)

lemma extends_issue : Extends s (s.issue r) :=
  ⟨rfl, List.subset_append_left _ _, fun _ h => h, fun _ h => h, fun _ _ _ h => h⟩

lemma extends_acknowledge : Extends s (s.acknowledge id) :=
  ⟨rfl, fun _ h => h, List.subset_append_left _ _, fun _ h => h, fun _ _ _ h => h⟩

lemma extends_defer (kept : Bool) : Extends s (s.defer r kept) :=
  ⟨rfl, fun _ h => h, fun _ h => h, fun _ h => h, fun _ _ _ h => h⟩

lemma extends_setDown (down : Bool) : Extends s (s.setDown down) :=
  ⟨rfl, fun _ h => h, fun _ h => h, fun _ h => h, fun _ _ _ h => h⟩

lemma extends_launch (x : RunRow) : Extends s (s.launch x) :=
  ⟨rfl, fun _ h => h, fun _ h => h, fun _ h => h, fun _ _ _ h => h⟩

lemma retains_write (h : (s.write db').Retains k) {x : RunRow} (hx : x ∈ s.db.runs) (hk : x.occurrence = some k) :
    ∃ y ∈ db'.runs, y.runID = x.runID := by
  by_contra hc
  refine h x (List.mem_append_right _ (List.mem_filter.mpr ⟨hx, ?_⟩)) hk
  simpa using hc

lemma extends_write (hb : Books s) (h : RunsEffect op s.db db') : Extends s (s.write db') where
  options := rfl
  issued _ h := h
  acknowledged _ h := h
  retains _ hk x hx := hk x (List.mem_append_left _ hx)
  spent _ _ hk := h.spent hb.indexed fun _ hx => retains_write hk hx

lemma Books.issue (hb : Books s) (hid : s.Fresh r.id) : Books (s.issue r) where
  indexed := hb.indexed
  ids := nodup_append_fresh hb.ids hid
  rows x hx := (hb.rows x hx).mono (List.subset_append_left _ _)
  spool t ht := List.mem_append_left _ (hb.spool t ht)
  stored := hb.stored

lemma Books.write (hb : Books s) (h : RunsEffect op s.db db') (hi : ∀ r, op.inserts = some r → r ∈ s.issued) :
    Books (s.write db') where
  indexed := h.indexed hb.indexed
  ids := hb.ids
  rows x hx := by
    rcases h.mem hx with ⟨y, hy, hid, ho⟩ | ⟨r, hop, _, hid, ho⟩
    · exact hid ▸ ho ▸ hb.rows y hy
    · exact ⟨r, hi r hop, hid.symm, ho.symm⟩
  spool := hb.spool
  stored id hid := by
    obtain ⟨x, hx, rfl⟩ := hb.stored id hid
    rcases List.mem_append.mp hx with hx | hx
    · by_cases hk : ∃ y ∈ db'.runs, y.runID = x.runID
      · obtain ⟨y, hy, hyx⟩ := hk
        exact ⟨y, List.mem_append_left _ hy, hyx⟩
      · refine ⟨x, List.mem_append_right _ (List.mem_append_right _ (List.mem_filter.mpr ⟨hx, ?_⟩)), rfl⟩
        simpa using hk
    · exact ⟨x, List.mem_append_right _ (List.mem_append_left _ hx), rfl⟩

lemma Books.acknowledge (hb : Books s) (h : ∃ x ∈ s.db.runs, x.runID = id) : Books (s.acknowledge id) where
  indexed := hb.indexed
  ids := hb.ids
  rows := hb.rows
  spool := hb.spool
  stored id' hid' := by
    rcases List.mem_append.mp hid' with hid' | hid'
    · exact hb.stored id' hid'
    · obtain rfl := List.mem_singleton.mp hid'
      obtain ⟨x, hx, hid⟩ := h
      exact ⟨x, List.mem_append_left _ hx, hid⟩

lemma Books.defer (hb : Books s) (hr : r ∈ s.issued) (kept : Bool) : Books (s.defer r kept) where
  indexed := hb.indexed
  ids := hb.ids
  rows := hb.rows
  spool t ht := by
    cases kept with
    | false => exact hb.spool t ht
    | true =>
      rcases List.mem_append.mp ht with ht | ht
      · exact hb.spool t ht
      · exact List.mem_singleton.mp ht ▸ hr
  stored := hb.stored

lemma Books.setDown (hb : Books s) (down : Bool) : Books (s.setDown down) :=
  ⟨hb.indexed, hb.ids, hb.rows, hb.spool, hb.stored⟩

lemma Books.launch (hb : Books s) (x : RunRow) : Books (s.launch x) :=
  ⟨hb.indexed, hb.ids, hb.rows, hb.spool, hb.stored⟩

lemma runsEffect_attempt {x : Tx Unit} {result : WriteResult} {db : DB}
    (hx : ∀ db', x.Commits db db' → RunsEffect op db db') (h : Attempt x db result db') :
    RunsEffect op db db' := by
  cases h with
  | ok h => exact hx _ ⟨_, h⟩
  | refused | failed => exact .keep rfl
  | ambiguous h => exact hx _ ⟨_, h⟩

end

/-! ## What one call does -/

/-- The run may be launched: if it is a scheduled run of the definition, its row is acknowledged, and under a
retained occurrence it is the run that the occurrence was spent on. -/
structure Launchable (D : ℕ) (s : Daemon) (x : RunRow) : Prop where
  acknowledged : x.definitionID = D → x.trigger = .schedule → x.runID ∈ s.acknowledged
  spent : ∀ us, s.Retains (D, us) → x.occurrence = some (D, us) → s.db.Spent (D, us) x.runID

def TriggerPc.Sound (D : ℕ) (c : Queue.TriggerCall) (s : Daemon) : TriggerPc → Prop
  | .deciding | .skipping _ => True
  | .enqueuing r | .recording r => r ∈ s.issued
  | .inserting r | .deferring r => r ∈ s.issued ∧ r.definitionID = c.d.id ∧ r.status = .pending
  | .launching r => Launchable D s (runArgs r)

def DrainPc.Sound (D : ℕ) (item : QueueItem) (s : Daemon) : DrainPc → Prop
  | .reading => True
  | .looking run | .dequeuing run _ _ => run.runID = item.runID ∧ Known s.issued run.runID run.occurrence
  | .launching run => Launchable D s run

def Call.Sound (D : ℕ) (s : Daemon) : Call → Prop
  | .trigger c pc =>
    (c.d.id = D → c.isJob = true ∧ s.options.skipsUnrecorded c.d = true) ∧ pc.Sound D c s
  | .missed r => r ∈ s.issued
  | .drain item pc => pc.Sound D item s

section

variable {D : ℕ} {s s' : Daemon} {r : Run} {op : Op} {db' : DB}

lemma Launchable.mono {x : RunRow} (hs : Extends s s') (h : Launchable D s x) : Launchable D s' x where
  acknowledged hd ht := hs.acknowledged (h.acknowledged hd ht)
  spent us hk hx := hs.spent _ _ hk (h.spent us (hs.retains _ hk) hx)

lemma TriggerPc.Sound.mono {c : Queue.TriggerCall} {pc : TriggerPc} (hs : Extends s s') (h : pc.Sound D c s) :
    pc.Sound D c s' := by
  cases pc with
  | deciding | skipping => trivial
  | enqueuing | recording => exact hs.issued h
  | inserting | deferring => exact ⟨hs.issued h.1, h.2⟩
  | launching => exact Launchable.mono hs h

lemma DrainPc.Sound.mono {item : QueueItem} {pc : DrainPc} (hs : Extends s s') (h : pc.Sound D item s) :
    pc.Sound D item s' := by
  cases pc with
  | reading => trivial
  | looking | dequeuing => exact ⟨h.1, h.2.mono hs.issued⟩
  | launching => exact Launchable.mono hs h

lemma Call.Sound.mono {p : Call} (hs : Extends s s') (h : p.Sound D s) : p.Sound D s' := by
  cases p with
  | trigger c pc => exact ⟨fun hd => hs.options ▸ h.1 hd, h.2.mono hs⟩
  | missed r => exact hs.issued h
  | drain item pc => exact DrainPc.Sound.mono hs h

def Keeps (s s' : Daemon) : Prop := Books s' ∧ Extends s s'

lemma keeps_write (hb : Books s) (h : RunsEffect op s.db db') (hi : ∀ r, op.inserts = some r → r ∈ s.issued) :
    Keeps s (s.write db') :=
  ⟨hb.write h hi, extends_write hb h⟩

lemma keeps_create {result : WriteResult} (hb : Books s) (hr : r ∈ s.issued)
    (h : Attempt (createRun r) s.db result db') : Keeps s (s.write db') :=
  keeps_write hb (runsEffect_attempt (fun _ => .of_commits s.options.specHash (.create r) trivial) h) fun _ hop =>
    Option.some.inj hop ▸ hr

lemma keeps_admitIdempotentRun {now later : ℤ} {idem : Idempotency} (hb : Books s) (hr : r ∈ s.issued)
    (h : (admitIdempotentRun now later r idem).Commits s.db db') : Keeps s (s.write db') :=
  keeps_write hb (.of_commits s.options.specHash (.admitIdempotent now later r idem) trivial h) fun _ hop =>
    Option.some.inj hop ▸ hr

lemma keeps_enqueue {now later : ℤ} {idem : Option Idempotency} {lim : QueueLimits} {unique : Bool} (hb : Books s)
    (hr : r ∈ s.issued) (h : (enqueueRun now later r idem lim unique).Commits s.db db') : Keeps s (s.write db') :=
  keeps_write hb (.of_commits s.options.specHash (.enqueue now later r idem lim unique) trivial h) fun _ hop =>
    Option.some.inj hop ▸ hr

lemma Keeps.defer (h : Keeps s s') (hr : r ∈ s'.issued) (kept : Bool) : Keeps s (s'.defer r kept) :=
  ⟨h.1.defer hr kept, h.2.trans (extends_defer kept)⟩

lemma Keeps.setDown (h : Keeps s s') (down : Bool) : Keeps s (s'.setDown down) :=
  ⟨h.1.setDown down, h.2.trans (extends_setDown down)⟩

lemma Keeps.acknowledge {id : String} (h : Keeps s s') (hid : ∃ x ∈ s'.db.runs, x.runID = id) :
    Keeps s (s'.acknowledge id) :=
  ⟨h.1.acknowledge hid, h.2.trans extends_acknowledge⟩

lemma RecordStep.keeps (hb : Books s) (hr : r ∈ s.issued) (h : RecordStep r s s') : Keeps s s' := by
  cases h with
  | attempted h => exact keeps_create hb hr h
  | deferred kept h => exact ((keeps_create hb hr h).setDown true).defer hr kept
  | bypassed kept => exact Keeps.defer ⟨hb, Extends.refl s⟩ hr kept

lemma RecordStep.launched (h : RecordStep r s s') : s'.launched = s.launched := by
  cases h <;> rfl

end

end Minicrond.Executor.Launches
