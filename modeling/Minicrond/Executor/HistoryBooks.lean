import Mathlib.Data.List.Infix
import Minicrond.Executor.History

/-! The books of a run: which of its stages have happened, which are stored and which wait in its item, and how a
write or an entry in the spool changes them. -/

namespace Minicrond.Executor.History

open Minicrond.Library Minicrond.Store Minicrond.Time

inductive Stage
  | create
  | start
  | terminal
deriving DecidableEq

def Stage.rank : Stage → ℕ
  | create => 0
  | start => 1
  | terminal => 2

/-! ## What is stored -/

def stagesOf (row : RunRow) : List Stage :=
  match row.startedUs.isSome, row.status.terminal with
  | false, false => [.create]
  | true, false => [.create, .start]
  | false, true => [.create, .terminal]
  | true, true => [.create, .start, .terminal]

def storedStages (db : DB) (id : String) : List Stage := (db.run id).elim [] stagesOf

structure Records (row : RunRow) (t : Outcome) : Prop where
  status : row.status = t.status
  reason : row.endReason = some t.reason
  code : row.exitCode = t.code
  signal : row.signal = nullString t.signal
  ended : row.endedUs = some (unixMicro t.ended)
  bytes : row.logBytes = t.bytes
  truncated : row.logTruncated = t.truncated
  usage : row.usage = t.usage

inductive Shaped (outcome : Option Terminal) (row : RunRow) : Prop
  | pending (hs : row.status = .pending) (hu : row.startedUs = none)
  | running (hs : row.status = .running) (hu : row.startedUs.isSome = true)
  | ended (t : Terminal) (ht : outcome = some t) (hs : t.status.terminal = true) (hr : Records row t.toOutcome)

structure Unopposed (j : Job) (db : DB) : Prop where
  consistent : Consistent db
  occurrence : ∀ row ∈ db.runs, row.runID ≠ j.r.id → sameOccurrence (runArgs j.r) row = false
  definition : ∃ d ∈ db.registry.definitions, d.definitionID = j.r.definitionID

structure Sound (j : Job) (outcome : Option Terminal) (db : DB) : Prop extends Unopposed j db where
  shaped : ∀ row, db.run j.r.id = some row → Shaped outcome row

structure Wrote (stage : Stage) (before after : List Stage) (result : WriteResult) : Prop where
  appends : after = before ∨ stage ∉ before ∧ after = before ++ [stage]
  written : result ≠ .unavailable → stage ∈ after

section

variable {j : Job} {db db' : DB} {outcome : Option Terminal} {result : WriteResult} {row : RunRow} {e : StoreError}

lemma Unopposed.update (h : Unopposed j db) {sel : RunRow → Bool} {f : RunRow → RunRow}
    (hsel : ∀ row, sel row = true → row.runID = j.r.id) (hf : ∀ row, (f row).runID = row.runID)
    (hc : Consistent { db with runs := updateWhere sel f db.runs }) :
    Unopposed j { db with runs := updateWhere sel f db.runs } := by
  refine ⟨hc, fun row hrow hid => ?_, h.definition⟩
  obtain ⟨x, hx, rfl⟩ := mem_updateWhere.mp hrow
  split_ifs at hid ⊢ with hs
  · exact (hid ((hf x).trans (hsel x hs))).elim
  · exact h.occurrence x hx hid

lemma storedStages_some (h : db.run j.r.id = some row) : storedStages db j.r.id = stagesOf row := by
  simp [storedStages, h]

lemma storedStages_none (h : db.run j.r.id = none) : storedStages db j.r.id = [] := by
  simp [storedStages, h]

lemma create_mem_stagesOf : .create ∈ stagesOf row := by
  rw [stagesOf]
  split <;> simp

lemma terminal_mem_stagesOf : .terminal ∈ stagesOf row ↔ row.status.terminal = true := by
  rw [stagesOf]
  split <;> simp_all

lemma stagesOf_pending (hs : row.status = .pending) (hu : row.startedUs = none) : stagesOf row = [.create] := by
  simp [stagesOf, hs, hu, Status.terminal, Status.rank]

lemma stagesOf_running (hs : row.status = .running) (hu : row.startedUs.isSome = true) :
    stagesOf row = [.create, .start] := by
  simp [stagesOf, hs, hu, Status.terminal, Status.rank]

lemma stagesOf_finish {t : Outcome} (ht : t.status.terminal = true) :
    stagesOf (row.finish t) = stagesOf row ∨
      .terminal ∉ stagesOf row ∧ stagesOf (row.finish t) = stagesOf row ++ [.terminal] := by
  have hstarted : (row.finish t).startedUs = row.startedUs := rfl
  have hstatus : (row.finish t).status.terminal = true := ht
  rw [terminal_mem_stagesOf, stagesOf, stagesOf, hstarted, hstatus]
  cases row.startedUs.isSome <;> cases row.status.terminal <;> simp

lemma records_finish (row : RunRow) (t : Outcome) : Records (row.finish t) t :=
  ⟨rfl, rfl, rfl, rfl, rfl, rfl, rfl, rfl⟩

lemma mem_storedStages {stage : Stage} :
    stage ∈ storedStages db j.r.id ↔ ∃ row, db.run j.r.id = some row ∧ stage ∈ stagesOf row := by
  cases h : db.run j.r.id with
  | none => simp [storedStages_none h]
  | some row => simp [storedStages_some h]

lemma create_mem_storedStages : .create ∈ storedStages db j.r.id ↔ ∃ row, db.run j.r.id = some row := by
  simp [mem_storedStages, create_mem_stagesOf]

/-! ## What the three writes do -/

lemma Sound.created (hs : Sound j outcome db) (hj : j.r.status = .pending) {u : Unit}
    (h : createRun j.r db = .ok (u, db')) :
    Sound j outcome db' ∧ storedStages db j.r.id = [] ∧ storedStages db' j.r.id = [.create] := by
  obtain ⟨hnone, hsome⟩ := run_createRun h
  have hstages : stagesOf (runArgs j.r) = [.create] := stagesOf_pending hj rfl
  refine ⟨⟨⟨?_, ?_, ?_⟩, fun row hrow => ?_⟩, storedStages_none hnone, (storedStages_some hsome).trans hstages⟩
  · have hissued : j.r.status ≠ .queued := by simp [hj]
    have hstep : Store.Step (fun _ => "") db (.create j.r) db' := ⟨hissued, .inr ⟨_, h⟩⟩
    exact hstep.consistent hs.consistent
  · obtain ⟨_, rfl⟩ := createRun_ok h
    intro row hrow hid
    rcases List.mem_append.mp hrow with hrow | hrow
    · exact hs.occurrence row hrow hid
    · rw [List.mem_singleton.mp hrow] at hid
      exact (hid rfl).elim
  · obtain ⟨_, rfl⟩ := createRun_ok h
    exact hs.definition
  · rw [hsome, Option.some.injEq] at hrow
    exact hrow ▸ .pending hj rfl

lemma Sound.refused_create (hs : Sound j outcome db) (h : createRun j.r db = .error e) :
    .create ∈ storedStages db j.r.id := by
  rw [create_mem_storedStages, ← Option.ne_none_iff_exists', Ne, DB.run_eq_none]
  intro hfresh
  rcases createRun_error h with ⟨row, hrow, hid⟩ | ⟨row, hrow, hsame⟩ | hdefinition
  · exact hfresh row hrow hid
  · simp [hs.occurrence row hrow (hfresh row hrow)] at hsame
  · obtain ⟨d, hd, hid⟩ := hs.definition
    exact hdefinition d hd hid

lemma Sound.started (hs : Sound j outcome db) {info : StartInfo} {u : Unit}
    (h : startRun j.r.id info.process info.started db = .ok (u, db')) :
    Sound j outcome db' ∧ storedStages db j.r.id = [.create] ∧ storedStages db' j.r.id = [.create, .start] := by
  obtain ⟨row, hrow, hpending, hrow'⟩ := run_startRun hs.consistent h
  have hstages : stagesOf row = [.create] := by
    cases hs.shaped row hrow with
    | pending hst hu => exact stagesOf_pending hst hu
    | running hst => simp [hpending] at hst
    | ended t _ ht hr => simp [← hr.status, hpending, Status.terminal, Status.rank] at ht
  refine ⟨⟨?_, fun x hx => ?_⟩, (storedStages_some hrow).trans hstages,
    (storedStages_some hrow').trans (stagesOf_running rfl rfl)⟩
  · have hstep : Store.Step (fun _ => "") db (.start j.r.id info.process info.started) db' :=
      ⟨trivial, .inr ⟨_, h⟩⟩
    have hc := hstep.consistent hs.consistent
    obtain ⟨_, rfl⟩ := startRun_ok h
    refine hs.update (fun x hx => ?_) (fun _ => rfl) hc
    simp only [Bool.and_eq_true, decide_eq_true_eq] at hx
    exact hx.1
  · rw [hrow', Option.some.injEq] at hx
    exact hx ▸ .running rfl rfl

lemma Sound.refused_start (hs : Sound j outcome db) {info : StartInfo}
    (h : startRun j.r.id info.process info.started db = .error e) (hcreate : .create ∈ storedStages db j.r.id)
    (hterminal : .terminal ∉ storedStages db j.r.id) : .start ∈ storedStages db j.r.id := by
  obtain ⟨row, hrow⟩ := create_mem_storedStages.mp hcreate
  rw [storedStages_some hrow] at hterminal ⊢
  cases hs.shaped row hrow with
  | pending hst => exact (startRun_error h hrow hst).elim
  | running hst hu => simp [stagesOf_running hst hu]
  | ended t _ ht hr => exact (hterminal (terminal_mem_stagesOf.mpr (hr.status ▸ ht))).elim

lemma Sound.finished {t : Terminal} (hs : Sound j (some t) db) (ht : t.status.terminal = true) {u : Unit}
    (h : finishRun j.r.id t.toOutcome db = .ok (u, db')) :
    Sound j (some t) db' ∧ .terminal ∈ storedStages db' j.r.id ∧
      (storedStages db' j.r.id = storedStages db j.r.id ∨
        .terminal ∉ storedStages db j.r.id ∧ storedStages db' j.r.id = storedStages db j.r.id ++ [.terminal]) := by
  obtain ⟨row, hrow, _, hrow'⟩ := run_finishRun hs.consistent h
  rw [storedStages_some hrow, storedStages_some hrow']
  refine ⟨⟨?_, fun x hx => ?_⟩, terminal_mem_stagesOf.mpr ht, stagesOf_finish ht⟩
  · have hstep : Store.Step (fun _ => "") db (.finish j.r.id t.toOutcome) db' := ⟨ht, .inr ⟨_, h⟩⟩
    have hc := hstep.consistent hs.consistent
    obtain ⟨_, rfl⟩ := finishRun_ok h
    refine hs.update (fun x hx => ?_) (fun _ => rfl) hc
    simp only [finishable, Bool.and_eq_true, decide_eq_true_eq] at hx
    exact hx.1
  · rw [hrow', Option.some.injEq] at hx
    exact hx ▸ .ended t rfl ht (records_finish row _)

lemma Sound.finish_accepted {t : Terminal} (hs : Sound j (some t) db) (hcreate : .create ∈ storedStages db j.r.id)
    : finishRun j.r.id t.toOutcome db ≠ .error e := by
  intro h
  obtain ⟨row, hrow⟩ := create_mem_storedStages.mp hcreate
  obtain ⟨hmem, hid⟩ := DB.run_eq_some hrow
  have hrefused := finishRun_error h hmem
  cases hs.shaped row hrow with
  | pending hst | running hst => simp [finishable, hid, hst] at hrefused
  | ended t' he _ hr =>
    obtain rfl := Option.some_injective _ he
    simp [finishable, hid, hr.status] at hrefused

lemma Attempt.wrote {x : Tx Unit} {stage : Stage} (h : Attempt x db result db') (hs : Sound j outcome db)
    (hok : ∀ db', x db = .ok ((), db') → Sound j outcome db' ∧ stage ∈ storedStages db' j.r.id ∧
      (storedStages db' j.r.id = storedStages db j.r.id ∨
        stage ∉ storedStages db j.r.id ∧ storedStages db' j.r.id = storedStages db j.r.id ++ [stage]))
    (herror : ∀ e, x db = .error e → stage ∈ storedStages db j.r.id) :
    Sound j outcome db' ∧ Wrote stage (storedStages db j.r.id) (storedStages db' j.r.id) result := by
  cases h with
  | ok h =>
    obtain ⟨hs', hmem, happ⟩ := hok _ h
    exact ⟨hs', happ, fun _ => hmem⟩
  | refused h => exact ⟨hs, .inl rfl, fun _ => herror _ h⟩
  | failed => exact ⟨hs, .inl rfl, fun hr => (hr rfl).elim⟩
  | ambiguous h =>
    obtain ⟨hs', _, happ⟩ := hok _ h
    exact ⟨hs', happ, fun hr => (hr rfl).elim⟩

lemma Attempt.create (h : Attempt (createRun j.r) db result db') (hj : j.r.status = .pending)
    (hs : Sound j outcome db) :
    Sound j outcome db' ∧ Wrote .create (storedStages db j.r.id) (storedStages db' j.r.id) result := by
  refine h.wrote hs (fun db' hok => ?_) fun e he => hs.refused_create he
  obtain ⟨hs', hbefore, hafter⟩ := hs.created hj hok
  rw [hbefore, hafter]
  exact ⟨hs', by simp, by simp⟩

lemma Attempt.start {info : StartInfo} (h : Attempt (startRun j.r.id info.process info.started) db result db')
    (hs : Sound j outcome db) (hcreate : .create ∈ storedStages db j.r.id)
    (hterminal : .terminal ∉ storedStages db j.r.id) :
    Sound j outcome db' ∧ Wrote .start (storedStages db j.r.id) (storedStages db' j.r.id) result := by
  refine h.wrote hs (fun db' hok => ?_) fun e he => hs.refused_start he hcreate hterminal
  obtain ⟨hs', hbefore, hafter⟩ := hs.started hok
  rw [hbefore, hafter]
  exact ⟨hs', by simp, by simp⟩

lemma Attempt.finish {t : Terminal} (h : Attempt (finishRun j.r.id t.toOutcome) db result db')
    (hs : Sound j (some t) db) (ht : t.status.terminal = true) (hcreate : .create ∈ storedStages db j.r.id) :
    Sound j (some t) db' ∧ Wrote .terminal (storedStages db j.r.id) (storedStages db' j.r.id) result ∧
      ∀ e, result ≠ .refused e := by
  obtain ⟨hs', hwrote⟩ :=
    h.wrote hs (fun db' hok => hs.finished ht hok) fun e he => (hs.finish_accepted hcreate he).elim
  refine ⟨hs', hwrote, fun e he => ?_⟩
  subst he
  cases h with
  | refused h => exact hs.finish_accepted hcreate h

end

/-! ## What has happened -/

namespace RecordPc

def happened (before : List Stage) (stage : Stage) : RecordPc → List Stage
  | registering | recorded => before ++ [stage]
  | _ => before

def reached (before : List Stage) (stage : Stage) : RecordPc → List Stage
  | looking | checking | writing 0 => before
  | _ => before ++ [stage]

def direct : RecordPc → Bool
  | checking | writing _ | spooling => true
  | _ => false

end RecordPc

def begun (spawned : Option StartInfo) : List Stage := if spawned.isSome then [.create, .start] else [.create]

namespace RunPc

def happened (spawned : Option StartInfo) : RunPc → List Stage
  | admitting | inserting | deferring | declined | refusing _ _ => []
  | registering none | launching _ | executing => [.create]
  | registering (some _) | skipping _ | skipped _ => [.create, .terminal]
  | persisting _ pc => pc.happened [.create] .start
  | supervising _ => begun spawned
  | completing _ pc => pc.happened (begun spawned) .terminal
  | announcing _ | retrying _ | ended _ => begun spawned ++ [.terminal]

def reached (spawned : Option StartInfo) : RunPc → List Stage
  | admitting => []
  | inserting | deferring | declined | refusing _ _ => [.create]
  | registering none | launching _ | executing => [.create]
  | registering (some _) | skipping _ | skipped _ => [.create, .terminal]
  | persisting _ pc => pc.reached [.create] .start
  | supervising _ => begun spawned
  | completing _ pc => pc.reached (begun spawned) .terminal
  | announcing _ | retrying _ | ended _ => begun spawned ++ [.terminal]

def outcome : RunPc → Option Terminal
  | registering t => t
  | skipping t | skipped t | completing t _ | announcing t | retrying t | ended t => some t
  | _ => none

def direct : RunPc → Bool
  | admitting | inserting | deferring | declined => true
  | persisting _ pc | completing _ pc => pc.direct
  | _ => false

/-- The positions that the run stays out of while the spool has room, no one shuts down and no write is refused. -/
def regular : RunPc → Bool
  | launching recorded => recorded
  | supervising startErr => !startErr
  | refusing _ _ | persisting _ .rejected | persisting _ (.writing (_ + 1)) | completing _ .rejected => false
  | _ => true

def Process (spawned : Option StartInfo) : RunPc → Prop
  | persisting _ _ => spawned.isSome = true
  | supervising _ | completing _ _ | announcing _ | retrying _ | ended _ => True
  | _ => spawned = none

end RunPc

namespace FinalItem

def awaits (it : FinalItem) : Stage → Bool
  | .create => it.create
  | .start => it.start.isSome
  | .terminal => it.done.isSome

def pending (it : FinalItem) : List Stage := [.create, .start, .terminal].filter it.awaits

lemma mem_pending {it : FinalItem} {stage : Stage} : stage ∈ it.pending ↔ it.awaits stage = true := by
  cases stage <;> simp [pending]

end FinalItem

namespace State

def pending (s : State) : List Stage := s.item.elim [] FinalItem.pending

def happened (s : State) : List Stage := s.run.happened s.spawned

def reached (s : State) : List Stage := s.run.reached s.spawned

end State

/-! ## The books of a run -/

structure Reads (v : FinalItemView) (it : FinalItem) : Prop where
  ref : it.ref = v.ref
  create : it.create = true → v.create = true
  done : v.done.isSome = true → it.done = v.done ∧ (it.start.isSome = true → v.start.isSome = true)

def Awaits (v : FinalItemView) (it : FinalItem) : Prop := ∀ info, v.start = some info → it.start = some info

def Begun (stored : List Stage) (v : FinalItemView) (it : FinalItem) : Prop :=
  v.start.isSome = true → it.start = none ∧ .start ∈ stored

def WriterPc.Agrees (stored : List Stage) (item : Option FinalItem) : WriterPc → Prop
  | .idle | .recovering | .delaying _ => True
  | .dropping | .stopped => False
  | .holding v | .creating v => ∃ it, item = some it ∧ Reads v it ∧ Awaits v it
  | .looking v | .created v => ∃ it, item = some it ∧ Reads v it ∧ Awaits v it ∧ .create ∈ stored
  | .starting v => ∃ it, item = some it ∧ Reads v it ∧ Awaits v it ∧ it.create = false
  | .started v => ∃ it, item = some it ∧ Reads v it ∧ Awaits v it ∧ it.create = false ∧ .start ∈ stored
  | .finishing v => ∃ it, item = some it ∧ Reads v it ∧ Begun stored v it ∧ it.create = false
  | .retiring v =>
    ∃ it, item = some it ∧ Reads v it ∧ Begun stored v it ∧ it.create = false ∧
      (v.done.isSome = true → .terminal ∈ stored)

structure Entry (happened stored : List Stage) (outcome : Option Terminal) (it : FinalItem) : Prop where
  known : .create ∈ happened
  create : it.create = true → .start ∉ stored ∧ .terminal ∉ stored
  start : it.start.isSome = true → .terminal ∉ stored
  done : it.done.isSome = true → it.done = outcome

/-- The run's stages, its item and the writer in agreement; `base` is what was stored at an earlier time. -/
structure Account (j : Job) (base : List Stage) (s : State) (happened reached : List Stage)
  (outcome : Option Terminal) :
    Prop where
  opened : s.closing = false
  recorded : s.unrecorded = false
  sound : Sound j outcome s.db
  ends : ∀ t, outcome = some t → t.status.terminal = true
  grown : base <+: storedStages s.db j.r.id
  order : storedStages s.db j.r.id <+: reached
  kept : ∀ stage ∈ happened, stage ∈ storedStages s.db j.r.id ∨ stage ∈ s.pending
  pending : ∀ stage ∈ s.pending, stage ∈ happened
  entry : ∀ it, s.item = some it → Entry happened (storedStages s.db j.r.id) outcome it
  writer : s.writer.Agrees (storedStages s.db j.r.id) s.item

section

variable {j : Job} {s s' : State} {base happened happened' reached reached' stored stored' : List Stage}
  {outcome outcome' : Option Terminal} {it it' : FinalItem} {v : FinalItemView} {stage : Stage}
  {result : WriteResult} {db' : DB} {pc : WriterPc}

lemma append_ordered (hsorted : reached.Pairwise fun a b => a.rank < b.rank) (h : stored <+: reached)
    (hmem : stage ∈ reached) (hnot : stage ∉ stored)
    (hbefore : ∀ x ∈ reached, x.rank < stage.rank → x ∈ stored) : stored ++ [stage] <+: reached := by
  obtain ⟨rest, rfl⟩ := h
  obtain ⟨_, hrest, hcross⟩ := List.pairwise_append.mp hsorted
  have hin : stage ∈ rest := (List.mem_append.mp hmem).resolve_left hnot
  cases rest with
  | nil => simp at hin
  | cons x rest =>
    rcases List.mem_cons.mp hin with rfl | hin
    · exact ⟨rest, by simp⟩
    · have hlt := (List.pairwise_cons.mp hrest).1 stage hin
      have hx := hbefore x (by simp) hlt
      exact (lt_irrefl _ (hcross x hx x (by simp))).elim

lemma Wrote.grows (h : Wrote stage stored stored' result) : stored <+: stored' := by
  rcases h.appends with he | ⟨_, he⟩
  · exact he ▸ List.prefix_rfl
  · exact he ▸ List.prefix_append _ _

lemma Wrote.mem (h : Wrote stage stored stored' result) {x : Stage} (hx : x ∈ stored') :
    x ∈ stored ∨ x = stage := by
  rcases h.appends with he | ⟨_, he⟩
  · exact .inl (he ▸ hx)
  · simpa [he] using hx

lemma Wrote.ordered (h : Wrote stage stored stored' result) (hsorted : reached.Pairwise fun a b => a.rank < b.rank)
    (ho : stored <+: reached) (hmem : stage ∈ reached)
    (hbefore : ∀ x ∈ reached, x.rank < stage.rank → x ∈ stored) : stored' <+: reached := by
  rcases h.appends with he | ⟨hnot, he⟩
  · exact he ▸ ho
  · exact he ▸ append_ordered hsorted ho hmem hnot hbefore

lemma Begun.mono (h : Begun stored v it) (hsub : ∀ x ∈ stored, x ∈ stored') : Begun stored' v it :=
  fun hv => ⟨(h hv).1, hsub _ (h hv).2⟩

lemma Reads.unstarted (h : Reads v it) (hb : Begun stored v it) {t : Terminal} (hv : v.done = some t) :
    it.done = some t ∧ it.start = none := by
  obtain ⟨hdone, hstart⟩ := h.done (by simp [hv])
  refine ⟨hdone.trans hv, ?_⟩
  by_contra hne
  exact hne (hb (hstart (Option.isSome_iff_ne_none.mpr hne))).1

lemma WriterPc.Agrees.mono {item : Option FinalItem} (h : pc.Agrees stored item)
    (hsub : ∀ x ∈ stored, x ∈ stored') :
    pc.Agrees stored' item := by
  cases pc with
  | idle | recovering | delaying | dropping | stopped | holding | creating | starting => exact h
  | looking v | created v =>
    obtain ⟨it, hi, hr, ha, hc⟩ := h
    exact ⟨it, hi, hr, ha, hsub _ hc⟩
  | started v =>
    obtain ⟨it, hi, hr, ha, hc, hs⟩ := h
    exact ⟨it, hi, hr, ha, hc, hsub _ hs⟩
  | finishing v =>
    obtain ⟨it, hi, hr, hb, hc⟩ := h
    exact ⟨it, hi, hr, hb.mono hsub, hc⟩
  | retiring v =>
    obtain ⟨it, hi, hr, hb, hc, ht⟩ := h
    exact ⟨it, hi, hr, hb.mono hsub, hc, fun hv => hsub _ (ht hv)⟩

lemma WriterPc.Agrees.of_none (h : pc.Agrees stored none) (item : Option FinalItem) : pc.Agrees stored' item := by
  cases pc with
  | idle | recovering | delaying => trivial
  | dropping | stopped => exact h.elim
  | _ =>
    obtain ⟨_, hi, _⟩ := h
    cases hi

structure Adds (stage : Stage) (outcome : Option Terminal) (it it' : FinalItem) : Prop where
  ref : it'.ref = it.ref
  awaits : ∀ x, it'.awaits x = true ↔ it.awaits x = true ∨ x = stage
  create : stage ≠ .create
  start : stage ≠ .start → it'.start = it.start
  done : stage ≠ .terminal → it'.done = it.done
  outcome : stage = .terminal → it'.done = outcome

namespace Adds

lemma reads (h : Adds stage outcome it it') (hnew : it.awaits stage = false)
    (hlast : stage = .start → it.done = none) (hr : Reads v it) : Reads v it' := by
  refine ⟨h.ref.trans hr.ref, fun hc => ?_, fun hv => ?_⟩
  · exact hr.create (((h.awaits .create).mp hc).resolve_right h.create.symm)
  · obtain ⟨hdone, hstart⟩ := hr.done hv
    have hsome : it.done.isSome = true := hdone ▸ hv
    have hterminal : stage ≠ .terminal := by
      rintro rfl
      simp [FinalItem.awaits, hsome] at hnew
    have hs : stage ≠ .start := by
      rintro rfl
      simp [hlast rfl] at hsome
    exact ⟨(h.done hterminal).trans hdone, fun hi => hstart (h.start hs ▸ hi)⟩

lemma awaits_view (h : Adds stage outcome it it') (hnew : it.awaits stage = false) (ha : Awaits v it) :
    Awaits v it' := by
  intro info hv
  have hi := ha info hv
  have hs : stage ≠ .start := by
    rintro rfl
    simp [FinalItem.awaits, hi] at hnew
  rw [h.start hs, hi]

lemma begun (h : Adds stage outcome it it') (hstored : stage ∉ stored) (hb : Begun stored v it) :
    Begun stored v it' := by
  intro hv
  obtain ⟨hi, hmem⟩ := hb hv
  have hs : stage ≠ .start := by
    rintro rfl
    exact hstored hmem
  exact ⟨(h.start hs).trans hi, hmem⟩

lemma stored_iff (h : Adds stage outcome it it') (hc : it.create = false) : it'.create = false := by
  rw [← Bool.not_eq_true] at hc ⊢
  exact fun hc' => hc (((h.awaits .create).mp hc').resolve_right h.create.symm)

lemma agrees (h : Adds stage outcome it it') (hnew : it.awaits stage = false)
    (hlast : stage = .start → it.done = none) (hstored : stage ∉ stored) (ha : pc.Agrees stored (some it)) :
    pc.Agrees stored (some it') := by
  cases pc with
  | idle | recovering | delaying => trivial
  | dropping | stopped => exact ha.elim
  | holding v | creating v =>
    obtain ⟨_, ⟨⟩, hr, ha⟩ := ha
    exact ⟨it', rfl, h.reads hnew hlast hr, h.awaits_view hnew ha⟩
  | looking v | created v =>
    obtain ⟨_, ⟨⟩, hr, ha, hc⟩ := ha
    exact ⟨it', rfl, h.reads hnew hlast hr, h.awaits_view hnew ha, hc⟩
  | starting v =>
    obtain ⟨_, ⟨⟩, hr, ha, hc⟩ := ha
    exact ⟨it', rfl, h.reads hnew hlast hr, h.awaits_view hnew ha, h.stored_iff hc⟩
  | started v =>
    obtain ⟨_, ⟨⟩, hr, ha, hc, hs⟩ := ha
    exact ⟨it', rfl, h.reads hnew hlast hr, h.awaits_view hnew ha, h.stored_iff hc, hs⟩
  | finishing v =>
    obtain ⟨_, ⟨⟩, hr, hb, hc⟩ := ha
    exact ⟨it', rfl, h.reads hnew hlast hr, h.begun hstored hb, h.stored_iff hc⟩
  | retiring v =>
    obtain ⟨_, ⟨⟩, hr, hb, hc, ht⟩ := ha
    exact ⟨it', rfl, h.reads hnew hlast hr, h.begun hstored hb, h.stored_iff hc, ht⟩

lemma entry (h : Adds stage outcome it it') (hknown : .create ∈ happened)
    (hcreate : it.create = true → .start ∉ stored ∧ .terminal ∉ stored)
    (hstart : it.start.isSome = true ∨ stage = .start → .terminal ∉ stored)
    (hdone : it.done.isSome = true → it.done = outcome) : Entry (happened ++ [stage]) stored outcome it' := by
  refine ⟨List.mem_append_left _ hknown, fun hc => ?_, fun hs => ?_, fun ht => ?_⟩
  · exact hcreate (((h.awaits .create).mp hc).resolve_right h.create.symm)
  · exact hstart (((h.awaits .start).mp hs).imp_right Eq.symm)
  · by_cases hterminal : stage = .terminal
    · exact h.outcome hterminal
    · rw [h.done hterminal] at ht ⊢
      exact hdone ht

end Adds

namespace Account

lemma frame (ha : Account j base s happened reached outcome) (hdb : s'.db = s.db) (hitem : s'.item = s.item)
    (hclosing : s'.closing = s.closing) (hrecorded : s'.unrecorded = s.unrecorded)
    (hwriter : s'.writer = s.writer) :
    Account j base s' happened reached outcome := by
  have hpending : s'.pending = s.pending := by rw [State.pending, State.pending, hitem]
  refine ⟨hclosing.trans ha.opened, hrecorded.trans ha.recorded, ?_, ha.ends, ?_, ?_, ?_, ?_, ?_, ?_⟩
  · exact hdb ▸ ha.sound
  · exact hdb ▸ ha.grown
  · exact hdb ▸ ha.order
  · rw [hdb, hpending]
    exact ha.kept
  · rw [hpending]
    exact ha.pending
  · rw [hdb, hitem]
    exact ha.entry
  · rw [hdb, hitem, hwriter]
    exact ha.writer

lemma advance (ha : Account j base s happened reached outcome) (hreached : reached <+: reached')
    (houtcome : ∀ t, outcome = some t → outcome' = some t)
    (hends : ∀ t, outcome' = some t → t.status.terminal = true) :
    Account j base s happened reached' outcome' := by
  refine ⟨ha.opened, ha.recorded, ⟨ha.sound.toUnopposed, fun row hrow => ?_⟩, hends, ha.grown,
    ha.order.trans hreached, ha.kept, ha.pending, fun it hi => ?_, ha.writer⟩
  · cases ha.sound.shaped row hrow with
    | pending hs hu => exact .pending hs hu
    | running hs hu => exact .running hs hu
    | ended t ht hs hr => exact .ended t (houtcome t ht) hs hr
  · obtain ⟨hknown, hcreate, hstart, hdone⟩ := ha.entry it hi
    refine ⟨hknown, hcreate, hstart, fun hd => ?_⟩
    obtain ⟨t, ht⟩ := Option.isSome_iff_exists.mp hd
    rw [ht, houtcome t ((hdone hd).symm.trans ht)]

lemma stored_of_none (ha : Account j base s happened reached outcome) (hi : s.item = none) :
    ∀ stage ∈ happened, stage ∈ storedStages s.db j.r.id := by
  intro stage hstage
  refine (ha.kept stage hstage).resolve_right fun hp => ?_
  simp [State.pending, hi] at hp

lemma write (ha : Account j base s happened reached outcome) (hi : s.item = none) (hsound : Sound j outcome db')
    (hwrote : Wrote stage (storedStages s.db j.r.id) (storedStages db' j.r.id) result)
    (horder : storedStages db' j.r.id <+: reached') (hsub : ∀ x ∈ happened', x ∈ storedStages db' j.r.id) :
    Account j base { s with db := db' } happened' reached' outcome := by
  refine ⟨ha.opened, ha.recorded, hsound, ha.ends, ha.grown.trans hwrote.grows, horder,
    fun x hx => .inl (hsub x hx), ?_, ?_, ?_⟩
  · simp [State.pending, hi]
  · simp [hi]
  · exact ha.writer.mono hwrote.grows.subset

lemma addToItem (ha : Account j base s happened happened outcome) (hi : s.item = some it)
    (h : Adds stage outcome it it') (hnew : stage ∉ happened) (hlast : stage = .start → .terminal ∉ happened) :
    Account j base { s with item := some it' } (happened ++ [stage]) (happened ++ [stage]) outcome := by
  have hstored : ∀ x, x ∉ happened → x ∉ storedStages s.db j.r.id := fun x hx hmem => hx (ha.order.subset hmem)
  have hpending : ∀ x, it.awaits x = true → x ∈ happened := by
    intro x hx
    refine ha.pending x ?_
    simpa [State.pending, hi] using FinalItem.mem_pending.mpr hx
  have hawaits : it.awaits stage = false := Bool.eq_false_iff.mpr fun hx => hnew (hpending stage hx)
  obtain ⟨hknown, hcreate, hstart, hdone⟩ := ha.entry it hi
  refine ⟨ha.opened, ha.recorded, ha.sound, ha.ends, ha.grown, ha.order.trans (List.prefix_append _ _),
    fun x hx => ?_, fun x hx => ?_, ?_, ?_⟩
  · rcases List.mem_append.mp hx with hx | hx
    · refine (ha.kept x hx).imp_right fun hp => FinalItem.mem_pending.mpr ((h.awaits x).mpr (.inl ?_))
      simpa [State.pending, hi, FinalItem.mem_pending] using hp
    · exact .inr (FinalItem.mem_pending.mpr ((h.awaits x).mpr (.inr (List.mem_singleton.mp hx))))
  · rcases (h.awaits x).mp (FinalItem.mem_pending.mp hx) with hx | rfl
    · exact List.mem_append_left _ (hpending x hx)
    · simp
  · rintro _ ⟨⟩
    exact h.entry hknown hcreate (Or.rec hstart fun hs => hstored _ (hlast hs)) hdone
  · have hlast' : stage = .start → it.done = none := fun hs => by
      rw [← Option.not_isSome_iff_eq_none]
      exact fun hd => hlast hs (hpending .terminal hd)
    exact h.agrees hawaits hlast' (hstored _ hnew) (hi ▸ ha.writer)

lemma spoolNew (ha : Account j base s happened reached outcome) (hi : s.item = none) {now : ℤ}
    (h : Adds stage outcome (s.newItem now) it') (hreached : reached <+: happened ++ [stage])
    (hknown : .create ∈ happened) (hlast : stage = .start → .terminal ∉ happened) :
    Account j base { s with item := some it', refs := s.refs + 1 } (happened ++ [stage]) (happened ++ [stage])
      outcome := by
  refine ⟨ha.opened, ha.recorded, ha.sound, ha.ends, ha.grown, ha.order.trans hreached, fun x hx => ?_,
    fun x hx => ?_, ?_, ?_⟩
  · rcases List.mem_append.mp hx with hx | hx
    · exact .inl (ha.stored_of_none hi x hx)
    · exact .inr (FinalItem.mem_pending.mpr ((h.awaits x).mpr (.inr (List.mem_singleton.mp hx))))
  · rcases (h.awaits x).mp (FinalItem.mem_pending.mp hx) with hx | rfl
    · cases x <;> simp [FinalItem.awaits, State.newItem] at hx
    · simp
  · rintro _ ⟨⟩
    refine h.entry hknown (by simp [State.newItem]) ?_ (by simp [State.newItem])
    rintro (hs | hs)
    · simp [State.newItem] at hs
    · intro hmem
      have hin := hreached.subset (ha.order.subset hmem)
      rw [hs] at hin
      exact hlast hs (by simpa using hin)
  · exact (hi ▸ ha.writer : s.writer.Agrees _ none).of_none _

end Account

end

end Minicrond.Executor.History
