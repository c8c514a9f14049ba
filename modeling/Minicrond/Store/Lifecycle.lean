import Minicrond.Store.QueueInvariant

/-! The life of a run: over every sequence of operations its status only moves forward, and a
terminal status stays. -/

namespace Minicrond.Store

open Minicrond.Library Minicrond.Time Transaction

def DB.run (db : DB) (id : String) : Option RunRow := db.runs.find? (·.runID = id)

section

variable {op : Op} {db db' : DB}

lemma DB.run_eq_some {id : String} {r : RunRow} (h : db.run id = some r) : r ∈ db.runs ∧ r.runID = id :=
  ⟨List.mem_of_find?_eq_some h, by simpa using List.find?_some h⟩

lemma Status.Progress.trans {a b c : Status} (hab : a.Progress b) (hbc : b.Progress c) : a.Progress c where
  rank := hab.rank.trans hbc.rank
  final ha := by
    obtain rfl := hab.final ha
    exact hbc.final ha

lemma progress_queued (b : Status) : Status.queued.Progress b := ⟨Nat.zero_le _, fun h => by cases h⟩

lemma progress_updateWhere (hdb : Consistent db) {sel : RunRow → Bool} {f : RunRow → RunRow}
    (hid : ∀ r, (f r).runID = r.runID) (hs : ∀ r, sel r = true → r.status.Progress (f r).status) {r r' : RunRow}
    (hr : r ∈ db.runs) (hr' : r' ∈ updateWhere sel f db.runs) (he : r'.runID = r.runID) :
    r.status.Progress r'.status := by
  obtain ⟨x, hx, rfl⟩ := mem_updateWhere.mp hr'
  split_ifs at he ⊢ with hsel
  · obtain rfl := hdb.run_unique hx hr ((hid x).symm.trans he)
    exact hs x hsel
  · obtain rfl := hdb.run_unique hx hr he
    exact progress_refl _

lemma Effect.progress (h : Effect op db db') (hdb : Consistent db) {r r' : RunRow} (hr : r ∈ db.runs)
    (hr' : r' ∈ db'.runs) (he : r'.runID = r.runID) : r.status.Progress r'.status := by
  cases h with
  | keep hruns =>
    obtain rfl := hdb.run_unique (hruns ▸ hr') hr he
    exact progress_refl _
  | create row hruns _ hfresh =>
    rw [hruns, List.mem_append, List.mem_singleton] at hr'
    rcases hr' with hr' | rfl
    · obtain rfl := hdb.run_unique hr' hr he
      exact progress_refl _
    · exact (hfresh r hr he.symm).elim
  | enqueue now later run idem lim unique hop row item hq =>
    rw [hq.runs, List.mem_append, List.mem_singleton] at hr'
    rcases hr' with hr' | rfl
    · obtain rfl := hdb.run_unique hr' hr he
      exact progress_refl _
    · exact (hq.fresh r hr he.symm).elim
  | leave ids sel f p hruns _ hsel _ hid =>
    refine progress_updateWhere hdb hid (fun x hx => ?_) hr (hruns ▸ hr') he
    rw [((hsel x).mp hx).1]
    exact progress_queued _
  | advance sel f hruns _ hid hs =>
    exact progress_updateWhere hdb hid (fun x hx => (hs x hx).2) hr (hruns ▸ hr') he
  | delete sel hruns =>
    rw [hruns] at hr'
    obtain rfl := hdb.run_unique (mem_deleteWhere.mp hr').1 hr he
    exact progress_refl _

end

section

variable {db db' : DB} {id : String} {x : RunRow} {process : ProcessInfo} {e : StoreError} {t : Outcome} {u : Unit}
    {now : ℤ}

lemma DB.run_eq_none : db.run id = none ↔ ∀ x ∈ db.runs, x.runID ≠ id := by
  rw [DB.run, List.find?_eq_none]
  simp

lemma Consistent.run_of_mem (hdb : Consistent db) (hx : x ∈ db.runs) : db.run x.runID = some x := by
  cases hrun : db.run x.runID with
  | none => exact (DB.run_eq_none.mp hrun x hx rfl).elim
  | some y =>
    obtain ⟨hmem, hid⟩ := DB.run_eq_some hrun
    rw [hdb.run_unique hmem hx hid]

lemma DB.run_started :
    (db.started id process now).run id =
      (db.run id).map fun x => if x.runID = id && x.status = .pending then x.start process now else x := by
  apply find?_updateWhere
  intro r
  rfl

lemma DB.run_finished :
    (db.finished id t).run id = (db.run id).map fun x => if finishable id t.status x then x.finish t else x := by
  apply find?_updateWhere
  intro r
  rfl

lemma run_createRun {r : Run} (h : createRun r db = .ok (u, db')) :
    db.run r.id = none ∧ db'.run r.id = some (runArgs r) := by
  obtain ⟨hadmits, rfl⟩ := createRun_ok h
  have hnone := DB.run_eq_none.mpr hadmits.fresh
  refine ⟨hnone, ?_⟩
  rw [DB.run] at hnone ⊢
  simp [List.find?_append, hnone, runArgs]

lemma run_startRun (hdb : Consistent db) (h : startRun id process now db = .ok (u, db')) :
    ∃ x, db.run id = some x ∧ x.status = .pending ∧ db'.run id = some (x.start process now) := by
  obtain ⟨⟨x, hx, rfl, hs⟩, rfl⟩ := startRun_ok h
  refine ⟨x, hdb.run_of_mem hx, hs, ?_⟩
  rw [DB.run_started, hdb.run_of_mem hx]
  simp [hs]

lemma run_finishRun (hdb : Consistent db) (h : finishRun id t db = .ok (u, db')) :
    ∃ x, db.run id = some x ∧ finishable id t.status x = true ∧ db'.run id = some (x.finish t) := by
  obtain ⟨⟨x, hx, hf⟩, rfl⟩ := finishRun_ok h
  obtain rfl : x.runID = id := by
    simp only [finishable, Bool.and_eq_true, decide_eq_true_eq] at hf
    exact hf.1
  refine ⟨x, hdb.run_of_mem hx, hf, ?_⟩
  rw [DB.run_finished, hdb.run_of_mem hx]
  simp [hf]

lemma createRun_error {r : Run} (h : createRun r db = .error e) :
    (∃ x ∈ db.runs, x.runID = r.id) ∨ (∃ x ∈ db.runs, sameOccurrence (runArgs r) x = true) ∨
      ∀ d ∈ db.registry.definitions, d.definitionID ≠ r.definitionID := by
  simp only [createRun, bind_error, get_ok, get_error, refuse_ok, refuse_error, set_error, false_or] at h
  obtain ⟨_, _, ⟨rfl, rfl⟩, h⟩ := h
  rcases h with ⟨h, _⟩ | ⟨_, _, ⟨_, rfl⟩, h⟩
  · obtain ⟨x, hx, hid⟩ := List.any_eq_true.mp h
    exact .inl ⟨x, hx, of_decide_eq_true hid⟩
  · rcases h with ⟨h, _⟩ | ⟨_, _, ⟨_, rfl⟩, h⟩
    · exact .inr (.inl (by simpa using h))
    · rcases h with ⟨h, _⟩ | ⟨_, _, _, h⟩
      · refine .inr (.inr fun d hd hid => ?_)
        simp only [Bool.not_eq_true', List.any_eq_false] at h
        exact h d hd (decide_eq_true hid)
      · exact h.elim

lemma startRun_error (h : startRun id process now db = .error e)
    (hx : db.run id = some x) : x.status ≠ .pending := by
  intro hs
  obtain ⟨hmem, hid⟩ := DB.run_eq_some hx
  simp only [startRun, bind_error, get_ok, get_error, refuse_ok, refuse_error, modify_error, false_or, and_false,
    exists_false, or_false] at h
  obtain ⟨_, _, ⟨rfl, rfl⟩, h, _⟩ := h
  simp only [Bool.not_eq_true', List.any_eq_false] at h
  exact h x hmem (by simp [hid, hs])

lemma finishRun_error (h : finishRun id t db = .error e) (hx : x ∈ db.runs) :
    finishable id t.status x = false := by
  simp only [finishRun, bind_error, get_ok, get_error, refuse_ok, refuse_error, modify_error, false_or, and_false,
    exists_false, or_false] at h
  obtain ⟨_, _, ⟨rfl, rfl⟩, h, _⟩ := h
  simp only [Bool.not_eq_true', List.any_eq_false] at h
  exact Bool.eq_false_iff.mpr (h x hx)

end

def StepKeeping (specHash : Definition → String) (id : String) (db : DB) (op : Op) (db' : DB) : Prop :=
  Step specHash db op db' ∧ ∃ r ∈ db'.runs, r.runID = id

def RunProgress (id : String) (db db' : DB) : Prop :=
  ∀ x ∈ db.runs, ∀ y ∈ db'.runs, x.runID = id → y.runID = id → x.status.Progress y.status

theorem run_status_monotone {specHash : Definition → String} {before ops : List Op} {db db' : DB} {id : String}
    (hreach : Library.Run (Step specHash) DB.empty before db)
    (h : Library.Run (StepKeeping specHash id) db ops db') {r r' : RunRow} (hr : db.run id = some r)
    (hr' : db'.run id = some r') :
    r.status.rank ≤ r'.status.rank ∧ (r.status.terminal = true → r'.status = r.status) := by
  obtain ⟨hmem, hid⟩ := DB.run_eq_some hr
  obtain ⟨hmem', hid'⟩ := DB.run_eq_some hr'
  have hdb := hreach.invariant (fun _ _ _ hstep => hstep.consistent) consistent_empty
  have hrel : RunProgress id db db' := by
    refine Run.related (P := fun db => Consistent db ∧ ∃ r ∈ db.runs, r.runID = id) ?_ ?_ ?_ h ⟨hdb, r, hmem, hid⟩
    · rintro s ⟨hs, _⟩ x hx y hy hxid hyid
      obtain rfl := hs.run_unique hx hy (hxid.trans hyid.symm)
      exact progress_refl _
    · rintro s t u ⟨_, m, hm, hmid⟩ hst htu x hx y hy hxid hyid
      exact (hst x hx m hm hxid hmid).trans (htu m hm y hy hmid hyid)
    · rintro s op t ⟨hstep, hexists⟩ ⟨hs, _⟩
      refine ⟨⟨hstep.consistent hs, hexists⟩, fun x hx y hy hxid hyid => ?_⟩
      exact (hstep.effect hs.queue).progress hs hx hy (hyid.trans hxid.symm)
  obtain ⟨hrank, hfinal⟩ := hrel r hmem r' hmem' hid hid'
  exact ⟨hrank, hfinal⟩

def backupInterrupted : DB :=
  { backupQueued with
    runs :=
      [{ runArgs backupRun with status := .interrupted, endReason := some "crash_recovery", endedUs := some 7 }]
    queue := [] }

lemma backup_interrupted :
    Library.Run (StepKeeping (fun _ => "hash") "r1") backupQueued [.dequeue "r1" 1 "hash" "boot", .recover 7]
      backupInterrupted :=
  .cons ⟨⟨trivial, .inr ⟨_, rfl⟩⟩, _, List.mem_singleton_self _, rfl⟩ <|
  .cons ⟨⟨trivial, .inr ⟨_, rfl⟩⟩, _, List.mem_singleton_self _, rfl⟩ <|
  .nil _

theorem run_status_monotone_interrupted :
    Status.queued.rank ≤ Status.interrupted.rank ∧ (Status.queued.terminal = true →
      Status.interrupted = Status.queued) :=
  run_status_monotone backup_enqueued backup_interrupted rfl rfl

end Minicrond.Store
