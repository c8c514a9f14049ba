import Minicrond.Store.QueueInvariant
import Minicrond.Store.Retention

/-! The retention sweep: page by page, the logs of old runs are deleted and then their rows. -/

namespace Minicrond.Daemon

open Minicrond.Library Minicrond.Time Minicrond.Store

structure RetentionDefinition where
  id : ℕ
  keepRuns : ℤ
  keepFor : ℤ
deriving DecidableEq, Repr

structure StorageConfig where
  keepRunsDefault : ℤ
  keepForDefault : ℤ
deriving DecidableEq, Repr

def retentionLimits (cfg : StorageConfig) (now : ℤ) (d : RetentionDefinition) : RetentionLimits :=
  let keepFor := if d.keepFor = 0 then cfg.keepForDefault else d.keepFor
  { keep := if d.keepRuns = 0 then cfg.keepRunsDefault else d.keepRuns
    olderThan := some (unixMicro (now - keepFor * 24 * hour)) }

structure Retained where
  db : DB
  logs : List String

def deletedLogs (refused : String → Bool) (ids : List String) : List String :=
  ids.eraseDups.filter fun id => !refused id

def committed (x : Tx Unit) (db : DB) : DB :=
  match x db with
  | .ok (_, db') => db'
  | .error _ => db

section

variable (size : ℕ) (refused : ℕ → String → Bool) (clock : ℕ → ℤ)

def sweepPages (id : ℕ) (lim : RetentionLimits) : ℕ → Option RetentionCandidate → Retained → List Retained
  | 0, _, _ => []
  | fuel + 1, cursor, s =>
    match retentionCandidates id lim (clock (2 * fuel + 1)) cursor size s.db with
    | none => []
    | some page =>
      if page = [] then []
      else
        let deletable := deletedLogs (refused fuel) (page.map (·.id))
        let s₁ : Retained := { s with logs := s.logs.filter (· ∉ deletable) }
        let s₂ : Retained := { s₁ with db := committed (deleteRuns deletable (clock (2 * fuel))) s.db }
        s₁ :: s₂ :: if page.length < size then [] else sweepPages id lim fuel page.getLast? s₂

end

def sweepRetention (cfg : StorageConfig) (size : ℕ) (refused : ℕ → ℕ → String → Bool) (clock : ℕ → ℕ → ℤ)
    (started : ℕ → ℤ) (fuel : ℕ) : List RetentionDefinition → Retained → List Retained
  | [], _ => []
  | d :: defs, s =>
    let states :=
      sweepPages size (refused d.id) (clock d.id) d.id (retentionLimits cfg (started d.id) d) fuel none s
    states ++ sweepRetention cfg size refused clock started fuel defs (states.getLastD s)

/-! ## Logs go first -/

section Order

variable {size : ℕ} {refused : ℕ → String → Bool} {clock : ℕ → ℤ} {id : ℕ} {lim : RetentionLimits}

def LogsFirst (runs : List RunRow) (s : Retained) : Prop := ∀ r ∈ runs, r ∉ s.db.runs → r.runID ∉ s.logs

lemma committed_deleteRuns (ids : List String) (now : ℤ) (db : DB) :
    committed (deleteRuns ids now) db = { db with
      runs := deleteWhere (deletable ids now db) db.runs
      queue :=
        deleteWhere (fun q => db.runs.any fun r => r.runID = q.runID && deletable ids now db r) db.queue } :=
  rfl

lemma sweepPages_invariant {P : Retained → Prop} {fuel : ℕ} {cursor : Option RetentionCandidate} {s t : Retained}
    (hlogs : ∀ s (ids : List String), P s → P { s with logs := s.logs.filter (· ∉ ids) })
    (hrows : ∀ s ids now, P s → (∀ id ∈ ids, id ∉ s.logs) → P { s with db := committed (deleteRuns ids now) s.db })
    (hs : P s) (ht : t ∈ sweepPages size refused clock id lim fuel cursor s) : P t := by
  induction fuel generalizing cursor s with
  | zero => simp [sweepPages] at ht
  | succ fuel ih =>
    rw [sweepPages] at ht
    cases hpage : retentionCandidates id lim (clock (2 * fuel + 1)) cursor size s.db with
    | none => simp [hpage] at ht
    | some page =>
      have hfirst := hlogs s (deletedLogs (refused fuel) (page.map (·.id))) hs
      have hsecond := hrows _ (deletedLogs (refused fuel) (page.map (·.id))) (clock (2 * fuel)) hfirst
        fun id hid hlog => by simp [hid] at hlog
      simp only [hpage] at ht
      split_ifs at ht with hempty hshort
      · simp at ht
      · simp only [List.mem_cons, List.not_mem_nil, or_false] at ht
        rcases ht with rfl | rfl
        · exact hfirst
        · exact hsecond
      · simp only [List.mem_cons] at ht
        rcases ht with rfl | rfl | ht
        · exact hfirst
        · exact hsecond
        · exact ih hsecond ht

lemma LogsFirst.sweepPages {runs : List RunRow} {fuel : ℕ} {cursor : Option RetentionCandidate} {s t : Retained}
    (hs : LogsFirst runs s) (ht : t ∈ sweepPages size refused clock id lim fuel cursor s) : LogsFirst runs t := by
  refine sweepPages_invariant (fun s ids hs r hr hgone hlog => ?_)
    (fun s ids now hs hids r hr hgone hlog => ?_) hs ht
  · exact hs r hr hgone (List.mem_filter.mp hlog).1
  · refine hs r hr (fun hrow => hgone ?_) hlog
    rw [committed_deleteRuns]
    refine mem_deleteWhere.mpr ⟨hrow, ?_⟩
    have hkept : r.runID ∉ ids := fun hid => hids _ hid hlog
    simp [deletable, hkept]

lemma LogsFirst.getLastD {runs : List RunRow} {s : Retained} {states : List Retained} (hs : LogsFirst runs s)
    (h : ∀ t ∈ states, LogsFirst runs t) : LogsFirst runs (states.getLastD s) := by
  rw [List.getLastD_eq_getLast?]
  cases hlast : states.getLast? with
  | none => exact hs
  | some t => exact h t (List.mem_of_getLast? hlast)

lemma LogsFirst.sweepRetention {cfg : StorageConfig} {refused : ℕ → ℕ → String → Bool} {clock : ℕ → ℕ → ℤ}
    {started : ℕ → ℤ} {fuel : ℕ} {defs : List RetentionDefinition} {runs : List RunRow} {s t : Retained}
    (hs : LogsFirst runs s) (ht : t ∈ sweepRetention cfg size refused clock started fuel defs s) :
    LogsFirst runs t := by
  induction defs generalizing s with
  | nil => simp [Daemon.sweepRetention] at ht
  | cons d defs ih =>
    rw [Daemon.sweepRetention, List.mem_append] at ht
    rcases ht with ht | ht
    · exact hs.sweepPages ht
    · exact ih (hs.getLastD fun _ => hs.sweepPages) ht

end Order

/-! ## What is left -/

section Exact

variable {size : ℕ} {clock : ℕ → ℤ} {id : ℕ} {lim : RetentionLimits} {now : ℤ} {s : Retained}

def follows (cursor : Option RunRow) (r : RunRow) : Bool :=
  RetentionCandidate.precedes (cursor.map RunRow.candidate) r

lemma follows_some (c r : RunRow) : follows (some c) r = c.newer r := by
  simp only [follows, RetentionCandidate.precedes, RunRow.candidate, RunRow.newer, Option.map_some,
    Option.all_some]
  congr 2
  exact decide_eq_decide.mpr eq_comm

lemma follows_history {db : DB} (hdb : (db.runs.map (·.runID)).Nodup) : Follows follows (db.history id) where
  start _ _ := rfl
  self x _ := (follows_some x x).trans (RunRow.newer_irrefl x)
  later := (DB.history_newest_first id hdb).imp fun h =>
    ⟨(follows_some _ _).trans h, (follows_some _ _).trans (RunRow.newer_asymm h)⟩

lemma retentionCandidates_eq {cursor : Option RunRow} (hsize : 0 < size) {db : DB} :
    retentionCandidates id lim now (cursor.map RunRow.candidate) size db =
      some ((page (eligible lim now db.idempotency) follows size cursor (db.history id)).map
      RunRow.candidate) := by
  rw [retentionCandidates, if_neg hsize.ne']
  rfl

lemma protectedRun_congr {now' : ℤ} {keys : List IdempotencyRow}
    (h : ∀ i ∈ keys, keyExpiry now' < i.createdUs ↔ keyExpiry now < i.createdUs) (r : RunRow) :
    protectedRun now' keys r = protectedRun now keys r := by
  rw [Bool.eq_iff_iff]
  simp only [protectedRun, List.any_eq_true, Bool.and_eq_true, decide_eq_true_eq]
  constructor
  all_goals rintro ⟨i, hi, hid, hlive⟩
  · exact ⟨i, hi, hid, (h i hi).1 hlive⟩
  · exact ⟨i, hi, hid, (h i hi).2 hlive⟩

lemma committed_page {db : DB} {p : List RunRow} (hdb : (db.runs.map (·.runID)).Nodup)
    (hp : ∀ r ∈ p, r ∈ db.history id ∧ protectedRun now db.idempotency r = false) :
    (committed (deleteRuns (deletedLogs (fun _ => false) ((p.map RunRow.candidate).map (·.id))) now) db).runs =
      db.runs.filter (· ∉ p) := by
  rw [committed_deleteRuns]
  refine List.filter_congr fun r hr => ?_
  rw [Bool.eq_iff_iff, Bool.not_eq_true', ← Bool.not_eq_true, decide_eq_true_eq, not_iff_not]
  simp only [deletable, deletedLogs, Bool.not_false, List.filter_true, List.contains_iff_mem, List.mem_eraseDups,
    List.mem_map, RunRow.candidate, Bool.and_eq_true, Bool.not_eq_true', exists_exists_and_eq_and]
  constructor
  · rintro ⟨⟨⟨x, hx, hid⟩, -⟩, -⟩
    exact List.inj_on_of_nodup_map hdb (DB.mem_history.mp (hp x hx).1).1 hr hid ▸ hx
  · intro hrp
    exact ⟨⟨⟨r, hrp, rfl⟩, (DB.mem_history.mp (hp r hrp).1).2.2⟩, (hp r hrp).2⟩

lemma eligible_clock {now' : ℤ} {keys : List IdempotencyRow}
    (h : ∀ i ∈ keys, keyExpiry now' < i.createdUs ↔ keyExpiry now < i.createdUs) :
    eligible lim now' keys = eligible lim now keys := by
  funext history r
  rw [eligible, eligible, protectedRun_congr h]

lemma sweepPages_runs {fuel : ℕ} {cursor : Option RunRow} (hsize : 0 < size)
    (hdb : (s.db.runs.map (·.runID)).Nodup)
    (hkeys : ∀ k, ∀ i ∈ s.db.idempotency, keyExpiry (clock k) < i.createdUs ↔ keyExpiry now < i.createdUs) :
    ((sweepPages size (fun _ _ => false) clock id lim fuel (cursor.map RunRow.candidate) s).getLastD s).db.runs =
      s.db.runs.filter fun r => r ∉ s.db.history id ∨
        r ∈ sweep (eligible lim now s.db.idempotency) follows size fuel cursor (s.db.history id) := by
  induction fuel generalizing cursor s with
  | zero =>
    refine (List.filter_eq_self.mpr fun r _ => ?_).symm
    exact decide_eq_true (Decidable.not_or_of_imp fun h => h)
  | succ fuel ih =>
    simp only [sweepPages, retentionCandidates_eq hsize, eligible_clock (hkeys _), sweep, List.map_eq_nil_iff,
      List.length_map]
    set p := page (eligible lim now s.db.idempotency) follows size cursor (s.db.history id) with hpage
    have hp : ∀ r ∈ p, r ∈ s.db.history id ∧ protectedRun (clock (2 * fuel)) s.db.idempotency r = false := by
      intro r hr
      obtain ⟨hmem, hgoes⟩ := mem_page hr
      rw [protectedRun_congr (hkeys _)]
      simp only [eligible, Bool.and_eq_true, Bool.not_eq_true'] at hgoes
      exact ⟨hmem, hgoes.2⟩
    have hruns := committed_page hdb hp
    set db' := committed (deleteRuns (deletedLogs (fun _ => false) ((p.map RunRow.candidate).map (·.id)))
      (clock (2 * fuel))) s.db with hdb'
    have hhistory : db'.history id = (s.db.history id).filter (· ∉ p) := DB.history_filter hdb hruns
    split_ifs with hempty hshort
    · refine (List.filter_eq_self.mpr fun r _ => ?_).symm
      exact decide_eq_true (Decidable.not_or_of_imp fun h => h)
    · simp only [List.getLastD_cons, List.getLastD_nil, hruns]
      refine List.filter_congr fun r _ => decide_eq_decide.mpr ?_
      simp only [List.mem_filter, decide_eq_true_eq]
      exact ⟨fun h => (Decidable.em _).elim (fun hr => .inr ⟨hr, h⟩) .inl,
        fun h hr => h.elim (· (hp r hr).1) (·.2 hr)⟩
    · have hdb'' : (db'.runs.map (·.runID)).Nodup := by
        rw [hruns]
        exact hdb.sublist (List.filter_sublist.map _)
      have hlast : (p.map RunRow.candidate).getLast? = p.getLast?.map RunRow.candidate := List.getLast?_map
      have hkeys' : db'.idempotency = s.db.idempotency := rfl
      simp only [List.getLastD_cons, hlast]
      rw [ih (s := ⟨db', _⟩) hdb'' hkeys, hruns, List.filter_filter]
      refine List.filter_congr fun r _ => ?_
      simp only [hhistory, hkeys']
      rw [← Bool.decide_and, decide_eq_decide]
      constructor
      · rintro ⟨hr | hr, hrp⟩
        · exact .inl fun hmem => hr (List.mem_filter.mpr ⟨hmem, decide_eq_true hrp⟩)
        · exact .inr hr
      · rintro (hr | hr)
        · exact ⟨.inl fun hmem => hr (List.mem_filter.mp hmem).1, fun hrp => hr (hp r hrp).1⟩
        · exact ⟨.inr hr, of_decide_eq_true (List.mem_filter.mp (mem_of_mem_sweep hr)).2⟩

lemma sweepPages_exact {fuel : ℕ} (hsize : 0 < size) (hdb : (s.db.runs.map (·.runID)).Nodup) (hdated : s.db.Dated)
    (hkeys : ∀ k, ∀ i ∈ s.db.idempotency, keyExpiry (clock k) < i.createdUs ↔ keyExpiry now < i.createdUs)
    (hfuel : s.db.runs.length < fuel) :
    ((sweepPages size (fun _ _ => false) clock id lim fuel none s).getLastD s).db.runs =
      s.db.runs.filter fun r => !(id = r.definitionID && expendable lim now s.db r) := by
  have hsorted := DB.history_newest_first id hdb
  have hended : ∀ r ∈ s.db.history id, r.endedUs.isSome = true := by
    intro r hr
    obtain ⟨hmem, -, hterminal⟩ := DB.mem_history.mp hr
    exact hdated r hmem hterminal
  have hlength : (s.db.history id).length < fuel := by
    rw [DB.history, List.length_insertionSort]
    exact (List.length_filter_le _ _).trans_lt hfuel
  rw [← Option.map_none (f := RunRow.candidate), sweepPages_runs hsize hdb hkeys,
    sweep_eq hsize (eligible_stable hsorted hended) (follows_history hdb)
      (hsorted.imp fun h heq => by simp [heq, RunRow.newer_irrefl] at h) hlength]
  refine List.filter_congr fun r hr => ?_
  rw [Bool.eq_iff_iff, decide_eq_true_eq, Bool.not_eq_true', List.mem_filter, Bool.not_eq_true',
    Bool.and_eq_false_iff, decide_eq_false_iff_not]
  by_cases hid : id = r.definitionID
  · subst hid
    by_cases hmem : r ∈ s.db.history r.definitionID
    · simp [hmem, eligible_history hdb hmem]
    · have hrunning : r.status.terminal = false :=
        Bool.eq_false_iff.mpr fun h => hmem (DB.mem_history.mpr ⟨hr, rfl, h⟩)
      simp [hmem, expendable, hrunning]
  · have hmem : r ∉ s.db.history id := fun h => hid (DB.mem_history.mp h).2.1.symm
    simp [hmem, hid]

lemma expendable_congr {db db' : DB} {r : RunRow} (hkeys : db'.idempotency = db.idempotency)
    (hruns : db'.terminalRuns r.definitionID = db.terminalRuns r.definitionID) :
    expendable lim now db' r = expendable lim now db r := by
  rw [expendable, expendable, DB.newerCount, DB.newerCount, hkeys, hruns]

end Exact

lemma getLastD_append {α : Type*} (xs ys : List α) (a : α) :
    (xs ++ ys).getLastD a = ys.getLastD (xs.getLastD a) := by
  induction xs generalizing a with
  | nil => rfl
  | cons x xs ih => rw [List.cons_append, List.getLastD_cons, List.getLastD_cons, ih]

lemma sweepRetention_exact {cfg : StorageConfig} {size fuel : ℕ} {clock : ℕ → ℕ → ℤ} {started : ℕ → ℤ} {now : ℤ}
    {defs : List RetentionDefinition} {s : Retained} (hsize : 0 < size) (hdb : (s.db.runs.map (·.runID)).Nodup)
    (hdated : s.db.Dated)
    (hkeys : ∀ id k, ∀ i ∈ s.db.idempotency, keyExpiry (clock id k) < i.createdUs ↔ keyExpiry now < i.createdUs)
    (hfuel : s.db.runs.length < fuel) (hdefs : (defs.map (·.id)).Nodup) :
    ((sweepRetention cfg size (fun _ _ _ => false) clock started fuel defs s).getLastD s).db.runs =
      s.db.runs.filter fun r => !(defs.any fun d =>
        d.id = r.definitionID && expendable (retentionLimits cfg (started d.id) d) now s.db r) := by
  induction defs generalizing s with
  | nil => simp [sweepRetention]
  | cons d defs ih =>
    obtain ⟨hfresh, hdefs⟩ := List.nodup_cons.mp hdefs
    set lim := retentionLimits cfg (started d.id) d
    set states := sweepPages size (fun _ _ => false) (clock d.id) d.id lim fuel none s
    have hfirst : (states.getLastD s).db.runs = _ := sweepPages_exact hsize hdb hdated (hkeys d.id) hfuel
    have hidempotency : (states.getLastD s).db.idempotency = s.db.idempotency := by
      rw [List.getLastD_eq_getLast?]
      cases hlast : states.getLast? with
      | none => rfl
      | some t =>
        exact sweepPages_invariant (P := fun t => t.db.idempotency = s.db.idempotency) (fun _ _ h => h)
          (fun _ _ _ h _ => h) rfl (List.mem_of_getLast? hlast)
    have hsublist : (states.getLastD s).db.runs.Sublist s.db.runs := by
      rw [hfirst]
      exact List.filter_sublist
    have hother : ∀ r : RunRow, r.definitionID ≠ d.id →
        (states.getLastD s).db.terminalRuns r.definitionID = s.db.terminalRuns r.definitionID := by
      intro r hr
      rw [DB.terminalRuns, DB.terminalRuns, hfirst, List.filter_filter]
      refine List.filter_congr fun x _ => ?_
      by_cases hx : x.definitionID = r.definitionID
      · have hxd : ¬ d.id = x.definitionID := fun h => hr (hx.symm.trans h.symm)
        simp [hxd]
      · simp [hx]
    rw [sweepRetention, getLastD_append, ih (hdb.sublist (hsublist.map _))
      (fun x hx => hdated x (hsublist.subset hx))
      (by rwa [hidempotency]) (hsublist.length_le.trans_lt hfuel) hdefs, hfirst, List.filter_filter]
    refine List.filter_congr fun r _ => ?_
    have hsame : ∀ d' ∈ defs,
        (d'.id = r.definitionID && expendable (retentionLimits cfg (started d'.id) d') now (states.getLastD s).db
          r) = (d'.id = r.definitionID && expendable (retentionLimits cfg (started d'.id) d') now s.db r) := by
      intro d' hd'
      by_cases hid : d'.id = r.definitionID
      · have hne : r.definitionID ≠ d.id := fun h => hfresh (List.mem_map.mpr ⟨d', hd', hid.trans h⟩)
        rw [expendable_congr hidempotency (hother r hne)]
      · simp [hid]
    have hany : (defs.any fun d' => d'.id = r.definitionID &&
        expendable (retentionLimits cfg (started d'.id) d') now (states.getLastD s).db r) =
        defs.any fun d' => d'.id = r.definitionID &&
          expendable (retentionLimits cfg (started d'.id) d') now s.db r := by
      rw [Bool.eq_iff_iff, List.any_eq_true, List.any_eq_true]
      exact exists_congr fun d' => and_congr_right fun hd' => by rw [hsame d' hd']
    rw [hany, List.any_cons, Bool.not_or, Bool.and_comm]

/-- After any history of the store, a sweep without failures deletes exactly the expendable runs of each
definition, whatever the size of its pages. In every state of a sweep, also of one with failures, a run whose row
was deleted has no logs. The keys that are live stay live during the sweep. -/
theorem retention_sweep_exact {specHash : Definition → String} {ops : List Op} {db : DB} {logs : List String}
    {cfg : StorageConfig} {size fuel : ℕ} {clock : ℕ → ℕ → ℤ} {started : ℕ → ℤ} {now : ℤ}
    {defs : List RetentionDefinition}
    (hdb : Library.Run (guarded (Step specHash) fun _ op => op.Dated) DB.empty ops db) (hsize : 0 < size)
    (hfuel : db.runs.length < fuel) (hdefs : (defs.map (·.id)).Nodup)
    (hkeys : ∀ id k, ∀ i ∈ db.idempotency, keyExpiry (clock id k) < i.createdUs ↔ keyExpiry now < i.createdUs) :
    ((sweepRetention cfg size (fun _ _ _ => false) clock started fuel defs ⟨db, logs⟩).getLastD ⟨db,
      logs⟩).db.runs = db.runs.filter (fun r => !(defs.any fun d =>
          d.id = r.definitionID && expendable (retentionLimits cfg (started d.id) d) now db r)) ∧
      ∀ refused, ∀ s ∈ sweepRetention cfg size refused clock started fuel defs ⟨db, logs⟩,
        ∀ r ∈ db.runs, r ∉ s.db.runs → r.runID ∉ s.logs := by
  have hids : (db.runs.map (·.runID)).Nodup :=
    (hdb.invariant (fun _ _ _ hstep => hstep.2.consistent) consistent_empty).runs
  refine ⟨sweepRetention_exact hsize hids (DB.Dated.of_run hdb) hkeys hfuel hdefs, fun refused s hs => ?_⟩
  exact LogsFirst.sweepRetention (fun r hr hgone => absurd hr hgone) hs

def threeRuns : DB :=
  { backupDefined with
    runs :=
      [runArgs (backupSkipped "r1" 1000), runArgs (backupSkipped "r2" 3000), runArgs (backupSkipped "r3" 2000)] }

theorem retention_sweep_exact_keep_one :
    ((sweepRetention ⟨1, 7⟩ 1 (fun _ _ _ => false) (fun _ _ => 0) (fun _ => 0) 4 [⟨1, 0, 0⟩]
      ⟨threeRuns, ["r1", "r3"]⟩).getLastD ⟨threeRuns, ["r1", "r3"]⟩).db.runs =
      [runArgs (backupSkipped "r2" 3000)] := by
  have hrun : Library.Run (guarded (Step fun _ => "hash") fun _ op => op.Dated) DB.empty
      [.putDefinition backup 0 "api" false 0, .create (backupSkipped "r1" 1000), .create (backupSkipped "r2" 3000),
        .create (backupSkipped "r3" 2000)] threeRuns :=
    .cons ⟨trivial, trivial, .inr ⟨_, rfl⟩⟩ <|
    .cons ⟨fun _ => rfl, by simp [Op.Issued, backupSkipped], .inr ⟨_, rfl⟩⟩ <|
    .cons ⟨fun _ => rfl, by simp [Op.Issued, backupSkipped], .inr ⟨_, rfl⟩⟩ <|
    .cons ⟨fun _ => rfl, by simp [Op.Issued, backupSkipped], .inr ⟨_, rfl⟩⟩ <|
    .nil _
  have hkeys : ∀ id k : ℕ, ∀ i ∈ threeRuns.idempotency, keyExpiry ((fun _ _ => 0) id k) < i.createdUs ↔
      keyExpiry 0 < i.createdUs := fun _ _ _ _ => Iff.rfl
  rw [(retention_sweep_exact hrun (by decide) (by decide) (by decide) hkeys).1]
  decide +kernel

end Minicrond.Daemon
