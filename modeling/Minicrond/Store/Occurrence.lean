import Minicrond.Store.Operations

/-! Scheduled occurrences: the unique index over the definition and the time of a scheduled run, and what the
operations of the store do to the rows under it. -/

namespace Minicrond.Store

open Minicrond.Library

abbrev Occurrence := ℕ × ℤ

def RunRow.occurrence (x : RunRow) : Option Occurrence :=
  if x.trigger = .schedule then x.scheduledForUs.map fun us => (x.definitionID, us) else none

lemma RunRow.occurrence_eq_some {x : RunRow} {k : Occurrence} :
    x.occurrence = some k ↔ x.trigger = .schedule ∧ x.definitionID = k.1 ∧ x.scheduledForUs = some k.2 := by
  rw [RunRow.occurrence]
  split_ifs with h
  · simp only [Option.map_eq_some_iff, Prod.ext_iff, h, true_and]
    constructor
    · rintro ⟨us, hus, hd, rfl⟩
      exact ⟨hd, hus⟩
    · rintro ⟨hd, hus⟩
      exact ⟨_, hus, hd, rfl⟩
  · simp [h]

lemma sameOccurrence_of_eq {x y : RunRow} {k : Occurrence} (hx : x.occurrence = some k)
    (hy : y.occurrence = some k) :
    sameOccurrence x y = true := by
  obtain ⟨hxt, hxd, hxs⟩ := RunRow.occurrence_eq_some.mp hx
  obtain ⟨hyt, hyd, hys⟩ := RunRow.occurrence_eq_some.mp hy
  simp [sameOccurrence, hxt, hxd, hxs, hyt, hyd, hys]

lemma DB.Admits.occurrence_ne {db : DB} {r : Run} {k : Occurrence} (h : db.Admits r)
    (hr : (runArgs r).occurrence = some k) {x : RunRow} (hx : x ∈ db.runs) : x.occurrence ≠ some k := by
  intro hk
  have := h.occurrence x hx
  rw [sameOccurrence_of_eq hr hk] at this
  cases this

inductive RunsEffect (op : Op) (db db' : DB) : Prop
  | keep (hr : db'.runs = db.runs)
  | insert (r : Run) (hop : op.inserts = some r) (row : RunRow) (hr : db'.runs = db.runs ++ [row])
      (hid : row.runID = r.id) (ho : row.occurrence = (runArgs r).occurrence) (hadmits : db.Admits r)
  | update (sel : RunRow → Bool) (f : RunRow → RunRow) (hr : db'.runs = updateWhere sel f db.runs)
      (hid : ∀ x, (f x).runID = x.runID) (ho : ∀ x, (f x).occurrence = x.occurrence)
      (hs : ∀ x, (f x).status ≠ .queued)
  | delete (sel : RunRow → Bool) (hr : db'.runs = deleteWhere sel db.runs)

section

variable {specHash : Definition → String} {op : Op} {db db' : DB}

lemma RunRow.Moves.occurrence {x y : RunRow} (h : x.Moves y) : y.occurrence = x.occurrence := by
  obtain ⟨-, hdefinition, htrigger, hscheduled, -⟩ :
      y.runID = x.runID ∧ y.definitionID = x.definitionID ∧ y.trigger = x.trigger ∧
        y.scheduledForUs = x.scheduledForUs ∧ y.queuedUs = x.queuedUs := by
          simpa [RunRow.identity] using h.identity
  rw [RunRow.occurrence, RunRow.occurrence, hdefinition, htrigger, hscheduled]

lemma Change.runsEffect (hends : op.Ends) (h : Change op db db') : RunsEffect op db db' := by
  cases h with
  | rest => exact .keep rfl
  | insert r keys hop hadmits =>
    refine .insert r ?_ _ rfl rfl rfl hadmits
    obtain ⟨rfl, _⟩ | ⟨_, _, _, rfl⟩ := hop
    · rfl
    · rfl
  | enqueue now later r idem lim unique keys hop hadmits => exact .insert r (hop ▸ rfl) _ rfl rfl rfl hadmits
  | leave reg ids sel f p hsel hp hf hs =>
    exact .update _ _ rfl (fun x => (hf x).runID) (fun x => (hf x).occurrence) hs
  | advance sel f hf hs => exact .update _ _ rfl (fun x => (hf x).runID) (fun x => (hf x).occurrence) (hs hends)
  | delete ids now hop sel => exact .delete _ rfl

lemma RunsEffect.of_commits (specHash : Definition → String) (op : Op) (hends : op.Ends)
    (h : op.Commits specHash db db') : RunsEffect op db db' := h.change.runsEffect hends

lemma Step.runsEffect (h : Step specHash db op db') : RunsEffect op db db' := by
  obtain ⟨hissued, rfl | h⟩ := h
  · exact .keep rfl
  · exact .of_commits specHash op hissued.ends h

end

structure DB.Indexed (db : DB) : Prop where
  ids : (db.runs.map (·.runID)).Nodup
  occurrences : ∀ x ∈ db.runs, ∀ y ∈ db.runs, ∀ k, x.occurrence = some k → y.occurrence = some k →
    x.runID = y.runID

def DB.Spent (db : DB) (k : Occurrence) (id : String) : Prop :=
  ∃ x ∈ db.runs, x.runID = id ∧ x.occurrence = some k ∧ x.status ≠ .queued

section

variable {op : Op} {db db' : DB} {k : Occurrence} {id : String}

lemma DB.indexed_empty : DB.empty.Indexed where
  ids := List.nodup_nil
  occurrences := by simp [DB.empty]

lemma DB.Admits.not_spent {r : Run} (h : db.Admits r) (hr : (runArgs r).occurrence = some k) :
    ¬ db.Spent k id := by
  rintro ⟨x, hx, _, hk, _⟩
  exact h.occurrence_ne hr hx hk

lemma DB.Indexed.not_spent (hdb : db.Indexed) {x : RunRow} (hx : x ∈ db.runs) (hk : x.occurrence = some k)
    (hs : x.status = .queued) : ¬ db.Spent k id := by
  rintro ⟨y, hy, _, hyk, hys⟩
  have := List.inj_on_of_nodup_map hdb.ids hy hx (hdb.occurrences y hy x hx k hyk hk)
  exact hys (this ▸ hs)

lemma RunsEffect.mem (h : RunsEffect op db db') {x : RunRow} (hx : x ∈ db'.runs) :
    (∃ y ∈ db.runs, y.runID = x.runID ∧ y.occurrence = x.occurrence) ∨
      ∃ r, op.inserts = some r ∧ db.Admits r ∧ x.runID = r.id ∧ x.occurrence = (runArgs r).occurrence := by
  cases h with
  | keep hr => exact .inl ⟨x, hr ▸ hx, rfl, rfl⟩
  | insert r hop row hr hid ho hadmits =>
    rw [hr, List.mem_append, List.mem_singleton] at hx
    rcases hx with hx | rfl
    · exact .inl ⟨x, hx, rfl, rfl⟩
    · exact .inr ⟨r, hop, hadmits, hid, ho⟩
  | update sel f hr hid ho =>
    rw [hr, mem_updateWhere] at hx
    obtain ⟨y, hy, rfl⟩ := hx
    refine .inl ⟨y, hy, ?_⟩
    split_ifs
    · exact ⟨(hid y).symm, (ho y).symm⟩
    · exact ⟨rfl, rfl⟩
  | delete sel hr =>
    rw [hr, mem_deleteWhere] at hx
    exact .inl ⟨x, hx.1, rfl, rfl⟩

lemma RunsEffect.ids (h : RunsEffect op db db') (hdb : (db.runs.map (·.runID)).Nodup) :
    (db'.runs.map (·.runID)).Nodup := by
  cases h with
  | keep hr => rwa [hr]
  | insert r hop row hr hid ho hadmits =>
    rw [hr]
    exact nodup_append_fresh hdb fun x hx => hid ▸ hadmits.fresh x hx
  | update sel f hr hid => rwa [hr, map_updateWhere hid]
  | delete sel hr =>
    rw [hr]
    exact (deleteWhere_sublist.map _).nodup hdb

lemma RunsEffect.indexed (h : RunsEffect op db db') (hdb : db.Indexed) : db'.Indexed where
  ids := h.ids hdb.ids
  occurrences x hx y hy k hxk hyk := by
    rcases h.mem hx with ⟨x', hx', hxid, hxo⟩ | ⟨r, hop, hadmits, hxid, hxo⟩ <;>
      rcases h.mem hy with ⟨y', hy', hyid, hyo⟩ | ⟨r', hop', hadmits', hyid, hyo⟩
    · rw [← hxid, ← hyid]
      exact hdb.occurrences x' hx' y' hy' k (hxo.trans hxk) (hyo.trans hyk)
    · exact (hadmits'.occurrence_ne (hyo ▸ hyk) hx' (hxo.trans hxk)).elim
    · exact (hadmits.occurrence_ne (hxo ▸ hxk) hy' (hyo.trans hyk)).elim
    · obtain rfl : r = r' := Option.some.inj (hop.symm.trans hop')
      rw [hxid, hyid]

lemma RunsEffect.spent (h : RunsEffect op db db') (hdb : db.Indexed)
    (hkept : ∀ x ∈ db.runs, x.occurrence = some k → ∃ y ∈ db'.runs, y.runID = x.runID) (hs : db.Spent k id) :
    db'.Spent k id := by
  obtain ⟨x, hx, hid, hk, hq⟩ := hs
  cases h with
  | keep hr => exact ⟨x, hr ▸ hx, hid, hk, hq⟩
  | insert r hop row hr => exact ⟨x, hr ▸ List.mem_append_left _ hx, hid, hk, hq⟩
  | update sel f hr hfid hfo hfs =>
    refine ⟨_, hr ▸ mem_updateWhere.mpr ⟨x, hx, rfl⟩, ?_⟩
    split_ifs
    · exact ⟨(hfid x).trans hid, (hfo x).trans hk, hfs x⟩
    · exact ⟨hid, hk, hq⟩
  | delete sel hr =>
    obtain ⟨y, hy, hyx⟩ := hkept x hx hk
    have hmem : y ∈ db.runs := (mem_deleteWhere.mp (hr ▸ hy)).1
    obtain rfl := List.inj_on_of_nodup_map hdb.ids hmem hx hyx
    exact ⟨y, hy, hid, hk, hq⟩

end

end Minicrond.Store
