import Mathlib.Data.Prod.Lex
import Mathlib.Data.String.Basic
import Minicrond.Library.Keyset
import Minicrond.Store.QueueInvariant

/-! A page of the run list, and the part of a run row that no operation of the store changes. -/

namespace Minicrond.Store

open Minicrond.Library Minicrond.Time

inductive RunFilter
  | all
  | failed
  | scheduled
  | manual
  | active
deriving DecidableEq, Repr

def RunFilter.matches : RunFilter → RunRow → Bool
  | all, _ => true
  | failed, r => r.status = .failed || r.status = .timeout || r.status = .interrupted
  | scheduled, r => r.trigger = .schedule
  | manual, r => r.trigger = .manual
  | active, r => r.status = .queued || r.status = .pending || r.status = .running

namespace RunRow

def place (r : RunRow) : (ℤ ×ₗ String)ᵒᵈ := OrderDual.toDual (toLex (r.queuedUs, r.runID))

def listed (job : String) (filter : RunFilter) (r : RunRow) : Bool := (job = "" || r.job = job) && filter.matches r

def under (cursor : Option (ℤ × String)) (r : RunRow) : Bool :=
  cursor.all fun c => r.queuedUs < c.1 || (r.queuedUs = c.1 && r.runID < c.2)

end RunRow

def runsCursor (before : String) (db : DB) : Option (Option (ℤ × String)) :=
  if before = "" then some none
  else (db.runs.find? (·.runID = before)).map fun r => some (r.queuedUs, before)

-- ORDER BY queued_us DESC, run_id DESC
def DB.remaining (db : DB) (job : String) (filter : RunFilter) (cursor : Option (ℤ × String)) : List RunRow :=
  (db.runs.filter fun r => r.listed job filter && r.under cursor).insertionSort fun a b => a.place ≤ b.place

def runsPage (job : String) (filter : RunFilter) (limit : ℤ) (cursor : Option (ℤ × String)) (db : DB) :
    List RunRow :=
  let limit := min (max limit 1) 501
  (db.remaining job filter cursor).take limit.toNat

section Order

variable {a b r : RunRow} {db : DB}

lemma RunRow.place_lt :
    a.place < b.place ↔ b.queuedUs < a.queuedUs ∨ b.queuedUs = a.queuedUs ∧ b.runID < a.runID := by
  rw [RunRow.place, RunRow.place, OrderDual.toDual_lt_toDual, Prod.Lex.toLex_lt_toLex]

lemma RunRow.under_some {c : ℤ × String} :
    r.under (some c) = true ↔ r.queuedUs < c.1 ∨ r.queuedUs = c.1 ∧ r.runID < c.2 := by
  simp [RunRow.under]

lemma DB.places_nodup (h : Consistent db) : (db.runs.map RunRow.place).Nodup := by
  refine List.Nodup.of_map (fun p => (ofLex (OrderDual.ofDual p)).2) ?_
  rw [List.map_map]
  exact h.runs

lemma DB.mem_remaining {job : String} {filter : RunFilter} {cursor : Option (ℤ × String)} :
    r ∈ db.remaining job filter cursor ↔ r ∈ db.runs ∧ r.listed job filter = true ∧ r.under cursor = true := by
  rw [DB.remaining, List.mem_insertionSort, List.mem_filter, Bool.and_eq_true]

lemma DB.remaining_sorted (h : Consistent db) (job : String) (filter : RunFilter) (cursor : Option (ℤ × String)) :
    (db.remaining job filter cursor).Pairwise (·.place < ·.place) :=
  pairwise_sorted ((DB.places_nodup h).sublist (List.filter_sublist.map _))

end Order

def Op.Keyed (queued : String → ℤ) : Op → Prop
  | .create r | .admitIdempotent _ _ r _ | .enqueue _ _ r _ _ _ => r.id ≠ "" ∧ unixMicro r.queuedAt = queued r.id
  | _ => True

def RunRow.Keyed (queued : String → ℤ) (r : RunRow) : Prop := r.runID ≠ "" ∧ r.queuedUs = queued r.runID

def DB.Keyed (queued : String → ℤ) (db : DB) : Prop := ∀ r ∈ db.runs, r.Keyed queued

section Keyed

variable {specHash : Definition → String} {queued : String → ℤ} {op : Op} {db db' : DB}

lemma RunRow.Keyed.place_eq {a b : RunRow} (ha : a.Keyed queued) (hb : b.Keyed queued) (h : a.runID = b.runID) :
    a.place = b.place := by
  rw [RunRow.place, RunRow.place, ha.2, hb.2, h]

lemma RunRow.Moves.keyed {x y : RunRow} (h : x.Moves y) (hx : x.Keyed queued) : y.Keyed queued := by
  have hqueued : y.queuedUs = x.queuedUs := congrArg (·.2.2.2.2) h.identity
  rw [RunRow.Keyed, h.runID, hqueued]
  exact hx

lemma Change.keyed (h : Change op db db') (hop : op.Keyed queued) (hdb : db.Keyed queued) : db'.Keyed queued := by
  intro x hx
  rcases h.mem hx with hx | ⟨y, hy, hmoves⟩ | ⟨r, hr, hx⟩
  · exact hdb x hx
  · exact hmoves.keyed (hdb y hy)
  · have hkeyed : r.id ≠ "" ∧ unixMicro r.queuedAt = queued r.id := by
      cases op with
      | create | admitIdempotent | enqueue => exact Option.some.inj hr ▸ hop
      | _ => cases hr
    rcases hx with ⟨_, rfl⟩ | rfl
    · exact hkeyed
    · exact hkeyed

lemma Step.keyed (h : Step specHash db op db') (hop : op.Keyed queued) (hdb : db.Keyed queued) :
    db'.Keyed queued := by
  obtain ⟨-, rfl | hcommits⟩ := h
  · exact hdb
  · exact hcommits.change.keyed hop hdb

end Keyed

end Minicrond.Store
