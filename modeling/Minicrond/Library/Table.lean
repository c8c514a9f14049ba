import Mathlib.Data.List.Nodup

/-! Tables as lists of rows, with the two statements that change rows in place. -/

namespace Minicrond.Library

variable {α β : Type*} {p : α → Bool} {f : α → α} {rows : List α} {x : α}

def updateWhere (p : α → Bool) (f : α → α) (rows : List α) : List α := rows.map fun r => if p r then f r else r

def deleteWhere (p : α → Bool) (rows : List α) : List α := rows.filter fun r => !p r

lemma mem_updateWhere : x ∈ updateWhere p f rows ↔ ∃ r ∈ rows, (if p r then f r else r) = x := by
  simp [updateWhere]

lemma mem_deleteWhere : x ∈ deleteWhere p rows ↔ x ∈ rows ∧ p x = false := by
  simp [deleteWhere]

lemma map_updateWhere {g : α → β} (hf : ∀ r, g (f r) = g r) : (updateWhere p f rows).map g = rows.map g := by
  rw [updateWhere, List.map_map]
  apply List.map_congr_left
  intro r _
  simp only [Function.comp_apply]
  split_ifs
  · exact hf r
  · rfl

lemma updateWhere_congr {g : α → α} (h : ∀ r ∈ rows, p r = true → f r = g r) :
    updateWhere p f rows = updateWhere p g rows := by
  apply List.map_congr_left
  intro r hr
  split_ifs with hp
  · exact h r hr hp
  · rfl

lemma find?_updateWhere {q : α → Bool} (hq : ∀ r, q (f r) = q r) :
    (updateWhere p f rows).find? q = (rows.find? q).map fun r => if p r then f r else r := by
  rw [updateWhere, List.find?_map]
  congr 2
  funext r
  simp only [Function.comp_apply]
  split_ifs
  · exact hq r
  · rfl

lemma deleteWhere_sublist : (deleteWhere p rows).Sublist rows := List.filter_sublist

lemma find?_deleteWhere {q : α → Bool} (h : rows.find? q = some x) (hx : p x = false) :
    (deleteWhere p rows).find? q = some x := by
  rw [deleteWhere, List.find?_filter]
  induction rows with
  | nil => simp at h
  | cons a rows ih =>
    rw [List.find?_cons] at h ⊢
    cases hq : q a with
    | true =>
      rw [hq] at h
      obtain rfl : a = x := by simpa using h
      simp [hx]
    | false =>
      rw [hq] at h
      simpa [hq] using ih h

lemma nodup_append_fresh {key : α → β} (h : (rows.map key).Nodup) (hfresh : ∀ r ∈ rows, key r ≠ key x) :
    ((rows ++ [x]).map key).Nodup := by
  rw [List.map_append, List.nodup_append]
  refine ⟨h, List.nodup_singleton _, ?_⟩
  simpa using hfresh

end Minicrond.Library
