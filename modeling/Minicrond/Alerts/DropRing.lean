import Mathlib.Data.List.Induction
import Mathlib.Data.List.Rotate
import Mathlib.Tactic.Common

/-! Alerts that are shed on the completion path are only noted in memory; the goroutine of `batch` records them.
The list keeps the newest of them in a ring. -/

namespace Minicrond.Alerts

structure Record where
  runID : String
  channel : String
  status : String
  attempts : ℕ
  reason : String
deriving DecidableEq

def maxDropObservations : ℕ := 256

structure DropRing where
  drops : List Record := []
  dropStart : ℕ := 0
  dropOverflow : ℕ := 0
deriving DecidableEq

structure Drop where
  runID : String
  name : String
  reason : String

def Drop.record (d : Drop) : Record := ⟨d.runID, d.name, "dropped", 0, d.reason⟩

structure Flush where
  discarded : Option ℕ
  records : List Record

structure Report where
  logged : List Record
  recorded : List Record

def reportAll (active : Bool) (records : List Record) : Report where
  -- admission may fail before a run exists
  logged := records.filter fun r => r.runID = "" && (r.status = "dropped" || r.status = "failed")
  recorded := if active then records.filter (·.runID ≠ "") else []

namespace DropRing

def observeDrop (r : DropRing) (d : Drop) : DropRing :=
  if r.drops.length < maxDropObservations then { r with drops := r.drops ++ [d.record] }
  else
    { drops := r.drops.set r.dropStart d.record
      dropStart := (r.dropStart + 1) % maxDropObservations
      dropOverflow := r.dropOverflow + 1 }

def flushDrops (r : DropRing) : Flush × DropRing :=
  let records := if r.dropStart > 0 then r.drops.drop r.dropStart ++ r.drops.take r.dropStart else r.drops
  (⟨if r.dropOverflow > 0 then some r.dropOverflow else none, records⟩, {})

end DropRing

inductive DropEvent
  | observe (d : Drop)
  | flush

def DropRing.step (r : DropRing) : DropEvent → DropRing
  | .observe d => r.observeDrop d
  | .flush => r.flushDrops.2

def note (seen : List Record) : DropEvent → List Record
  | .observe d => seen ++ [d.record]
  | .flush => []

def sinceFlush (events : List DropEvent) : List Record := events.foldl note []

section

variable {α : Type*}

lemma rotate_set_succ (xs : List α) (x : α) {i : ℕ} (hi : i < xs.length) :
    (xs.set i x).rotate (i + 1) = (xs.rotate i).tail ++ [x] := by
  have hdrop : xs.drop i ≠ [] := by simpa using hi
  rw [List.rotate_eq_drop_append_take (by simpa using Nat.succ_le_of_lt hi), List.rotate_eq_drop_append_take hi.le,
    List.drop_set_of_lt (Nat.lt_succ_self i), List.tail_append_of_ne_nil hdrop, List.tail_drop, List.append_assoc,
    List.take_add_one, List.take_set_of_le le_rfl]
  simp [hi]

def newest (n : ℕ) (xs : List α) : List α := xs.drop (xs.length - n)

lemma newest_of_le {n : ℕ} {xs : List α} (h : xs.length ≤ n) : newest n xs = xs := by
  rw [newest, Nat.sub_eq_zero_of_le h, List.drop_zero]

@[simp]
lemma length_newest (n : ℕ) (xs : List α) : (newest n xs).length = min xs.length n := by
  rw [newest, List.length_drop]
  omega

lemma newest_append {n : ℕ} {xs : List α} (x : α) (hn : 0 < n) (h : n ≤ xs.length) :
    newest n (xs ++ [x]) = (newest n xs).tail ++ [x] := by
  have hsub : (xs ++ [x]).length - n = xs.length - n + 1 := by
    rw [List.length_append, List.length_singleton, Nat.sub_add_comm h]
  rw [newest, newest, hsub, List.tail_drop, List.drop_append_of_le_length (by omega)]

end

structure DropRing.Holds (r : DropRing) (seen : List Record) : Prop where
  rotated : r.drops.rotate r.dropStart = newest maxDropObservations seen
  start : r.dropStart < maxDropObservations
  filling : seen.length < maxDropObservations → r.dropStart = 0
  overflow : r.dropOverflow = seen.length - maxDropObservations

namespace DropRing.Holds

variable {r : DropRing} {seen : List Record}

lemma empty : DropRing.Holds {} [] := ⟨by simp [newest], by decide, fun _ => rfl, rfl⟩

lemma length_drops (h : r.Holds seen) : r.drops.length = min seen.length maxDropObservations := by
  rw [← List.length_rotate, h.rotated, length_newest]

lemma observeDrop (h : r.Holds seen) (d : Drop) : (r.observeDrop d).Holds (seen ++ [d.record]) := by
  have hlength := h.length_drops
  rw [DropRing.observeDrop]
  split_ifs with hroom
  case pos =>
    have hseen : seen.length < maxDropObservations := by omega
    have hdrops : r.drops = seen := by
      simpa only [h.filling hseen, List.rotate_zero, newest_of_le hseen.le] using h.rotated
    have hsize : (seen ++ [d.record]).length ≤ maxDropObservations := by simpa using Nat.succ_le_of_lt hseen
    constructor
    case rotated => rw [h.filling hseen, List.rotate_zero, newest_of_le hsize, hdrops]
    case start => exact h.start
    case filling => exact fun _ => h.filling hseen
    case overflow =>
      rw [h.overflow]
      omega
  case neg =>
    have hfull : r.drops.length = maxDropObservations := by omega
    have hseen : maxDropObservations ≤ seen.length := by omega
    constructor
    case rotated =>
      dsimp only
      have hset : (r.drops.set r.dropStart d.record).length = maxDropObservations := by rw [List.length_set, hfull]
      rw [← hset, List.rotate_mod, rotate_set_succ _ _ (hfull ▸ h.start), h.rotated, hset,
        newest_append _ (by decide) hseen]
    case start => exact Nat.mod_lt _ (by decide)
    case filling =>
      intro hlt
      rw [List.length_append] at hlt
      omega
    case overflow =>
      rw [List.length_append, List.length_singleton, Nat.sub_add_comm hseen]
      exact congrArg Nat.succ h.overflow

lemma records (h : r.Holds seen) : r.flushDrops.1.records = newest maxDropObservations seen := by
  have hlength := h.length_drops
  dsimp only [flushDrops]
  split_ifs with hstart
  case pos =>
    -- only a full ring starts elsewhere
    have hfull : maxDropObservations ≤ seen.length := by
      by_contra hlt
      exact hstart.ne' (h.filling (not_le.mp hlt))
    have hle : r.dropStart ≤ r.drops.length := by
      have := h.start
      omega
    rw [← List.rotate_eq_drop_append_take hle, h.rotated]
  case neg => rw [← h.rotated, Nat.eq_zero_of_not_pos hstart, List.rotate_zero]

lemma step (h : r.Holds seen) (e : DropEvent) : (r.step e).Holds (note seen e) := by
  cases e with
  | observe d => exact h.observeDrop d
  | flush => exact empty

lemma steps (h : r.Holds seen) (events : List DropEvent) :
    (events.foldl DropRing.step r).Holds (events.foldl note seen) := by
  induction events generalizing r seen with
  | nil => exact h
  | cons e events ih => exact ih (h.step e)

end DropRing.Holds

/-- A flush after any sequence of drops and flushes hands on the newest drops since the last flush, oldest first,
and counts the others. -/
theorem flushDrops_newest (events : List DropEvent) :
    let r := events.foldl DropRing.step {}
    let seen := sinceFlush events
    r.flushDrops.1.records = seen.drop (seen.length - maxDropObservations) ∧
      r.flushDrops.1.records.length = min seen.length maxDropObservations ∧
      r.dropOverflow = seen.length - maxDropObservations ∧
      r.flushDrops.1.discarded = (if maxDropObservations < seen.length then
        some (seen.length - maxDropObservations) else none) ∧
      r.flushDrops.2 = {} ∧ sinceFlush (events ++ [.flush]) = [] := by
  intro r seen
  have h : r.Holds seen := DropRing.Holds.empty.steps events
  refine ⟨h.records, by rw [h.records, length_newest], h.overflow, ?_, rfl, ?_⟩
  · simp only [DropRing.flushDrops, h.overflow, gt_iff_lt, Nat.sub_pos_iff_lt]
  · rw [sinceFlush, List.foldl_append]
    rfl

lemma dropped_of_mem_sinceFlush {events : List DropEvent} {r : Record} (hr : r ∈ sinceFlush events) :
    r.status = "dropped" := by
  induction events using List.reverseRecOn with
  | nil => nomatch hr
  | append_singleton events e ih =>
    rw [sinceFlush, List.foldl_append] at hr
    cases e with
    | observe d =>
      obtain hr | rfl := (List.mem_append.mp hr).imp_right List.mem_singleton.mp
      · exact ih hr
      · rfl
    | flush => nomatch hr

lemma flush_reported (events : List DropEvent) {r : Record}
    (hr : r ∈ (events.foldl DropRing.step {}).flushDrops.1.records) :
    let report := reportAll true (events.foldl DropRing.step {}).flushDrops.1.records
    r ∈ report.logged ∨ r ∈ report.recorded := by
  have hseen : r ∈ sinceFlush events := by
    rw [(DropRing.Holds.empty.steps events).records] at hr
    exact List.mem_of_mem_drop hr
  by_cases hrun : r.runID = ""
  case pos => exact .inl (by simp [reportAll, hr, hrun, dropped_of_mem_sinceFlush hseen])
  case neg => exact .inr (by simp [reportAll, hr, hrun])

end Minicrond.Alerts
