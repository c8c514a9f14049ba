import Minicrond.Library.LeastAfter
import Minicrond.Library.ShiftedClock
import Minicrond.Time.Calendar

/-! Time zones as `Zone` and `ZoneBounds` report them: a piecewise-constant offset whose
transitions and values are whole seconds. -/

namespace Minicrond.Time

open Minicrond.Library

structure Zone extends StepFunction where
  second_dvd_value : ∀ t, second ∣ value t
  second_dvd_break : ∀ s ∈ breaks, second ∣ s

namespace Zone

variable (Z : Zone)

def offset (t : ℤ) : ℤ := Z.value t / second

def wall (t : ℤ) : ℤ := Z.reading t

def fixed (seconds : ℤ) : Zone where
  toStepFunction := StepFunction.ofTable [] (seconds * second) (fun _ => 0)
  second_dvd_value _ := Dvd.intro_left seconds rfl
  second_dvd_break _ h := by simp [StepFunction.ofTable] at h

def utc : Zone := fixed 0

def ofTransitions (base : ℤ) (table : List (ℤ × ℤ)) : Zone where
  toStepFunction := StepFunction.ofTable (table.map (·.1 * second)) (base * second)
    (fun s => ((table.lookup (s / second)).getD base) * second)
  second_dvd_value t := by
    simp only [StepFunction.ofTable]
    cases (List.filter (· ≤ t) (table.map (·.1 * second))).max? <;> exact Dvd.intro_left _ rfl
  second_dvd_break s h := by
    simp only [StepFunction.ofTable, Set.mem_ofPred_eq, List.mem_map] at h
    obtain ⟨p, _, rfl⟩ := h
    exact Dvd.intro_left _ rfl

def WholeMinutes : Prop := ∀ t, minute ∣ Z.value t

def Forward (t : ℤ) : Prop := t ∈ Z.breaks ∧ Z.prior t < Z.value t

def FirstForward (t e : ℤ) : Prop := LeastAfter {e | Z.Forward e} t e

variable {Z}
variable {s t u : ℤ}

lemma value_eq (Z : Zone) (t : ℤ) : Z.value t = Z.offset t * second := by
  obtain ⟨k, hk⟩ := Z.second_dvd_value t
  simp only [offset, second] at *
  omega

lemma mem_ofTransitions {base : ℤ} {table : List (ℤ × ℤ)} :
    s ∈ (ofTransitions base table).breaks ↔ s ∈ table.map (·.1 * second) := Iff.rfl

lemma ofTransitions_value (base : ℤ) (table : List (ℤ × ℤ)) (t : ℤ) :
    ∃ o ∈ base :: table.map Prod.snd, (ofTransitions base table).value t = o * second := by
  simp only [ofTransitions, StepFunction.ofTable]
  cases (List.filter (· ≤ t) (table.map (·.1 * second))).max? with
  | none => exact ⟨base, List.mem_cons_self, rfl⟩
  | some s =>
    refine ⟨(table.lookup (s / second)).getD base, ?_, rfl⟩
    cases h : table.lookup (s / second) with
    | none => exact List.mem_cons_self
    | some o =>
      obtain ⟨l₁, l₂, rfl, _⟩ := List.lookup_eq_some_iff.mp h
      simp

instance (base : ℤ) (table : List (ℤ × ℤ)) : Decidable (ofTransitions base table).Separated :=
  inferInstanceAs (Decidable (∀ a ∈ table.map (·.1 * second), ∀ b ∈ table.map (·.1 * second), a < b →
    |(ofTransitions base table).drop a| < b - a ∧ |(ofTransitions base table).drop b| < b - a))

lemma notMem_fixed (seconds t : ℤ) : t ∉ (fixed seconds).breaks := List.not_mem_nil

lemma utc_wholeMinutes : utc.WholeMinutes := fun _ => ⟨0, rfl⟩

@[simp] lemma wall_utc (t : ℤ) : utc.wall t = t := by
  change t + 0 * second = t
  omega

@[simp] lemma wall_fixed (seconds t : ℤ) : (fixed seconds).wall t = t + seconds * second := rfl

lemma value_before (hs : s ∈ Z.breaks) : Z.value (s - second) = Z.prior s := by
  apply StepFunction.value_eq_prior (by simp only [second]; omega)
  intro e he hlt
  obtain ⟨a, ha⟩ := Z.second_dvd_break e he
  obtain ⟨b, hb⟩ := Z.second_dvd_break s hs
  simp only [second] at *
  omega

lemma second_dvd_drop (hs : s ∈ Z.breaks) : second ∣ Z.drop s := by
  simp only [StepFunction.drop]
  rw [← value_before hs]
  exact Int.dvd_sub (Z.second_dvd_value _) (Z.second_dvd_value _)

lemma second_dvd_of_wall (h : minute ∣ Z.wall t) : second ∣ t := by
  obtain ⟨a, ha⟩ := h
  obtain ⟨b, hb⟩ := Z.second_dvd_value t
  refine ⟨60 * a - b, ?_⟩
  simp only [wall, StepFunction.reading] at ha
  simp only [minute, second] at *
  omega

end Zone

end Minicrond.Time
