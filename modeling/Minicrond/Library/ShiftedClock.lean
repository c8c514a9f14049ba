import Mathlib.Order.Bounds.Basic
import Mathlib.Data.Int.LeastGreatest
import Mathlib.Algebra.Order.Group.Abs
import Mathlib.Algebra.Order.Ring.Int

/-! A clock that shows `t + value t` at instant `t`, where `value` is constant between isolated
breaks. A downward break makes the clock repeat readings, an upward one makes it skip some. -/

namespace Minicrond.Library

structure StepFunction where
  value : ℤ → ℤ
  breaks : Set ℤ
  start : ℤ → Option ℤ
  stop : ℤ → Option ℤ
  start_spec : ∀ t s, start t = some s ↔ IsGreatest {s | s ∈ breaks ∧ s ≤ t} s
  stop_spec : ∀ t e, stop t = some e ↔ IsLeast {e | e ∈ breaks ∧ t < e} e
  const : ∀ {t u}, t ≤ u → (∀ s ∈ breaks, t < s → u < s) → value u = value t

namespace StepFunction

variable (f : StepFunction) {s t u e : ℤ}

def prior (s : ℤ) : ℤ := f.value (s - 1)

def drop (s : ℤ) : ℤ := f.prior s - f.value s

def reading (t : ℤ) : ℤ := t + f.value t

def Separated : Prop := ∀ a ∈ f.breaks, ∀ b ∈ f.breaks, a < b → |f.drop a| < b - a ∧ |f.drop b| < b - a

def Repeated (t : ℤ) : Prop := ∃ s, f.start t = some s ∧ t < s + f.drop s

variable {f}

lemma start_mem (h : f.start t = some s) : s ∈ f.breaks := ((f.start_spec t s).mp h).1.1

lemma start_le (h : f.start t = some s) : s ≤ t := ((f.start_spec t s).mp h).1.2

lemma le_start (h : f.start t = some s) (he : e ∈ f.breaks) (hle : e ≤ t) : e ≤ s :=
  ((f.start_spec t s).mp h).2 ⟨he, hle⟩

lemma stop_mem (h : f.stop t = some e) : e ∈ f.breaks := ((f.stop_spec t e).mp h).1.1

lemma lt_stop (h : f.stop t = some e) : t < e := ((f.stop_spec t e).mp h).1.2

lemma stop_le (h : f.stop t = some e) (hs : s ∈ f.breaks) (hlt : t < s) : e ≤ s :=
  ((f.stop_spec t e).mp h).2 ⟨hs, hlt⟩

lemma exists_start (hs : s ∈ f.breaks) (hle : s ≤ t) : ∃ r, f.start t = some r ∧ s ≤ r := by
  obtain ⟨r, hr, hg⟩ :=
    Int.exists_greatest_of_bdd (P := fun s => s ∈ f.breaks ∧ s ≤ t) ⟨t, fun z hz => hz.2⟩ ⟨s, hs, hle⟩
  exact ⟨r, (f.start_spec t r).mpr ⟨hr, fun z hz => hg z hz⟩, hg s ⟨hs, hle⟩⟩

lemma exists_stop (hs : s ∈ f.breaks) (hlt : t < s) : ∃ e, f.stop t = some e ∧ e ≤ s := by
  obtain ⟨e, he, hl⟩ :=
    Int.exists_least_of_bdd (P := fun s => s ∈ f.breaks ∧ t < s) ⟨t, fun z hz => hz.2.le⟩ ⟨s, hs, hlt⟩
  exact ⟨e, (f.stop_spec t e).mpr ⟨he, fun z hz => hl z hz⟩, hl s ⟨hs, hlt⟩⟩

lemma stop_eq_none (h : f.stop t = none) (hs : s ∈ f.breaks) : s ≤ t := by
  by_contra hlt
  obtain ⟨e, he, _⟩ := exists_stop hs (lt_of_not_ge hlt)
  simp [h] at he

lemma value_start (h : f.start t = some s) : f.value t = f.value s :=
  f.const (start_le h) fun e he hse => by
    by_contra hte
    have := le_start h he (by omega)
    omega

lemma value_eq_prior (hus : u < s) (hn : ∀ e ∈ f.breaks, u < e → s ≤ e) : f.value u = f.prior s :=
  (f.const (show u ≤ s - 1 by omega) fun e he hue => by have := hn e he hue; omega).symm

lemma value_of_stop (h : f.stop t = some e) : f.value t = f.prior e :=
  value_eq_prior (lt_stop h) fun _ hs hlt => stop_le h hs hlt

lemma reading_lt_prior (hf : f.Separated) (hs : s ∈ f.breaks) (hus : u < s) : f.reading u < s + f.prior s := by
  -- Induction on the distance from `u`, passing to the break before `s` when it lies beyond `u`.
  obtain ⟨n, hn⟩ : ∃ n : ℕ, s - u ≤ n := ⟨(s - u).toNat, by omega⟩
  induction n generalizing s with
  | zero => omega
  | succ n ih =>
    by_cases hb : ∃ e ∈ f.breaks, u < e ∧ e < s
    · obtain ⟨e, he, hue, hes⟩ := hb
      obtain ⟨r, hr, her⟩ := exists_start he (show e ≤ s - 1 by omega)
      have hrs := start_le hr
      have hlow := ih (start_mem hr) (by omega) (by omega)
      have hgap := (hf r (start_mem hr) s hs (by omega)).1
      have hval : f.prior s = f.value r := value_start hr
      have habs := le_abs_self (f.drop r)
      simp only [drop] at habs hgap
      omega
    · push Not at hb
      have hval : f.value u = f.prior s := value_eq_prior hus fun e he hue => hb e he hue
      simp only [reading]
      omega

lemma reading_lt (hf : f.Separated) (ht : ¬ f.Repeated t) (hut : u < t) : f.reading u < f.reading t := by
  by_cases hb : ∃ e ∈ f.breaks, u < e ∧ e ≤ t
  · obtain ⟨e, he, hue, het⟩ := hb
    obtain ⟨s, hs, hes⟩ := exists_start he het
    have hlow := reading_lt_prior hf (start_mem hs) (by omega : u < s)
    have hpast : s + f.drop s ≤ t := by
      by_contra hlt
      exact ht ⟨s, hs, by omega⟩
    have hval := value_start hs
    simp only [drop] at hpast
    simp only [reading] at *
    omega
  · push Not at hb
    have hval : f.value t = f.value u := f.const hut.le fun e he hue => hb e he hue
    simp only [reading]
    omega

lemma reading_first_copy (hf : f.Separated) (hs : f.start t = some s) (ht : t < s + f.drop s) :
    t - f.drop s < s ∧ f.reading (t - f.drop s) = f.reading t := by
  have hst := start_le hs
  have hlt : t - f.drop s < s := by omega
  have hval : f.value (t - f.drop s) = f.prior s := by
    apply value_eq_prior hlt
    intro e he hte
    by_contra hes
    have hgap := (hf e he s (start_mem hs) (by omega)).2
    have habs := le_abs_self (f.drop s)
    omega
  have hval' := value_start hs
  refine ⟨hlt, ?_⟩
  simp only [reading]
  rw [hval, hval']
  simp only [drop]
  omega

lemma first_reading_iff (hf : f.Separated) : (∀ u, u < t → f.reading u ≠ f.reading t) ↔ ¬ f.Repeated t := by
  constructor
  · rintro h ⟨s, hs, ht⟩
    obtain ⟨hlt, he⟩ := reading_first_copy hf hs ht
    have hst := start_le hs
    exact h (t - f.drop s) (by omega) he
  · intro h u hu
    exact (reading_lt hf h hu).ne

def ofTable (times : List ℤ) (base : ℤ) (entry : ℤ → ℤ) : StepFunction where
  value t := ((times.filter (· ≤ t)).max?).elim base entry
  breaks := {s | s ∈ times}
  start t := (times.filter (· ≤ t)).max?
  stop t := (times.filter (t < ·)).min?
  start_spec t s := by
    rw [List.max?_eq_some_iff]
    simp [IsGreatest, upperBounds]
  stop_spec t e := by
    rw [List.min?_eq_some_iff]
    simp [IsLeast, lowerBounds]
  const {t u} htu hn := by
    have he : times.filter (· ≤ u) = times.filter (· ≤ t) := by
      apply List.filter_congr
      intro s hs
      rw [decide_eq_decide]
      constructor
      · intro hsu
        by_contra hts
        have := hn s hs (by omega)
        omega
      · intro hst
        omega
    rw [he]

end StepFunction

end Minicrond.Library
