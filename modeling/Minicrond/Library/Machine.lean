import Mathlib.Logic.Relation

/-! Runs of a labelled transition relation and the rules that carry a property of
one step over to a whole run. -/

namespace Minicrond.Library

variable {σ ι : Type*}

inductive Run (R : σ → ι → σ → Prop) : σ → List ι → σ → Prop
  | nil (s : σ) : Run R s [] s
  | cons {s t u : σ} {i : ι} {is : List ι} : R s i t → Run R t is u → Run R s (i :: is) u

def guarded (R : σ → ι → σ → Prop) (G : σ → ι → Prop) (s : σ) (i : ι) (t : σ) : Prop :=
  G s i ∧ R s i t

namespace Run

variable {R : σ → ι → σ → Prop} {s t : σ} {is : List ι}

lemma invariant {P : σ → Prop} (hstep : ∀ s i t, R s i t → P s → P t) (h : Run R s is t) (hs : P s) : P t := by
  induction h with
  | nil => exact hs
  | cons he _ ih => exact ih (hstep _ _ _ he hs)

lemma append {u : σ} {js : List ι} (h : Run R s is t) (h' : Run R t js u) : Run R s (is ++ js) u := by
  induction h with
  | nil => exact h'
  | cons he _ ih => exact .cons he (ih h')

lemma of_append {js : List ι} (h : Run R s (is ++ js) t) : ∃ u, Run R s is u ∧ Run R u js t := by
  induction is generalizing s with
  | nil => exact ⟨s, .nil s, h⟩
  | cons i is ih =>
    cases h with
    | cons he h =>
      obtain ⟨u, hu, ht⟩ := ih h
      exact ⟨u, .cons he hu, ht⟩

lemma related {P : σ → Prop} {rel : σ → σ → Prop} (hrefl : ∀ s, P s → rel s s)
    (htrans : ∀ s t u, P t → rel s t → rel t u → rel s u) (hstep : ∀ s i t, R s i t → P s → P t ∧ rel s t)
    (h : Run R s is t) (hs : P s) : rel s t := by
  induction h with
  | nil => exact hrefl _ hs
  | cons he _ ih =>
    obtain ⟨hp, hr⟩ := hstep _ _ _ he hs
    exact htrans _ _ _ hp hr (ih hp)

lemma imp {R' : σ → ι → σ → Prop} (himp : ∀ s i t, R s i t → R' s i t) (h : Run R s is t) : Run R' s is t := by
  induction h with
  | nil => exact .nil _
  | cons he _ ih => exact .cons (himp _ _ _ he) ih

lemma of_labels {G : ι → Prop} (hG : ∀ i ∈ is, G i) (h : Run R s is t) : Run (guarded R fun _ => G) s is t := by
  induction h with
  | nil => exact .nil _
  | cons he _ ih =>
    obtain ⟨hi, his⟩ := List.forall_mem_cons.mp hG
    exact .cons ⟨hi, he⟩ (ih his)

lemma simulates {τ κ : Type*} (R' : τ → κ → τ → Prop) (rel : σ → τ → Prop)
    (hstep : ∀ s i t a, R s i t → rel s a → ∃ js b, Run R' a js b ∧ rel t b) (h : Run R s is t) {a : τ}
    (ha : rel s a) : ∃ js b, Run R' a js b ∧ rel t b := by
  induction h generalizing a with
  | nil => exact ⟨[], a, .nil a, ha⟩
  | cons he _ ih =>
    obtain ⟨js, b, hjs, hb⟩ := hstep _ _ _ _ he ha
    obtain ⟨ks, c, hks, hc⟩ := ih hb
    exact ⟨js ++ ks, c, hjs.append hks, hc⟩

end Run

end Minicrond.Library
