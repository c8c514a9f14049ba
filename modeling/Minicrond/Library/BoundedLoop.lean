import Minicrond.Library.LeastAfter

/-! A loop with a bound on its rounds that looks for the least element of a set of integers. A round either ends
the loop or moves to a later place, past no element of the set. -/

namespace Minicrond.Library

variable {σ ρ : Type*}

def boundedLoop (round : σ → σ ⊕ ρ) : ℕ → σ → Option ρ
  | 0, _ => none
  | n + 1, s =>
    match round s with
    | .inl s' => boundedLoop round n s'
    | .inr r => some r

structure Seeks (round : σ → σ ⊕ ρ) (S : Set ℤ) (ok : σ → Prop) (place : σ → ℤ) (value : ρ → ℤ) : Prop where
  found : ∀ s r, ok s → round s = .inr r → value r = place s ∧ place s ∈ S
  moved : ∀ s s', ok s → round s = .inl s' → ok s' ∧ place s ≤ place s' ∧ ∀ t ∈ S, place s ≤ t → place s' ≤ t

namespace Seeks

variable {round : σ → σ ⊕ ρ} {S : Set ℤ} {ok : σ → Prop} {place : σ → ℤ} {value : ρ → ℤ}

lemma least (h : Seeks round S ok place value) {n : ℕ} {s : σ} {r : ρ} (hs : ok s)
    (hr : boundedLoop round n s = some r) : IsLeast {t | t ∈ S ∧ place s ≤ t} (value r) := by
  induction n generalizing s with
  | zero => exact nomatch hr
  | succ n ih =>
    simp only [boundedLoop] at hr
    split at hr
    case h_1 s' hround =>
      obtain ⟨hs', hle, hskip⟩ := h.moved s s' hs hround
      obtain ⟨⟨hmem, hplace⟩, hleast⟩ := ih hs' hr
      exact ⟨⟨hmem, hle.trans hplace⟩, fun t ht => hleast ⟨ht.1, hskip t ht.1 ht.2⟩⟩
    case h_2 r' hround =>
      obtain rfl := Option.some.inj hr
      obtain ⟨hvalue, hmem⟩ := h.found s r' hs hround
      rw [hvalue]
      exact ⟨⟨hmem, le_rfl⟩, fun t ht => ht.2⟩

lemma finds (h : Seeks round S ok place value) {target : ℤ} (htarget : target ∈ S) {potential : σ → ℕ}
    (hlower : ∀ s s', ok s → round s = .inl s' → place s' ≤ target → potential s' < potential s)
    {n : ℕ} {s : σ} (hs : ok s) (hplace : place s ≤ target) (hn : potential s < n) :
    ∃ r, boundedLoop round n s = some r := by
  induction n generalizing s with
  | zero => exact nomatch hn
  | succ n ih =>
    simp only [boundedLoop]
    split
    case h_1 s' hround =>
      obtain ⟨hs', -, hskip⟩ := h.moved s s' hs hround
      have hplace' := hskip target htarget hplace
      have := hlower s s' hs hround hplace'
      exact ih hs' hplace' (by omega)
    case h_2 r hround => exact ⟨r, rfl⟩

end Seeks

end Minicrond.Library
