import Minicrond.Library.Machine
import Mathlib.Algebra.Order.Group.Nat

/-! Infinite executions of a labelled transition relation, in which nothing may happen for a while. -/

namespace Minicrond.Library

variable {σ ι : Type*}

structure Execution (R : σ → ι → σ → Prop) where
  state : ℕ → σ
  step : ∀ n, state (n + 1) = state n ∨ ∃ i, R (state n) i (state (n + 1))

namespace Execution

variable {R : σ → ι → σ → Prop} {e : Execution R} {n : ℕ}

lemma stays {P : ℕ → Prop} (hkeep : ∀ m, n ≤ m → P m → P (m + 1)) (hn : P n) : ∀ m, n ≤ m → P m := by
  intro m hm
  induction m, hm using Nat.le_induction with
  | base => exact hn
  | succ m hm ih => exact hkeep m hm ih

lemma eventually_of_rank {P Q : ℕ → Prop} (rank : ℕ → ℕ)
    (hfall : ∀ m, P m → ∃ k, m ≤ k ∧ (Q k ∨ P k ∧ rank k < rank m)) (hn : P n) : ∃ k, n ≤ k ∧ Q k := by
  induction hr : rank n using Nat.strong_induction_on generalizing n with
  | _ r ih =>
    obtain ⟨k, hk, hQ | ⟨hP, hlt⟩⟩ := hfall n hn
    · exact ⟨k, hk, hQ⟩
    · obtain ⟨j, hj, hQ⟩ := ih (rank k) (hr ▸ hlt) hP rfl
      exact ⟨j, hk.trans hj, hQ⟩

lemma invariant {P : σ → Prop} (hstep : ∀ s i t, R s i t → P s → P t) (hinit : P (e.state 0)) (n : ℕ) :
    P (e.state n) := by
  refine stays (P := fun n => P (e.state n)) (fun m _ hm => ?_) hinit n n.zero_le
  rcases e.step m with hsame | ⟨i, hi⟩
  · simpa only [hsame] using hm
  · exact hstep _ _ _ hi hm

lemma prepend {s t : σ} {is : List ι} (h : Run R s is t) (e : Execution R) (he : e.state 0 = t) :
    ∃ (e' : Execution R) (n : ℕ), e'.state 0 = s ∧ ∀ k, e'.state (n + k) = e.state k := by
  induction h with
  | nil s => exact ⟨e, 0, he, fun k => by rw [Nat.zero_add]⟩
  | @cons s t u i is hstep _ ih =>
    obtain ⟨e', n, hzero, hlater⟩ := ih he
    refine ⟨⟨fun k => k.casesOn s e'.state, fun k => ?_⟩, n + 1, rfl, fun k => ?_⟩
    · cases k with
      | zero =>
        refine .inr ⟨i, ?_⟩
        change R s i (e'.state 0)
        rwa [hzero]
      | succ k => exact e'.step k
    · rw [Nat.add_right_comm]
      exact hlater k

def constant (R : σ → ι → σ → Prop) (s : σ) : Execution R := ⟨fun _ => s, fun _ => .inl rfl⟩

lemma leaves {P : σ → Prop} (hn : P (e.state n)) (hlost : ∃ m, n ≤ m ∧ ¬ P (e.state m)) :
    ∃ m i, n ≤ m ∧ (∀ k, n ≤ k → k ≤ m → P (e.state k)) ∧ R (e.state m) i (e.state (m + 1)) ∧
      ¬ P (e.state (m + 1)) := by
  by_contra hnone
  obtain ⟨m, hm, hmlost⟩ := hlost
  have hall : ∀ m, n ≤ m → ∀ k, n ≤ k → k ≤ m → P (e.state k) := by
    refine stays (fun m hm ih k hk hkm => ?_) (fun k hk hkn => le_antisymm hkn hk ▸ hn)
    rcases hkm.lt_or_eq with hlt | rfl
    · exact ih k hk (by omega)
    · by_contra hleft
      rcases e.step m with hsame | ⟨i, hi⟩
      · exact hleft (hsame ▸ ih m hm le_rfl)
      · exact hnone ⟨m, i, hm, ih, hi, hleft⟩
  exact hmlost (hall m hm m hm le_rfl)

end Execution

end Minicrond.Library
