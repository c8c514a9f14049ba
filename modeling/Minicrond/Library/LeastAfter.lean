import Mathlib.Data.Set.Card
import Mathlib.Order.Interval.Finset.Defs
import Mathlib.Data.Int.ConditionallyCompleteOrder
import Mathlib.Data.Int.Interval
import Mathlib.Data.Int.LeastGreatest
import Mathlib.Order.Interval.Set.Basic

/-! Elements of a set of integers that follow a given point, and how many of them
lie in a bounded window. -/

namespace Minicrond.Library

def LeastAfter (S : Set ℤ) (t x : ℤ) : Prop := IsLeast {u | u ∈ S ∧ t < u} x

noncomputable def countIn (S : Set ℤ) (a b : ℤ) : ℕ := (S ∩ Set.Ioc a b).ncard

namespace LeastAfter

variable {S : Set ℤ} {t u x y b : ℤ}

lemma mem (h : LeastAfter S t x) : x ∈ S := h.1.1

lemma lt (h : LeastAfter S t x) : t < x := h.1.2

lemma le_of_mem (h : LeastAfter S t x) (hy : y ∈ S) (ht : t < y) : x ≤ y := h.2 ⟨hy, ht⟩

lemma unique (h : LeastAfter S t x) (h' : LeastAfter S t y) : x = y := IsLeast.unique h h'

lemma advance (h : LeastAfter S t x) (htu : t ≤ u) (hux : u < x) : LeastAfter S u x :=
  ⟨⟨h.mem, hux⟩, fun _ hy => h.le_of_mem hy.1 (htu.trans_lt hy.2)⟩

lemma retreat (h : LeastAfter S u x) (htu : t ≤ u) (hn : ∀ y ∈ S, t < y → u < y) : LeastAfter S t x :=
  ⟨⟨h.mem, htu.trans_lt h.lt⟩, fun y hy => h.le_of_mem hy.1 (hn y hy.1 hy.2)⟩

lemma exists_of_mem (hx : x ∈ S) (ht : t < x) : ∃ y, LeastAfter S t y ∧ y ≤ x := by
  classical
  obtain ⟨y, hy, hl⟩ := Int.exists_least_of_bdd (P := fun u => u ∈ S ∧ t < u) ⟨t, fun z hz => hz.2.le⟩ ⟨x, hx, ht⟩
  exact ⟨y, ⟨hy, fun z hz => hl z hz⟩, hl x ⟨hx, ht⟩⟩

end LeastAfter

variable {S : Set ℤ} {a b x : ℤ}

lemma window_finite (S : Set ℤ) (a b : ℤ) : (S ∩ Set.Ioc a b).Finite :=
  (Set.finite_Ioc a b).inter_of_right S

lemma countIn_eq_zero : countIn S a b = 0 ↔ ∀ y ∈ S, a < y → b < y := by
  rw [countIn, Set.ncard_eq_zero (window_finite S a b), Set.eq_empty_iff_forall_notMem]
  constructor
  · intro h y hy ha
    by_contra hb
    exact h y ⟨hy, ha, by omega⟩
  · rintro h y ⟨hy, ha, hb⟩
    have := h y hy ha
    omega

lemma countIn_past (h : LeastAfter S a x) (hx : b < x) : countIn S a b = 0 :=
  countIn_eq_zero.mpr fun _ hy ha => hx.trans_le (h.le_of_mem hy ha)

lemma countIn_step (h : LeastAfter S a x) (hx : x ≤ b) : countIn S a b = countIn S x b + 1 := by
  have he : S ∩ Set.Ioc a b = insert x (S ∩ Set.Ioc x b) := by
    ext y
    constructor
    · rintro ⟨hy, ha, hb⟩
      rcases (h.le_of_mem hy ha).lt_or_eq with hlt | rfl
      · exact .inr ⟨hy, hlt, hb⟩
      · exact .inl rfl
    · rintro (rfl | ⟨hy, ha, hb⟩)
      · exact ⟨h.mem, h.lt, hx⟩
      · exact ⟨hy, h.lt.trans ha, hb⟩
  rw [countIn, he, Set.ncard_insert_of_notMem (by simp) (window_finite S x b), countIn]

lemma countIn_mono {T : Set ℤ} {a' b' : ℤ} (h : S ⊆ T) (ha : a' ≤ a) (hb : b ≤ b') :
    countIn S a b ≤ countIn T a' b' :=
  Set.ncard_le_ncard (Set.inter_subset_inter h (Set.Ioc_subset_Ioc ha hb)) (window_finite T a' b')

lemma countIn_skip {y : ℤ} (h : ∀ z ∈ S, x < z → y ≤ z) : countIn S (x - 1) b ≤ countIn S (y - 1) b + 1 := by
  refine (Set.ncard_le_ncard ?_ ((window_finite S (y - 1) b).insert x)).trans (Set.ncard_insert_le _ _)
  rintro z ⟨hz, hlow, hhigh⟩
  rcases (show x ≤ z by omega).lt_or_eq with hlt | rfl
  · have := h z hz hlt
    exact .inr ⟨hz, by omega, hhigh⟩
  · exact .inl rfl

lemma countIn_point (S : Set ℤ) (x : ℤ) : countIn S (x - 1) x ≤ 1 := by
  have hskip : countIn S (x - 1) x ≤ countIn S (x + 1 - 1) x + 1 := countIn_skip fun z _ hz => hz
  have hnone : countIn S (x + 1 - 1) x = 0 := countIn_eq_zero.mpr fun _ _ hlt => by omega
  omega

lemma countIn_greatest (hb : IsGreatest (S ∩ Set.Ioc a b) x) : countIn S a x = countIn S a b := by
  simp only [countIn]
  congr 1
  ext y
  constructor
  · rintro ⟨hy, ha, hx⟩
    exact ⟨hy, ha, hx.trans hb.1.2.2⟩
  · rintro ⟨hy, ha, hy'⟩
    exact ⟨hy, ha, hb.2 ⟨hy, ha, hy'⟩⟩

def grid (a d : ℤ) : Set ℤ := {t | ∃ k, 1 ≤ k ∧ t = a + k * d}

section Grid

variable {a d t x : ℤ}

lemma grid_least_before (hd : 0 < d) (ht : t < a) : LeastAfter (grid a d) t (a + d) := by
  refine ⟨⟨⟨1, le_rfl, by omega⟩, by omega⟩, ?_⟩
  rintro y ⟨⟨k, hk, rfl⟩, _⟩
  have := Int.mul_le_mul_of_nonneg_right hk hd.le
  omega

lemma grid_least (hd : 0 < d) (ht : a ≤ t) : LeastAfter (grid a d) t (a + ((t - a) / d + 1) * d) := by
  have hq : 0 ≤ (t - a) / d := Int.ediv_nonneg (by omega) hd.le
  have hlt := Int.lt_ediv_add_one_mul_self (t - a) hd
  refine ⟨⟨⟨(t - a) / d + 1, by omega, rfl⟩, by omega⟩, ?_⟩
  rintro y ⟨⟨k, hk, rfl⟩, hy⟩
  have hk' : (t - a) / d < k := Int.ediv_lt_of_lt_mul hd (by omega)
  have := Int.mul_le_mul_of_nonneg_right (show (t - a) / d + 1 ≤ k by omega) hd.le
  omega

lemma grid_next (hd : 0 < d) (hx : x ∈ grid a d) : LeastAfter (grid a d) x (x + d) := by
  obtain ⟨k, hk, rfl⟩ := hx
  have hk' : 0 ≤ k * d := Int.mul_nonneg (by omega) hd.le
  have h := grid_least (a := a) (t := a + k * d) hd (by omega)
  rwa [show a + k * d - a = k * d by omega, Int.mul_ediv_cancel _ hd.ne', Int.add_mul,
    Int.one_mul, ← Int.add_assoc] at h

lemma countIn_grid (hd : 0 < d) (hx : x ∈ grid a d) (hb : x ≤ b) : (countIn (grid a d) x b : ℤ) = (b - x) / d := by
  obtain ⟨n, hn⟩ : ∃ n : ℕ, (b - x) / d = n := ⟨((b - x) / d).toNat, by
    have := Int.ediv_nonneg (show 0 ≤ b - x by omega) hd.le
    omega⟩
  induction n generalizing x with
  | zero =>
    have hlt : b - x < d := by
      have := Int.lt_ediv_add_one_mul_self (b - x) hd
      rw [hn] at this
      simpa using this
    rw [countIn_past (grid_next hd hx) (by omega), hn]
  | succ n ih =>
    have hle : d ≤ b - x := by
      have hmul := Int.ediv_mul_le (b - x) hd.ne'
      have hone := Int.mul_le_mul_of_nonneg_right (show 1 ≤ (b - x) / d by omega) hd.le
      omega
    have hdiv : (b - (x + d)) / d = n := by
      have h := Int.sub_ediv_of_dvd (b - x) (dvd_refl d)
      rw [Int.ediv_self hd.ne', hn] at h
      rw [show b - (x + d) = b - x - d by omega, h]
      omega
    rw [countIn_step (grid_next hd hx) (by omega), Int.natCast_add, ih (grid_next hd hx).mem (by omega) hdiv, hdiv,
      hn]
    rfl

lemma grid_greatest (hd : 0 < d) (hf : LeastAfter (grid a d) t x) (hb : x ≤ b) :
    IsGreatest (grid a d ∩ Set.Ioc t b) (x + (b - x) / d * d) := by
  have ht := hf.lt
  have hq : 0 ≤ (b - x) / d * d := Int.mul_nonneg (Int.ediv_nonneg (by omega) hd.le) hd.le
  have hle := Int.ediv_mul_le (b - x) hd.ne'
  obtain ⟨k, hk, hx⟩ := hf.mem
  constructor
  · refine ⟨⟨k + (b - x) / d, ?_, ?_⟩, by omega, by omega⟩
    · have := Int.ediv_nonneg (show 0 ≤ b - x by omega) hd.le
      omega
    · rw [Int.add_mul]
      omega
  · rintro y ⟨⟨j, _, rfl⟩, _, hhigh⟩
    have hdiv : j - k ≤ (b - x) / d := by
      apply Int.le_ediv_of_mul_le hd
      rw [Int.sub_mul]
      omega
    have := Int.mul_le_mul_of_nonneg_right hdiv hd.le
    rw [Int.sub_mul] at this
    omega

end Grid

end Minicrond.Library
