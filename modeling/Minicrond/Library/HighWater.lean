import Mathlib.Data.List.Basic
import Mathlib.Data.List.Pairwise
import Mathlib.Order.MinMax

/-! Reading with a high-water mark: an element at or below the mark is passed over, any other is taken and raises
the mark. Pieces of an increasing list that leave no gap above the mark are read as the rest of that list. -/

namespace Minicrond.Library

variable {α : Type*} {key : α → ℕ} {m a b : ℕ} {xs ys all : List α}

def fresh (key : α → ℕ) : ℕ → List α → List α
  | _, [] => []
  | m, x :: xs => if key x ≤ m then fresh key m xs else x :: fresh key (key x) xs

def mark (key : α → ℕ) (m : ℕ) (xs : List α) : ℕ := xs.foldl (fun m x => max m (key x)) m

def Increasing (key : α → ℕ) (xs : List α) : Prop := xs.Pairwise fun x y => key x < key y

def above (key : α → ℕ) (m : ℕ) (xs : List α) : List α := xs.filter fun x => m < key x

def slice (key : α → ℕ) (xs : List α) (a b : ℕ) : List α := xs.filter fun x => a < key x && key x ≤ b

lemma mem_above {x : α} : x ∈ above key m xs ↔ x ∈ xs ∧ m < key x := by
  simp [above]

lemma mem_slice {x : α} : x ∈ slice key xs a b ↔ x ∈ xs ∧ a < key x ∧ key x ≤ b := by
  simp [slice]

lemma slice_self : slice key xs a a = [] := by
  rw [slice, List.filter_eq_nil_iff]
  intro x _
  simp only [Bool.and_eq_true, decide_eq_true_eq]
  omega

lemma fresh_append : fresh key m (xs ++ ys) = fresh key m xs ++ fresh key (mark key m xs) ys := by
  induction xs generalizing m with
  | nil => rfl
  | cons x xs ih =>
    simp only [List.cons_append, fresh, mark, List.foldl_cons]
    split_ifs with h
    · rw [max_eq_left h]
      exact ih
    · rw [max_eq_right (not_le.mp h).le, List.cons_append, ih]
      rfl

lemma fresh_congr {n : ℕ} (h : ∀ x ∈ xs, key x ≤ m ↔ key x ≤ n) : fresh key m xs = fresh key n xs := by
  induction xs with
  | nil => rfl
  | cons x xs ih =>
    obtain ⟨hx, hxs⟩ := List.forall_mem_cons.mp h
    simp only [fresh, hx, ih hxs]

lemma fresh_eq_above (h : Increasing key xs) : fresh key m xs = above key m xs := by
  induction xs generalizing m with
  | nil => rfl
  | cons x xs ih =>
    obtain ⟨hx, hxs⟩ := List.pairwise_cons.mp h
    simp only [fresh, above, List.filter_cons, decide_eq_true_eq]
    split_ifs with hle hlt hlt
    · omega
    · exact ih hxs
    · rw [ih hxs, above]
      congr 1
      apply List.filter_congr
      intro y hy
      have := hx y hy
      simp only [this, decide_true, true_eq_decide_iff]
      omega
    · omega

lemma le_mark {n : ℕ} : n ≤ mark key m xs ↔ n ≤ m ∨ ∃ x ∈ xs, n ≤ key x := by
  induction xs generalizing m with
  | nil => simp [mark]
  | cons x xs ih =>
    rw [mark, List.foldl_cons, ← mark, ih, le_max_iff]
    simp [or_assoc]

lemma Increasing.filter_split (h : Increasing key xs) (t : ℕ) :
    (xs.filter fun x => key x ≤ t) ++ (xs.filter fun x => t < key x) = xs := by
  induction xs with
  | nil => rfl
  | cons x xs ih =>
    obtain ⟨hx, hxs⟩ := List.pairwise_cons.mp h
    by_cases hle : key x ≤ t
    · rw [List.filter_cons_of_pos (by simpa using hle), List.filter_cons_of_neg (by simpa using hle),
        List.cons_append, ih hxs]
    · have hlow : xs.filter (fun y => decide (key y ≤ t)) = [] := by
        rw [List.filter_eq_nil_iff]
        intro y hy
        have := hx y hy
        simp only [decide_eq_true_eq]
        omega
      have hhigh : xs.filter (fun y => decide (t < key y)) = xs := by
        rw [List.filter_eq_self]
        intro y hy
        have := hx y hy
        simp only [decide_eq_true_eq]
        omega
      rw [List.filter_cons_of_neg (by simpa using hle), List.filter_cons_of_pos (by simpa using hle), hlow, hhigh]
      rfl

lemma Increasing.above (h : Increasing key xs) : Increasing key (above key m xs) := List.Pairwise.filter _ h

lemma Increasing.slice (h : Increasing key xs) : Increasing key (slice key xs a b) := List.Pairwise.filter _ h

lemma above_slice_append (h : Increasing key all) (ha : ∀ x ∈ all, key x ≤ a → key x ≤ m) :
    above key m (slice key all a b) ++ above key (max m b) all = above key m all := by
  have hlow : above key m (slice key all a b) = (above key m all).filter fun x => key x ≤ max m b := by
    rw [above, above, slice, List.filter_filter, List.filter_filter]
    apply List.filter_congr
    intro x hx
    have := ha x hx
    rw [Bool.eq_iff_iff]
    simp only [Bool.and_eq_true, decide_eq_true_eq, le_max_iff]
    omega
  have hhigh : above key (max m b) all = (above key m all).filter fun x => max m b < key x := by
    rw [above, above, List.filter_filter]
    apply List.filter_congr
    intro x _
    rw [Bool.eq_iff_iff]
    simp only [Bool.and_eq_true, decide_eq_true_eq, max_lt_iff]
    omega
  rw [hlow, hhigh]
  exact h.above.filter_split _

def Covers (key : α → ℕ) (all : List α) : ℕ → List (ℕ × ℕ) → Prop
  | m, [] => ∀ x ∈ all, key x ≤ m
  | m, (a, b) :: rest => (∀ x ∈ all, key x ≤ a → key x ≤ m) ∧ Covers key all (max m b) rest

lemma fresh_of_covers (h : Increasing key all) {pieces : List (ℕ × ℕ)} (hc : Covers key all m pieces) :
    fresh key m (pieces.flatMap fun p => slice key all p.1 p.2) = above key m all := by
  induction pieces generalizing m with
  | nil =>
    rw [Covers] at hc
    rw [List.flatMap_nil, fresh, above, eq_comm, List.filter_eq_nil_iff]
    simpa using hc
  | cons p pieces ih =>
    obtain ⟨a, b⟩ := p
    obtain ⟨ha, hc⟩ := hc
    rw [List.flatMap_cons, fresh_append, fresh_eq_above h.slice, ← above_slice_append (b := b) h ha]
    congr 1
    rw [← ih hc]
    apply fresh_congr
    -- the piece raises the mark to its last element, and no element lies between that and its bound
    intro x hx
    obtain ⟨_, _, hx⟩ := List.mem_flatMap.mp hx
    obtain ⟨hx, _⟩ := mem_slice.mp hx
    rw [le_mark, le_max_iff]
    constructor
    · rintro (hle | ⟨y, hy, hle⟩)
      · exact .inl hle
      · exact .inr (hle.trans (mem_slice.mp hy).2.2)
    · rintro (hle | hle)
      · exact .inl hle
      · by_cases hm : key x ≤ a
        · exact .inl (ha x hx hm)
        · exact .inr ⟨x, mem_slice.mpr ⟨hx, not_le.mp hm, hle⟩, le_rfl⟩

lemma Increasing.le_getLast (h : Increasing key xs) (hne : xs ≠ []) {x : α} (hx : x ∈ xs) :
    key x ≤ key (xs.getLast hne) := by
  have hle : xs.Pairwise fun x y => key x ≤ key y := h.imp fun hlt => hlt.le
  exact hle.rel_getLast_of_rel_getLast_getLast hx le_rfl

lemma above_getLast (h : Increasing key xs) (hsplit : above key m xs = ys ++ all) (hne : ys ≠ []) :
    above key (key (ys.getLast hne)) xs = all := by
  have hinc := hsplit ▸ h.above (m := m)
  obtain ⟨hys, _, hcross⟩ := List.pairwise_append.mp hinc
  have hmem : ys.getLast hne ∈ above key m xs := hsplit ▸ List.mem_append_left _ (List.getLast_mem hne)
  have hsame : above key (key (ys.getLast hne)) xs = above key (key (ys.getLast hne)) (above key m xs) := by
    rw [above, above, above, List.filter_filter]
    apply List.filter_congr
    intro x _
    have := (mem_above.mp hmem).2
    rw [Bool.eq_iff_iff]
    simp only [Bool.and_eq_true, decide_eq_true_eq]
    omega
  have htaken : above key (key (ys.getLast hne)) ys = [] := by
    rw [above, List.filter_eq_nil_iff]
    intro y hy
    have := Increasing.le_getLast hys hne hy
    simp only [decide_eq_true_eq]
    omega
  have hrest : above key (key (ys.getLast hne)) all = all := by
    rw [above, List.filter_eq_self]
    intro z hz
    simpa using hcross _ (List.getLast_mem hne) z hz
  rw [above] at htaken hrest
  rw [hsame, hsplit, above, List.filter_append, htaken, hrest, List.nil_append]

lemma slice_getLast (h : Increasing key xs) (hsplit : above key m xs = ys ++ all) (hne : ys ≠ []) (ha : a ≤ m) :
    slice key xs a (key (ys.getLast hne)) = slice key xs a m ++ ys := by
  have hinc := hsplit ▸ h.above (m := m)
  obtain ⟨hys, _, hcross⟩ := List.pairwise_append.mp hinc
  have hmem : ∀ y ∈ ys, m < key y := fun y hy => (mem_above.mp (hsplit ▸ List.mem_append_left all hy)).2
  have hlast := hmem _ (List.getLast_mem hne)
  have hlow : slice key (xs.filter fun x => key x ≤ m) a (key (ys.getLast hne)) = slice key xs a m := by
    rw [slice, slice, List.filter_filter]
    apply List.filter_congr
    intro x _
    rw [Bool.eq_iff_iff]
    simp only [Bool.and_eq_true, decide_eq_true_eq]
    omega
  have htaken : slice key ys a (key (ys.getLast hne)) = ys := by
    rw [slice, List.filter_eq_self]
    intro y hy
    have := hmem y hy
    have := Increasing.le_getLast hys hne hy
    simp only [Bool.and_eq_true, decide_eq_true_eq]
    omega
  have hrest : slice key all a (key (ys.getLast hne)) = [] := by
    rw [slice, List.filter_eq_nil_iff]
    intro z hz
    have := hcross _ (List.getLast_mem hne) z hz
    simp only [Bool.and_eq_true, decide_eq_true_eq]
    omega
  have hwhole := h.filter_split m
  rw [← above, hsplit] at hwhole
  calc slice key xs a (key (ys.getLast hne))
      = slice key ((xs.filter fun x => key x ≤ m) ++ (ys ++ all)) a (key (ys.getLast hne)) := by rw [hwhole]
    _ = slice key xs a m ++ ys := by
      rw [slice, List.filter_append, List.filter_append, ← slice, ← slice, ← slice, hlow, htaken, hrest,
        List.append_nil]

end Minicrond.Library
