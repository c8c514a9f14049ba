import Mathlib.Data.List.Nodup
import Mathlib.Algebra.Order.Group.Nat

/-! Deleting from an ordered list page by page, where each page is selected from what the earlier
ones have left. -/

namespace Minicrond.Library

variable {α : Type*} {xs : List α}

section

variable (goes : List α → α → Bool) (after : Option α → α → Bool) (size : ℕ)

def page (cursor : Option α) (xs : List α) : List α := (xs.filter fun x => goes xs x && after cursor x).take size

def sweep [DecidableEq α] : ℕ → Option α → List α → List α
  | 0, _, xs => xs
  | fuel + 1, cursor, xs =>
    let p := page goes after size cursor xs
    if p = [] then xs
    else
      let rest := xs.filter (· ∉ p)
      if p.length < size then rest else sweep fuel p.getLast? rest

end

lemma mem_page {goes : List α → α → Bool} {after : Option α → α → Bool} {size : ℕ} {cursor : Option α}
    {x : α} (hx : x ∈ page goes after size cursor xs) : x ∈ xs ∧ goes xs x = true := by
  obtain ⟨hx, hgoes⟩ := List.mem_filter.mp (List.mem_of_mem_take hx)
  exact ⟨hx, (Bool.and_eq_true_iff.mp hgoes).1⟩

lemma mem_of_mem_sweep [DecidableEq α] {goes : List α → α → Bool} {after : Option α → α → Bool} {size fuel : ℕ}
    {cursor : Option α} {x : α} (hx : x ∈ sweep goes after size fuel cursor xs) : x ∈ xs := by
  induction fuel generalizing cursor xs with
  | zero => exact hx
  | succ fuel ih =>
    simp only [sweep] at hx
    split_ifs at hx
    · exact hx
    · exact (List.mem_filter.mp hx).1
    · exact (List.mem_filter.mp (ih hx)).1

def Stable (goes : List α → α → Bool) (all : List α) : Prop :=
  ∀ before rest, all = before ++ rest →
    ∀ x ∈ rest, goes (before.filter (fun y => !goes all y) ++ rest) x = goes all x

structure Follows (after : Option α → α → Bool) (all : List α) : Prop where
  start : ∀ x ∈ all, after none x = true
  self : ∀ x ∈ all, after (some x) x = false
  later : all.Pairwise fun x y => after (some x) y = true ∧ after (some y) x = false

lemma take_filter_split {g : α → Bool} {size : ℕ} (h : (xs.filter g).take size ≠ []) :
    ∃ before c rest, xs = before ++ c :: rest ∧ g c = true ∧ (xs.filter g).take size = before.filter g ++ [c] := by
  induction xs generalizing size with
  | nil => simp at h
  | cons a xs ih =>
    by_cases hnext : (xs.filter g).take (if g a = true then size - 1 else size) = []
    · cases ha : g a with
      | false =>
        simp only [ha, Bool.false_eq_true, ↓reduceIte] at hnext
        simp [ha, hnext] at h
      | true =>
        cases size with
        | zero => simp at h
        | succ n =>
          refine ⟨[], a, xs, rfl, ha, ?_⟩
          simp only [ha, ↓reduceIte, Nat.add_sub_cancel] at hnext
          simp [ha, hnext]
    · obtain ⟨before, c, rest, rfl, hc, hp⟩ := ih hnext
      refine ⟨a :: before, c, rest, rfl, hc, ?_⟩
      cases ha : g a with
      | false => simpa [List.filter_cons, ha] using hp
      | true =>
        cases size with
        | zero => simp at h
        | succ n => simpa [List.filter_cons, ha] using hp

section

variable {goes : List α → α → Bool} {after : Option α → α → Bool} {size : ℕ} {all : List α}

structure Between (goes : List α → α → Bool) (after : Option α → α → Bool) (all before rest : List α)
    (cursor : Option α) : Prop where
  split : all = before ++ rest
  done : ∀ x ∈ before, after cursor x = false
  coming : ∀ x ∈ rest, after cursor x = true

lemma Between.page_eq {before rest : List α} {cursor : Option α} (h : Between goes after all before rest cursor)
    (hstable : Stable goes all) :
    page goes after size cursor (before.filter (fun x => !goes all x) ++ rest) =
      (rest.filter (goes all)).take size := by
  have hbefore : ∀ x ∈ before.filter (fun x => !goes all x),
      (goes (before.filter (fun x => !goes all x) ++ rest) x && after cursor x) = false := by
    intro x hx
    rw [h.done x (List.mem_filter.mp hx).1, Bool.and_false]
  have hrest : ∀ x ∈ rest, (goes (before.filter (fun x => !goes all x) ++ rest) x &&
      after cursor x) = goes all x := by
    intro x hx
    rw [h.coming x hx, Bool.and_true, hstable before rest h.split x hx]
  rw [page, List.filter_append, List.filter_congr hrest, List.filter_eq_nil_iff.mpr (by simpa using hbefore),
    List.nil_append]

variable [DecidableEq α]

lemma filter_notMem_page (before mid rest : List α) (g : α → Bool) (hnodup : (before ++ (mid ++ rest)).Nodup) :
    (before.filter (fun x => !g x) ++ (mid ++ rest)).filter (· ∉ mid.filter g) =
      (before ++ mid).filter (fun x => !g x) ++ rest := by
  obtain ⟨-, htail, hdisjoint⟩ := List.nodup_append.mp hnodup
  obtain ⟨-, -, hdisjoint'⟩ := List.nodup_append.mp htail
  have hbefore : (before.filter fun x => !g x).filter (· ∉ mid.filter g) = before.filter fun x => !g x := by
    refine List.filter_eq_self.mpr fun x hx => ?_
    simp only [List.mem_filter, not_and, decide_eq_true_eq]
    exact fun hmid => absurd rfl (hdisjoint x (List.mem_filter.mp hx).1 x (by simp [hmid]))
  have hmid : mid.filter (· ∉ mid.filter g) = mid.filter fun x => !g x :=
    List.filter_congr fun x hx => by simp [hx]
  have hrest : rest.filter (· ∉ mid.filter g) = rest := by
    refine List.filter_eq_self.mpr fun x hx => ?_
    simp only [List.mem_filter, not_and, decide_eq_true_eq]
    exact fun hmid => absurd rfl (hdisjoint' x hmid x hx)
  rw [List.filter_append, List.filter_append, hbefore, hmid, hrest, List.filter_append, List.append_assoc]

lemma sweep_between (hsize : 0 < size) (hstable : Stable goes all) (hfollows : Follows after all)
    (hnodup : all.Nodup) {fuel : ℕ} {before rest : List α} {cursor : Option α}
    (h : Between goes after all before rest cursor) (hfuel : rest.length < fuel) :
    sweep goes after size fuel cursor (before.filter (fun x => !goes all x) ++ rest) =
      all.filter fun x => !goes all x := by
  induction fuel generalizing before rest cursor with
  | zero => omega
  | succ fuel ih =>
    simp only [sweep, h.page_eq hstable]
    split_ifs with hempty hshort
    · have hnone : rest.filter (goes all) = [] := by
        simpa [List.take_eq_nil_iff, hsize.ne'] using hempty
      have hkept : rest.filter (fun x => !goes all x) = rest :=
        List.filter_eq_self.mpr fun x hx => by simpa using List.filter_eq_nil_iff.mp hnone x hx
      rw [h.split, List.filter_append, ← h.split, hkept]
    · have hall : (rest.filter (goes all)).take size = rest.filter (goes all) :=
        List.take_of_length_le (by simp only [List.length_take] at hshort; omega)
      have hleft := filter_notMem_page before rest [] (goes all) (by simpa [← h.split] using hnodup)
      simp only [List.append_nil] at hleft
      rw [hall, hleft, ← h.split]
    · obtain ⟨mid, c, tail, rfl, hc, hp⟩ := take_filter_split hempty
      have hsplit : all = (before ++ (mid ++ [c])) ++ tail := by simp [h.split]
      have hpage : (mid ++ [c]).filter (goes all) = mid.filter (goes all) ++ [c] := by
        simp [List.filter_append, hc]
      have hleft := filter_notMem_page before (mid ++ [c]) tail (goes all)
        (by rwa [hsplit, List.append_assoc] at hnodup)
      rw [hp, ← hpage, List.append_cons mid c tail, hleft, hpage, List.getLast?_concat]
      refine ih ⟨hsplit, ?_, ?_⟩ (by simp at hfuel; omega)
      all_goals
        have hpair := hfollows.later
        rw [hsplit, ← List.append_assoc, List.append_assoc (before ++ mid), List.singleton_append] at hpair
        obtain ⟨-, htail, hcross⟩ := List.pairwise_append.mp hpair
      · intro x hx
        rcases List.mem_append.mp (by simpa [← List.append_assoc] using hx : x ∈ (before ++ mid) ++ [c])
          with hx | hx
        · exact (hcross x hx c List.mem_cons_self).2
        · obtain rfl := List.mem_singleton.mp hx
          exact hfollows.self x (by simp [hsplit])
      · exact fun x hx => ((List.pairwise_cons.mp htail).1 x hx).1

lemma sweep_eq (hsize : 0 < size) (hstable : Stable goes all) (hfollows : Follows after all) (hnodup : all.Nodup)
    {fuel : ℕ} (hfuel : all.length < fuel) :
    sweep goes after size fuel none all = all.filter fun x => !goes all x :=
  sweep_between hsize hstable hfollows hnodup ⟨(List.nil_append all).symm, by simp, hfollows.start⟩ hfuel

end

end Minicrond.Library
