import Mathlib.Data.List.Sort
import Mathlib.Data.List.Nodup
import Mathlib.Order.Basic

/-! Lists in the order of a key, read page by page under a cursor. -/

namespace Minicrond.Library

variable {α K : Type*} [LinearOrder K] {key : α → K} {xs : List α}

lemma filter_after_last (hsorted : xs.Pairwise (key · < key ·)) {cursor : K} {page rest : List α} {x : α}
    (h : xs.filter (cursor < key ·) = page ++ rest) (hlast : page.getLast? = some x) :
    xs.filter (key x < key ·) = rest := by
  obtain ⟨init, rfl⟩ := List.getLast?_eq_some_iff.1 hlast
  have hpage : (init ++ [x] ++ rest).Pairwise (key · < key ·) := h ▸ hsorted.filter _
  obtain ⟨hinit, -, hcross⟩ := List.pairwise_append.1 hpage
  have hx : x ∈ xs.filter (cursor < key ·) :=
    h ▸ List.mem_append_left _ (List.mem_append_right _ List.mem_cons_self)
  have hcursor : cursor < key x := of_decide_eq_true (List.mem_filter.1 hx).2
  have hafter : xs.filter (key x < key ·) = (xs.filter (cursor < key ·)).filter (key x < key ·) := by
    rw [List.filter_filter]
    refine List.filter_congr fun y _ => ?_
    rw [← Bool.decide_and]
    exact decide_eq_decide.2 ⟨fun hy => ⟨hy, hcursor.trans hy⟩, And.left⟩
  rw [hafter, h, List.filter_append, List.filter_eq_nil_iff.2, List.filter_eq_self.2, List.nil_append]
  · exact fun y hy => decide_eq_true (hcross x (List.mem_append_right _ List.mem_cons_self) y hy)
  · intro y hy
    rw [decide_eq_true_eq]
    rcases List.mem_append.1 hy with hy | hy
    · exact ((List.pairwise_append.1 hinit).2.2 y hy x List.mem_cons_self).asymm
    · rw [List.mem_singleton.1 hy]
      exact lt_irrefl _

lemma mem_take_or_after (hsorted : xs.Pairwise (key · < key ·)) {x : α} (hx : x ∈ xs) (n : ℕ) :
    x ∈ xs.take n ∨ ∀ y ∈ xs.take n, key y < key x := by
  rw [← List.take_append_drop n xs, List.pairwise_append] at hsorted
  rw [← List.take_append_drop n xs, List.mem_append] at hx
  exact hx.imp_right fun hx y hy => hsorted.2.2 y hy x hx

lemma pairwise_sorted (hkeys : (xs.map key).Nodup) :
    (xs.insertionSort (key · ≤ key ·)).Pairwise (key · < key ·) := by
  have : IsTrans α (key · ≤ key ·) := ⟨fun _ _ _ => le_trans⟩
  have : Std.Total fun a b : α => key a ≤ key b := ⟨fun _ _ => le_total _ _⟩
  have hnodup := (((List.perm_insertionSort (key · ≤ key ·) xs).map key).nodup_iff).2 hkeys
  exact ((List.pairwise_insertionSort _ xs).and (List.pairwise_map.1 hnodup)).imp
    fun ⟨hle, hne⟩ => hle.lt_of_ne hne

end Minicrond.Library
