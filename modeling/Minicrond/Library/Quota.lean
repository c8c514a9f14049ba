import Mathlib.Algebra.BigOperators.Group.List.Basic
import Mathlib.Algebra.Order.Ring.Int

/-! The shortest beginning of a list whose sizes add up to a wanted amount, or the whole list if they do not. -/

namespace Minicrond.Library

variable {α : Type*} (size : α → ℕ)

def total (xs : List α) : ℕ := (xs.map size).sum

def quota : ℤ → List α → List α
  | _, [] => []
  | want, x :: xs => if want ≤ 0 then [] else x :: quota (want - size x) xs

variable {size} {want : ℤ} {xs ys : List α}

lemma total_cons (x : α) (xs : List α) : total size (x :: xs) = size x + total size xs := List.sum_cons

lemma total_append (xs ys : List α) : total size (xs ++ ys) = total size xs + total size ys := by
  rw [total, List.map_append, List.sum_append]
  rfl

lemma quota_of_nonpos (h : want ≤ 0) (xs : List α) : quota size want xs = [] := by
  cases xs with
  | nil => rfl
  | cons x xs => rw [quota, if_pos h]

lemma quota_isPrefix (want : ℤ) (xs : List α) : quota size want xs <+: xs := by
  induction xs generalizing want with
  | nil => exact List.prefix_rfl
  | cons x xs ih =>
    rw [quota]
    split
    case isTrue => exact List.nil_prefix
    case isFalse => exact (List.prefix_cons_inj x).2 (ih _)

lemma quota_reaches (want : ℤ) (xs : List α) :
    want ≤ total size (quota size want xs) ∨ quota size want xs = xs := by
  induction xs generalizing want with
  | nil => exact .inr rfl
  | cons x xs ih =>
    rw [quota]
    split
    case isTrue h => exact .inl h
    case isFalse =>
      refine (ih (want - size x)).imp (fun h => ?_) (congrArg (x :: ·))
      rw [total_cons]
      push_cast
      omega

lemma quota_minimal {m : ℕ} (hm : m < (quota size want xs).length) : (total size (xs.take m) : ℤ) < want := by
  induction xs generalizing want m with
  | nil => exact absurd hm (Nat.not_lt_zero m)
  | cons x xs ih =>
    rw [quota] at hm
    split at hm
    case isTrue => exact absurd hm (Nat.not_lt_zero m)
    case isFalse h =>
      cases m with
      | zero => exact not_le.1 h
      | succ m =>
        have := ih (Nat.lt_of_succ_lt_succ hm)
        rw [List.take_succ_cons, total_cons]
        push_cast
        omega

lemma quota_append_of_eq (h : quota size want xs = xs) (ys : List α) :
    quota size want (xs ++ ys) = xs ++ quota size (want - total size xs) ys := by
  induction xs generalizing want with
  | nil =>
    change quota size want ys = quota size (want - 0) ys
    rw [sub_zero]
  | cons x xs ih =>
    rw [quota] at h
    split at h
    case isTrue => cases h
    case isFalse hpos =>
      rw [List.cons_append, quota, if_neg hpos, ih (List.cons.inj h).2, total_cons, List.cons_append]
      push_cast
      rw [sub_sub]

lemma quota_append_of_ne (h : quota size want xs ≠ xs) (ys : List α) :
    quota size want (xs ++ ys) = quota size want xs := by
  induction xs generalizing want with
  | nil => exact absurd rfl h
  | cons x xs ih =>
    rw [List.cons_append, quota, quota]
    rw [quota] at h
    split
    case isTrue => rfl
    case isFalse hpos =>
      rw [if_neg hpos] at h
      rw [ih fun heq => h (congrArg (x :: ·) heq)]

end Minicrond.Library
