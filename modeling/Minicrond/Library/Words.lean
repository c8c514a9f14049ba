import Mathlib.Data.List.DropRight
import Mathlib.Logic.Function.Iterate
import Mathlib.Tactic.Common

/-! Text as a list of characters: white space at its ends, and the fields between white space. -/

namespace Minicrond.Library

def text (s : String) : List ℕ := s.toList.map Char.toNat

def inRange (a b : Char) (c : ℕ) : Bool := a.toNat ≤ c && c ≤ b.toNat

def isDigit (c : ℕ) : Bool := inRange '0' '9' c

variable {α : Type*} (space : α → Bool)

def trim (xs : List α) : List α := (xs.dropWhile space).rdropWhile space

def fields [DecidableEq α] (xs : List α) : List (List α) := (xs.splitOnP space).filter (· ≠ [])

def afterField (xs : List α) : List α := (xs.dropWhile space).dropWhile fun c => !space c

def skipField [DecidableEq α] (xs : List α) : List α :=
  (trim space xs).drop ((fields space (trim space xs)).headD []).length

section

variable {space} {p q : α → Bool} {c : α} {cs : List α}

lemma rdropWhile_cons_of_neg (h : q c = false) : (c :: cs).rdropWhile q = c :: cs.rdropWhile q := by
  rw [List.rdropWhile, List.reverse_cons, List.dropWhile_append]
  split_ifs with hnil
  · rw [List.dropWhile_cons, if_neg (by simp [h]), List.rdropWhile, List.isEmpty_iff.mp hnil]
    rfl
  · rw [List.reverse_append]
    rfl

lemma rdropWhile_cons_of_pos (h : q c = true) :
    (c :: cs).rdropWhile q = if cs.rdropWhile q = [] then [] else c :: cs.rdropWhile q := by
  rw [List.rdropWhile, List.reverse_cons, List.dropWhile_append]
  simp only [List.rdropWhile, List.reverse_eq_nil_iff, List.isEmpty_iff]
  split_ifs with hnil
  · rw [List.dropWhile_cons, if_pos h]
    rfl
  · rw [List.reverse_append]
    rfl

lemma dropWhile_rdropWhile (p q : α → Bool) (xs : List α) :
    (xs.rdropWhile q).dropWhile p = (xs.dropWhile p).rdropWhile q := by
  induction xs with
  | nil => rfl
  | cons c cs ih =>
    cases hp : p c with
    | true =>
      rw [List.dropWhile_cons_of_pos hp, ← ih]
      cases hq : q c with
      | false => rw [rdropWhile_cons_of_neg hq, List.dropWhile_cons_of_pos hp]
      | true =>
        rw [rdropWhile_cons_of_pos hq]
        split_ifs with hnil
        · rw [hnil]
        · rw [List.dropWhile_cons_of_pos hp]
    | false =>
      rw [List.dropWhile_cons_of_neg (by simp [hp])]
      cases hq : q c with
      | false => rw [rdropWhile_cons_of_neg hq, List.dropWhile_cons_of_neg (by simp [hp])]
      | true =>
        rw [rdropWhile_cons_of_pos hq]
        split_ifs with hnil
        · rfl
        · rw [List.dropWhile_cons_of_neg (by simp [hp])]

lemma trim_cons (h : space c = false) : ∃ cs', trim space (c :: cs) = c :: cs' := by
  rw [trim, List.dropWhile_cons_of_neg (by simp [h]), rdropWhile_cons_of_neg h]
  exact ⟨_, rfl⟩

lemma trim_rdropWhile (xs : List α) : trim space (xs.rdropWhile space) = trim space xs := by
  rw [trim, dropWhile_rdropWhile, List.rdropWhile_idempotent, trim]

lemma head_dropWhile {xs : List α} (h : c ∈ (xs.dropWhile p).head?) : p c = false := by
  have hnot := List.head?_dropWhile_not p xs
  rwa [Option.mem_def.mp h] at hnot

lemma drop_takeWhile (p : α → Bool) (xs : List α) : xs.drop (xs.takeWhile p).length = xs.dropWhile p := by
  conv_lhs =>
    arg 2
    rw [← List.takeWhile_append_dropWhile (p := p) (l := xs)]
  exact List.drop_left

lemma afterField_rdropWhile (xs : List α) :
    afterField space (xs.rdropWhile space) = (afterField space xs).rdropWhile space := by
  rw [afterField, dropWhile_rdropWhile, dropWhile_rdropWhile]
  rfl

lemma afterField_iterate_rdropWhile (n : ℕ) (xs : List α) :
    (afterField space)^[n] (xs.rdropWhile space) = ((afterField space)^[n] xs).rdropWhile space :=
  Function.Commute.iterate_left (f := afterField space) (g := List.rdropWhile space) afterField_rdropWhile n xs

variable [DecidableEq α]

lemma fields_head {xs : List α} (h : ∀ c ∈ xs.head?, space c = false) :
    (fields space xs).headD [] = xs.takeWhile fun c => !space c := by
  cases xs with
  | nil => rfl
  | cons c cs =>
    have hword : ∀ d ∈ (c :: cs).takeWhile (fun c => !space c), space d = false := by
      intro d hd
      simpa using List.mem_takeWhile_imp hd
    have hne : (c :: cs).takeWhile (fun c => !space c) ≠ [] := by
      rw [List.takeWhile_cons_of_pos (by simpa using h c rfl)]
      exact List.cons_ne_nil _ _
    have hsplit := List.takeWhile_append_dropWhile (p := fun c => !space c) (l := c :: cs)
    cases hrest : (c :: cs).dropWhile (fun c => !space c) with
    | nil =>
      rw [hrest, List.append_nil] at hsplit
      rw [hsplit] at hword
      rw [fields, List.splitOnP_eq_singleton hword]
      simpa using hsplit.symm
    | cons s rest =>
      have hs : space s = true := by
        have hhead : s ∈ ((c :: cs).dropWhile fun c => !space c).head? := by rw [hrest]; rfl
        simpa using head_dropWhile hhead
      rw [hrest] at hsplit
      conv_lhs => rw [← hsplit]
      rw [fields, List.splitOnP_append_cons_of_forall_mem hword s hs, List.filter_cons_of_pos (by simpa using hne)]
      rfl

lemma skipField_eq (xs : List α) : skipField space xs = (afterField space xs).rdropWhile space := by
  have hhead : ∀ c ∈ (trim space xs).head?, space c = false := by
    intro c hc
    rw [trim, ← dropWhile_rdropWhile] at hc
    exact head_dropWhile hc
  rw [skipField, fields_head hhead, drop_takeWhile, trim, dropWhile_rdropWhile]
  rfl

lemma trim_skipField_iterate (n : ℕ) (xs : List α) :
    trim space ((skipField space)^[n] xs) = trim space ((afterField space)^[n] xs) := by
  induction n generalizing xs with
  | zero => rfl
  | succ n ih =>
    rw [Function.iterate_succ_apply, Function.iterate_succ_apply, ih, skipField_eq, afterField_iterate_rdropWhile,
      trim_rdropWhile]

lemma trim_skipField_iterate_trim (n : ℕ) (xs : List α) :
    trim space ((skipField space)^[n] (trim space xs)) = trim space ((afterField space)^[n] xs) := by
  change trim space ((skipField space)^[n] ((xs.dropWhile space).rdropWhile space)) = _
  rw [trim_skipField_iterate, afterField_iterate_rdropWhile, trim_rdropWhile]
  cases n with
  | zero => exact congrArg (List.rdropWhile space) (List.dropWhile_idempotent _ _)
  | succ n =>
    rw [Function.iterate_succ_apply, Function.iterate_succ_apply]
    congr 2
    exact congrArg (List.dropWhile _) (List.dropWhile_idempotent _ _)

end

end Minicrond.Library
