import Mathlib.Data.List.Infix
import Mathlib.Tactic.Common

/-! Patterns over lists that are matched greedily with backtracking, and the global search and replacement with
them. A matcher returns what follows its match at the start of a list. -/

namespace Minicrond.Library

variable {α : Type*}

inductive Pattern (α : Type*) where
  | one (p : α → Bool)
  | many (p : α → Bool)
  | seq (r s : Pattern α)
  | alt (r s : Pattern α)

def skip (p : α → Bool) (k : List α → Option (List α)) : List α → Option (List α)
  | [] => k []
  | c :: cs => if p c then (skip p k cs).or (k (c :: cs)) else k (c :: cs)

namespace Pattern

def run : Pattern α → (List α → Option (List α)) → List α → Option (List α)
  | .one _, _, [] => none
  | .one p, k, c :: cs => if p c then k cs else none
  | .many p, k, xs => skip p k xs
  | .seq r s, k, xs => r.run (s.run k) xs
  | .alt r s, k, xs => (r.run k xs).or (s.run k xs)

def after (r : Pattern α) (xs : List α) : Option (List α) := r.run some xs

def Avoids (e : α) : Pattern α → Prop
  | .one p => p e = false
  | .many p => p e = false
  | .seq r s => r.Avoids e ∧ s.Avoids e
  | .alt r s => r.Avoids e ∧ s.Avoids e

end Pattern

section

variable {p : α → Bool} {k k' : List α → Option (List α)} {e : α} {xs ys rest : List α}

lemma skip_suffix (h : skip p k xs = some rest) : ∃ ys, ys <:+ xs ∧ k ys = some rest := by
  induction xs with
  | nil => exact ⟨[], List.suffix_rfl, h⟩
  | cons c cs ih =>
    rw [skip] at h
    split_ifs at h
    case pos =>
      obtain h | ⟨-, h⟩ := Option.or_eq_some_iff.mp h
      · obtain ⟨ys, hys, h⟩ := ih h
        exact ⟨ys, hys.trans (List.suffix_cons c cs), h⟩
      · exact ⟨_, List.suffix_rfl, h⟩
    case neg => exact ⟨_, List.suffix_rfl, h⟩

lemma skip_eq_dropWhile (h : ∀ c cs, p c = true → k (c :: cs) = none) (xs : List α) :
    skip p k xs = k (xs.dropWhile p) := by
  induction xs with
  | nil => rfl
  | cons c cs ih =>
    rw [skip, List.dropWhile_cons]
    split_ifs with hc
    · rw [h c cs hc, Option.or_none, ih]
    · rfl

lemma skip_append (hp : p e = false) (hk : ∀ zs, k' (zs ++ e :: ys) = (k zs).map (· ++ e :: ys)) (xs : List α) :
    skip p k' (xs ++ e :: ys) = (skip p k xs).map (· ++ e :: ys) := by
  induction xs with
  | nil =>
    simp only [List.nil_append, skip, hp]
    exact hk []
  | cons c cs ih =>
    rw [List.cons_append, skip, skip, ih, ← List.cons_append, hk]
    split_ifs
    · rw [Option.map_or]
    · rfl

namespace Pattern

variable {r : Pattern α}

lemma run_suffix (h : r.run k xs = some rest) : ∃ ys, ys <:+ xs ∧ k ys = some rest := by
  induction r generalizing k xs with
  | one p =>
    cases xs with
    | nil => cases h
    | cons c cs =>
      obtain ⟨-, h⟩ := Option.ite_none_right_eq_some.mp h
      exact ⟨cs, List.suffix_cons c cs, h⟩
  | many p => exact skip_suffix h
  | seq r s ihr ihs =>
    obtain ⟨ys, hys, h⟩ := ihr h
    obtain ⟨zs, hzs, h⟩ := ihs h
    exact ⟨zs, hzs.trans hys, h⟩
  | alt r s ihr ihs =>
    obtain h | ⟨-, h⟩ := Option.or_eq_some_iff.mp h
    · exact ihr h
    · exact ihs h

lemma run_append (hr : r.Avoids e) (hk : ∀ zs, k' (zs ++ e :: ys) = (k zs).map (· ++ e :: ys)) (xs : List α) :
    r.run k' (xs ++ e :: ys) = (r.run k xs).map (· ++ e :: ys) := by
  induction r generalizing k k' xs with
  | one p =>
    cases xs with
    | nil => simp [run, show p e = false from hr]
    | cons c cs =>
      rw [List.cons_append, run, run, hk]
      split_ifs <;> rfl
  | many p => exact skip_append hr hk xs
  | seq r s ihr ihs => exact ihr hr.1 (ihs hr.2 hk) xs
  | alt r s ihr ihs =>
    rw [run, run, ihr hr.1 hk xs, ihs hr.2 hk xs, Option.map_or]

lemma after_one_seq {s : Pattern α} {c : α} : ((Pattern.one p).seq s).after (c :: xs) =
    if p c then s.after xs else none := rfl

end Pattern

end

def Consumes (m : List α → Option (List α)) : Prop :=
  ∀ xs rest, m xs = some rest → ∃ c cs, xs = c :: cs ∧ rest <:+ cs

lemma Pattern.consumes_one_seq (p : α → Bool) (s : Pattern α) : Consumes ((Pattern.one p).seq s).after := by
  intro xs rest h
  cases xs with
  | nil => cases h
  | cons c cs =>
    obtain ⟨-, h⟩ := Option.ite_none_right_eq_some.mp h
    obtain ⟨ys, hys, hrest⟩ := Pattern.run_suffix h
    exact ⟨c, cs, rfl, Option.some.inj hrest ▸ hys⟩

def firstMatch (m : List α → Option (List α)) : List α → Option (List α × List α × List α)
  | [] => none
  | c :: cs =>
    match m (c :: cs) with
    | some rest => some ([], c :: cs, rest)
    | none => (firstMatch m cs).map fun (before, found, rest) => (c :: before, found, rest)

/-- All matches from left to right, each with the text between it and the one before, and the text
after the last. -/
def matchAll (m : List α → Option (List α)) : ℕ → List α → List (List α × List α) × List α
  | 0, xs => ([], xs)
  | n + 1, xs =>
    match firstMatch m xs with
    | none => ([], xs)
    | some (before, found, rest) =>
      let (ms, last) := matchAll m n rest
      ((before, found.take (found.length - rest.length)) :: ms, last)

def removeAll (m : List α → Option (List α)) (xs : List α) : List α :=
  let (ms, last) := matchAll m xs.length xs
  (ms.map Prod.fst).flatten ++ last

section

variable {m m' : List α → Option (List α)} {xs before found rest : List α}

lemma firstMatch_eq_some (h : firstMatch m xs = some (before, found, rest)) :
    xs = before ++ found ∧ found ≠ [] ∧ m found = some rest := by
  induction xs generalizing before with
  | nil => cases h
  | cons c cs ih =>
    rw [firstMatch] at h
    cases hm : m (c :: cs) with
    | some ys =>
      rw [hm] at h
      cases h
      exact ⟨rfl, List.cons_ne_nil _ _, hm⟩
    | none =>
      rw [hm] at h
      obtain ⟨⟨before', found', rest'⟩, hfirst, heq⟩ := Option.map_eq_some_iff.mp h
      cases heq
      obtain ⟨rfl, hne, hrest⟩ := ih hfirst
      exact ⟨rfl, hne, hrest⟩

lemma firstMatch_shorter (hm : Consumes m) (h : firstMatch m xs = some (before, found, rest)) :
    rest.length < xs.length := by
  obtain ⟨rfl, -, hrest⟩ := firstMatch_eq_some h
  obtain ⟨c, cs, rfl, hsuffix⟩ := hm _ _ hrest
  rw [List.length_append, List.length_cons]
  exact Nat.lt_add_left _ (Nat.lt_succ_of_le hsuffix.length_le)

lemma matchAll_fuel (hm : Consumes m) {n n' : ℕ} (hn : xs.length ≤ n) (hn' : xs.length ≤ n') :
    matchAll m n xs = matchAll m n' xs := by
  induction n generalizing n' xs with
  | zero =>
    obtain rfl := List.length_eq_zero_iff.mp (Nat.le_zero.mp hn)
    cases n' <;> rfl
  | succ n ih =>
    cases n' with
    | zero =>
      obtain rfl := List.length_eq_zero_iff.mp (Nat.le_zero.mp hn')
      rfl
    | succ n' =>
      rw [matchAll, matchAll]
      cases hs : firstMatch m xs with
      | none => rfl
      | some found =>
        obtain ⟨before, found, rest⟩ := found
        have hlt := firstMatch_shorter hm hs
        dsimp only
        rw [@ih rest n' (by omega) (by omega)]

lemma removeAll_of_firstMatch_none (h : firstMatch m xs = none) : removeAll m xs = xs := by
  cases xs with
  | nil => rfl
  | cons c cs => simp [removeAll, matchAll, h]

lemma removeAll_of_firstMatch (hm : Consumes m) (h : firstMatch m xs = some (before, found, rest)) :
    removeAll m xs = before ++ removeAll m rest := by
  have hlt := firstMatch_shorter hm h
  cases xs with
  | nil => cases h
  | cons c cs =>
    rw [removeAll, List.length_cons, matchAll, h]
    dsimp only
    rw [matchAll_fuel hm (Nat.le_of_lt_succ hlt) (le_refl rest.length), List.map_cons, List.flatten_cons,
      List.append_assoc]
    rfl

lemma removeAll_cons_of_some (hm : Consumes m) {c : α} {cs : List α} (h : m (c :: cs) = some rest) :
    removeAll m (c :: cs) = removeAll m rest := by
  have hfirst : firstMatch m (c :: cs) = some ([], c :: cs, rest) := by rw [firstMatch, h]
  rw [removeAll_of_firstMatch hm hfirst, List.nil_append]

lemma removeAll_cons_of_none (hm : Consumes m) {c : α} {cs : List α} (h : m (c :: cs) = none) :
    removeAll m (c :: cs) = c :: removeAll m cs := by
  cases hs : firstMatch m cs with
  | none =>
    have hfirst : firstMatch m (c :: cs) = none := by simp only [firstMatch, h, hs, Option.map_none]
    rw [removeAll_of_firstMatch_none hs, removeAll_of_firstMatch_none hfirst]
  | some found =>
    obtain ⟨before, found, rest⟩ := found
    have hfirst : firstMatch m (c :: cs) = some (c :: before, found, rest) := by
      simp only [firstMatch, h, hs, Option.map_some]
    rw [removeAll_of_firstMatch hm hs, removeAll_of_firstMatch hm hfirst, List.cons_append]

lemma removeAll_induction (hm : Consumes m) {motive : List α → Prop} (hnil : motive [])
    (hkeep : ∀ c cs, m (c :: cs) = none → motive cs → motive (c :: cs))
    (hremove : ∀ c cs rest, m (c :: cs) = some rest → rest <:+ cs → motive rest → motive (c :: cs)) (xs : List α) :
    motive xs := by
  induction hn : xs.length using Nat.strong_induction_on generalizing xs with
  | _ n ih =>
    cases xs with
    | nil => exact hnil
    | cons c cs =>
      rw [List.length_cons] at hn
      cases h : m (c :: cs) with
      | none => exact hkeep c cs h (ih cs.length (by omega) cs rfl)
      | some rest =>
        obtain ⟨c', cs', heq, hsuffix⟩ := hm _ _ h
        cases heq
        have hle := hsuffix.length_le
        exact hremove c cs rest h hsuffix (ih rest.length (by omega) rest rfl)

lemma removeAll_congr (hm : Consumes m) (hm' : Consumes m') (h : ∀ ys, ys <:+ xs → m ys = m' ys) :
    removeAll m xs = removeAll m' xs := by
  induction xs using removeAll_induction hm with
  | hnil => rfl
  | hkeep c cs hnone ih =>
    rw [removeAll_cons_of_none hm hnone, removeAll_cons_of_none hm' (h _ List.suffix_rfl ▸ hnone),
      ih fun ys hys => h ys (hys.trans (List.suffix_cons c cs))]
  | hremove c cs rest hsome hsuffix ih =>
    rw [removeAll_cons_of_some hm hsome, removeAll_cons_of_some hm' (h _ List.suffix_rfl ▸ hsome),
      ih fun ys hys => h ys (hys.trans (hsuffix.trans (List.suffix_cons c cs)))]

lemma removeAll_append (hm : Consumes m) {e : α} {ys : List α}
    (h : ∀ c cs, m (c :: cs ++ e :: ys) = (m (c :: cs)).map (· ++ e :: ys)) (xs : List α) :
    removeAll m (xs ++ e :: ys) = removeAll m xs ++ removeAll m (e :: ys) := by
  induction xs using removeAll_induction hm with
  | hnil => rfl
  | hkeep c cs hnone ih =>
    rw [removeAll_cons_of_none hm hnone, List.cons_append, List.cons_append,
      removeAll_cons_of_none hm (by rw [← List.cons_append, h, hnone, Option.map_none]), ih]
  | hremove c cs rest hsome hsuffix ih =>
    rw [removeAll_cons_of_some hm hsome, List.cons_append,
      removeAll_cons_of_some hm (by rw [← List.cons_append, h, hsome, Option.map_some]), ih]

end

end Minicrond.Library
