import Minicrond.Library.Pattern
import Minicrond.Web.Text

/-! The log viewer turns escape sequences into segments with classes. Operating system commands (OSC), control
characters and control sequences (CSI) are not shown. -/

namespace Minicrond.Web

open Minicrond.Library

def esc : ℕ := 0x1b

def bel : ℕ := 0x07

structure AnsiSegment where
  text : Text
  classes : List String
deriving DecidableEq

def sgrClass : ℕ → Option String
  | 1 => some "ansi-bold"
  | 31 => some "ansi-red"
  | 32 => some "ansi-green"
  | 33 => some "ansi-yellow"
  | 34 => some "ansi-blue"
  | 35 => some "ansi-magenta"
  | 36 => some "ansi-cyan"
  | _ => none

def oscEnd : Pattern ℕ := .alt (.one (· = bel)) (.seq (.one (· = esc)) (.one (· = backslash)))

def oscPattern : Pattern ℕ :=
  .seq (.one (· = esc)) <| .seq (.one (· = ']'.toNat)) <| .seq (.many (· ≠ bel)) oscEnd

def isParameter : ℕ → Bool := inRange '0' '?'

def isIntermediate : ℕ → Bool := inRange ' ' '/'

def isFinal : ℕ → Bool := inRange '@' '~'

def csiPattern : Pattern ℕ :=
  .seq (.one (· = esc)) <| .seq (.one (· = '['.toNat)) <| .seq (.many isParameter) <|
    .seq (.many isIntermediate) (.one isFinal)

def isSgrChar (c : ℕ) : Bool := isDigit c || c = ';'.toNat

def sgrPattern : Pattern ℕ :=
  .seq (.one (· = esc)) <| .seq (.one (· = '['.toNat)) <|
    .seq (.many isSgrChar) (.one (· = 'm'.toNat))

def isControl (c : ℕ) : Bool :=
  c ≤ 0x08 || 0x0b ≤ c && c ≤ 0x1a || 0x1c ≤ c && c ≤ 0x1f || c = 0x7f

def stripCsi (t : Text) : Text := removeAll csiPattern.after t

def number (digits : Text) : ℕ := digits.foldl (fun n d => 10 * n + (d - '0'.toNat)) 0

def sgr (found : Text) (classes : List String) : List String :=
  let codes := (((found.drop 2).dropLast).splitOn ';'.toNat).map number
  if codes.contains 0 then [] else classes ++ codes.filterMap sgrClass

def segment (t : Text) (classes : List String) : List AnsiSegment := if t = [] then [] else [⟨t, classes⟩]

def segments : List (Text × Text) → Text → List String → List AnsiSegment
  | [], last, classes => segment (stripCsi last) classes
  | (before, found) :: ms, last, classes =>
    segment (stripCsi before) classes ++ segments ms last (sgr found classes)

def parseAnsi (input : Text) : List AnsiSegment :=
  let t := (removeAll oscPattern.after input).filter fun c => !isControl c
  let (ms, last) := matchAll sgrPattern.after t.length t
  segments ms last []

def shown (input : Text) : Text := ((parseAnsi input).map AnsiSegment.text).flatten

def terminated : Text → Option Text
  | [] => none
  | c :: cs =>
    if c = bel then some cs else if c = esc ∧ cs.head? = some backslash then some cs.tail else terminated cs

def oscSequence : Text → Option Text
  | e :: b :: t => if e = esc ∧ b = ']'.toNat then terminated t else none
  | _ => none

def csiSequence : Text → Option Text
  | e :: b :: t =>
    if e = esc ∧ b = '['.toNat then
      match (t.dropWhile isParameter).dropWhile isIntermediate with
      | c :: rest => if isFinal c then some rest else none
      | [] => none
    else none
  | _ => none

def visible (input : Text) : Text :=
  removeAll csiSequence ((removeAll oscSequence input).filter fun c => !isControl c)

lemma consumes_csi : Consumes csiPattern.after := Pattern.consumes_one_seq _ _

lemma not_isFinal_of_isIntermediate {c : ℕ} (h : isIntermediate c = true) : isFinal c = false := by
  simp only [isIntermediate, isFinal, inRange, Char.reduceToNat, Bool.and_eq_true, Bool.and_eq_false_iff,
    decide_eq_true_eq, decide_eq_false_iff_not] at h ⊢
  omega

lemma not_isFinal_of_isParameter {c : ℕ} (h : isParameter c = true) :
    isIntermediate c = false ∧ isFinal c = false := by
  simp only [isParameter, isIntermediate, isFinal, inRange, Char.reduceToNat, Bool.and_eq_true,
    Bool.and_eq_false_iff, decide_eq_true_eq, decide_eq_false_iff_not] at h ⊢
  omega

lemma isParameter_of_isSgrChar {c : ℕ} (h : isSgrChar c = true) : isParameter c = true ∧ c ≠ 'm'.toNat := by
  simp only [isSgrChar, isDigit, isParameter, inRange, Char.reduceToNat, Bool.and_eq_true, Bool.or_eq_true,
    decide_eq_true_eq] at h ⊢
  omega

lemma csiPattern_after (t : Text) : csiPattern.after t = csiSequence t := by
  have hfinal : ∀ c cs, isIntermediate c = true → (Pattern.one isFinal).run some (c :: cs) = none := by
    intro c cs hc
    simp only [Pattern.run, not_isFinal_of_isIntermediate hc, Bool.false_eq_true, if_false]
  have hintermediate : ∀ c cs, isParameter c = true →
      skip isIntermediate ((Pattern.one isFinal).run some) (c :: cs) = none := by
    intro c cs hc
    obtain ⟨hinter, hfin⟩ := not_isFinal_of_isParameter hc
    simp only [skip, Pattern.run, hinter, hfin, Bool.false_eq_true, if_false]
  obtain _ | ⟨e, _ | ⟨b, t⟩⟩ := t
  · rfl
  · simp [csiPattern, Pattern.after, Pattern.run, csiSequence]
  · simp only [csiPattern, Pattern.after, Pattern.run, csiSequence, decide_eq_true_eq, ite_and]
    rw [skip_eq_dropWhile hintermediate, skip_eq_dropWhile hfinal]
    cases (t.dropWhile isParameter).dropWhile isIntermediate <;> rfl

lemma dropWhile_dropWhile_of_imp {α : Type*} {p q : α → Bool} (h : ∀ c, p c = true → q c = true) (xs : List α) :
    (xs.dropWhile p).dropWhile q = xs.dropWhile q := by
  induction xs with
  | nil => rfl
  | cons c cs ih =>
    rw [List.dropWhile_cons]
    split_ifs with hc
    · rw [ih, List.dropWhile_cons, if_pos (h c hc)]
    · rfl

lemma csiSequence_of_sgr {t rest : Text} (h : sgrPattern.after t = some rest) :
    ∃ t', t = esc :: t' ∧ csiSequence t = some rest := by
  have hrun : ∀ c cs, isSgrChar c = true → (Pattern.one (· = 'm'.toNat)).run some (c :: cs) = none := by
    intro c cs hc
    simp only [Pattern.run, (isParameter_of_isSgrChar hc).2, decide_false, Bool.false_eq_true, if_false]
  obtain _ | ⟨e, _ | ⟨b, t⟩⟩ := t
  · cases h
  · simp [sgrPattern, Pattern.after, Pattern.run] at h
  · simp only [sgrPattern, Pattern.after, Pattern.run, decide_eq_true_eq, Option.ite_none_right_eq_some] at h
    obtain ⟨rfl, rfl, h⟩ := h
    rw [skip_eq_dropWhile hrun] at h
    refine ⟨_, rfl, ?_⟩
    cases hm : t.dropWhile isSgrChar with
    | nil =>
      rw [hm] at h
      cases h
    | cons c cs =>
      rw [hm] at h
      obtain ⟨hc, h⟩ := Option.ite_none_right_eq_some.mp h
      obtain rfl : c = 'm'.toNat := by simpa using hc
      obtain rfl := Option.some.inj h
      rw [csiSequence, if_pos ⟨rfl, rfl⟩, ← dropWhile_dropWhile_of_imp fun c hc => (isParameter_of_isSgrChar hc).1,
        hm]
      rfl

lemma csiPattern_append (c : ℕ) (cs ys : Text) :
    csiPattern.after (c :: cs ++ esc :: ys) = (csiPattern.after (c :: cs)).map (· ++ esc :: ys) := by
  rw [List.cons_append, csiPattern, Pattern.after_one_seq, Pattern.after_one_seq]
  split_ifs
  · exact Pattern.run_append (by simp [Pattern.Avoids]; decide) (fun _ => rfl) cs
  · rfl

lemma stripCsi_sgr {before found rest : Text} (h : sgrPattern.after found = some rest) :
    stripCsi (before ++ found) = stripCsi before ++ stripCsi rest := by
  obtain ⟨t, rfl, hcsi⟩ := csiSequence_of_sgr h
  rw [← csiPattern_after] at hcsi
  rw [stripCsi, removeAll_append consumes_csi (fun c cs => csiPattern_append c cs t),
    removeAll_cons_of_some consumes_csi hcsi]
  rfl

lemma text_segment (t : Text) (classes : List String) :
    ((segment t classes).map AnsiSegment.text).flatten = t := by
  rw [segment]
  split_ifs with ht
  · exact ht.symm
  · exact List.append_nil t

lemma text_segments (t : Text) (classes : List String) (n : ℕ) :
    ((segments (matchAll sgrPattern.after n t).1 (matchAll sgrPattern.after n t).2 classes).map
      AnsiSegment.text).flatten = stripCsi t := by
  induction n generalizing t classes with
  | zero => exact text_segment ..
  | succ n ih =>
    rw [matchAll]
    cases h : firstMatch sgrPattern.after t with
    | none => exact text_segment ..
    | some found =>
      obtain ⟨before, found, rest⟩ := found
      obtain ⟨rfl, -, hrest⟩ := firstMatch_eq_some h
      rw [stripCsi_sgr hrest]
      dsimp only
      rw [segments, List.map_append, List.flatten_append, text_segment, ih]

def escTerminated : Text → Option Text
  | [] => none
  | c :: cs =>
    if c = bel then none else if c = esc ∧ cs.head? = some backslash then some cs.tail else escTerminated cs

def LastTerminated (input : Text) : Prop :=
  ∀ t ∈ input.tails, t.take 2 = [esc, ']'.toNat] → ∀ rest ∈ escTerminated (t.drop 2), terminated rest = none
deriving Decidable

lemma oscEnd_run_cons (c : ℕ) (cs : Text) : oscEnd.run some (c :: cs) =
    if c = bel then some cs else if c = esc ∧ cs.head? = some backslash then some cs.tail else none := by
  by_cases hbel : c = bel
  · simp [oscEnd, Pattern.run, hbel]
  · cases cs with
    | nil => simp [oscEnd, Pattern.run, hbel]
    | cons d ds => simp [oscEnd, Pattern.run, hbel, ite_and]

lemma escTerminated_eq_none {t : Text} (h : terminated t = none) : escTerminated t = none := by
  induction t with
  | nil => rfl
  | cons c cs ih =>
    rw [terminated] at h
    rw [escTerminated]
    split_ifs at h ⊢
    exact ih h

lemma skip_eq_terminated (t : Text) (h : ∀ rest, escTerminated t = some rest → terminated rest = none) :
    skip (· ≠ bel) (oscEnd.run some) t = terminated t := by
  induction t with
  | nil => rfl
  | cons c cs ih =>
    rw [skip, oscEnd_run_cons, terminated]
    rw [escTerminated] at h
    by_cases hbel : c = bel
    · simp [hbel]
    · rw [if_neg hbel] at h
      simp only [hbel, ne_eq, not_false_eq_true, decide_true, if_true, if_false]
      by_cases hst : c = esc ∧ cs.head? = some backslash
      · rw [if_pos hst, if_pos hst]
        rw [if_pos hst] at h
        -- behind a last `ESC \` the greedy run finds nothing
        obtain ⟨-, hhead⟩ := hst
        obtain ⟨ds, rfl⟩ := List.head?_eq_some_iff.mp hhead
        have hnone : terminated (backslash :: ds) = none := h ds rfl
        rw [ih (by simp [escTerminated_eq_none hnone]), hnone, Option.none_or]
      · rw [if_neg hst] at h
        rw [if_neg hst, if_neg hst, Option.or_none]
        exact ih h

lemma consumes_osc : Consumes oscPattern.after := Pattern.consumes_one_seq _ _

lemma terminated_suffix {t rest : Text} (h : terminated t = some rest) : rest <:+ t := by
  induction t with
  | nil => cases h
  | cons c cs ih =>
    rw [terminated] at h
    split_ifs at h
    · exact Option.some.inj h ▸ List.suffix_cons c cs
    · exact Option.some.inj h ▸ (List.tail_suffix cs).trans (List.suffix_cons c cs)
    · exact (ih h).trans (List.suffix_cons c cs)

lemma consumes_oscSequence : Consumes oscSequence := by
  intro t rest h
  obtain _ | ⟨e, _ | ⟨b, t⟩⟩ := t
  · cases h
  · cases h
  · obtain ⟨-, h⟩ := Option.ite_none_right_eq_some.mp h
    exact ⟨e, b :: t, rfl, (terminated_suffix h).trans (List.suffix_cons b t)⟩

lemma oscPattern_after {input t : Text} (hinput : LastTerminated input) (ht : t <:+ input) :
    oscPattern.after t = oscSequence t := by
  obtain _ | ⟨e, _ | ⟨b, t⟩⟩ := t
  · rfl
  · simp [oscPattern, Pattern.after, Pattern.run, oscSequence]
  · change (if _ then if _ then skip _ (oscEnd.run some) t else none else none) = _
    simp only [oscSequence, decide_eq_true_eq, ite_and]
    split_ifs with he hb
    · subst he hb
      exact skip_eq_terminated t (hinput _ ((List.mem_tails _ _).mpr ht) rfl)
    · rfl
    · rfl

/-- What is shown is the text without OSC sequences, control characters and then CSI sequences, if the terminator
of no OSC sequence is followed by another that the greedy match can reach. -/
theorem shown_eq_visible {input : Text} (h : LastTerminated input) : shown input = visible input := by
  rw [shown, visible, parseAnsi, text_segments, stripCsi,
    removeAll_congr consumes_osc consumes_oscSequence fun t ht => oscPattern_after h ht, funext csiPattern_after]

-- The greedy match of an OSC sequence loses text up to a later terminator.
example :
    shown ([esc] ++ text "]0;a" ++ [esc, backslash] ++ text "lost" ++ [esc] ++ text "]0;b" ++ [bel]) = [] := by
  decide +kernel

theorem shown_eq_visible_title : ∃ input, LastTerminated input ∧
    input = [esc] ++ text "]0;title" ++ [bel] ++ text "a" ++ [esc] ++ text "[31mred" ++ [esc] ++ text "[2K" ∧
    shown input = visible input ∧ shown input = text "ared" := by
  have h : LastTerminated
      ([esc] ++ text "]0;title" ++ [bel] ++ text "a" ++ [esc] ++ text "[31mred" ++ [esc] ++ text "[2K") := by
    decide +kernel
  exact ⟨_, h, rfl, shown_eq_visible h, by decide +kernel⟩

/-- A single pass that removes OSC sequences, CSI sequences and the control characters below the space except tab,
newline and escape. -/
def hidden (t : Text) : Option Text :=
  (oscSequence t).or <| (csiSequence t).or <|
    match t with
    | c :: cs => if c < space ∧ c ≠ tab ∧ c ≠ lineFeed ∧ c ≠ esc then some cs else none
    | [] => none

theorem delete_not_shown : shown (text "a" ++ [0x7f]) = text "a" ∧
    removeAll hidden (text "a" ++ [0x7f]) = text "a" ++ [0x7f] := by
  decide +kernel

end Minicrond.Web
