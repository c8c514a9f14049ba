import Mathlib.Tactic.Common
import Minicrond.Web.Text

/-! The suggestion to run a command directly: a small part of the shell's syntax is read into an argument list, and
a command that uses anything else is left alone. -/

namespace Minicrond.Web

open Minicrond.Library

/-! ## `commandToArgv` -/

inductive Quote where
  | single
  | double
  deriving DecidableEq

structure ArgvState where
  argv : List Text := []
  word : Text := []
  hasWord : Bool := false
  quote : Option Quote := none

def wordChar (c : ℕ) : Bool :=
  inRange 'a' 'z' c || inRange 'A' 'Z' c || isDigit c || (text "_./:@%+=,-").contains c

def lineBreak (c : ℕ) : Bool := c = lineFeed || c = carriageReturn

def unfit (word : Text) : Bool := word.isEmpty || word.trim ≠ word

namespace ArgvState

variable (s : ArgvState)

def step (c : ℕ) : Option ArgvState :=
  match s.quote with
  | some .single =>
    if c = singleQuote then some { s with quote := none }
    else if lineBreak c then none
    else some { s with word := s.word ++ [c] }
  | some .double =>
    if c = doubleQuote then some { s with quote := none }
    else if c = '$'.toNat || c = backquote || c = backslash || lineBreak c then none
    else some { s with word := s.word ++ [c] }
  | none =>
    if c = singleQuote then some { s with quote := some .single, hasWord := true }
    else if c = doubleQuote then some { s with quote := some .double, hasWord := true }
    else if c = space || c = tab then
      if s.hasWord then
        if unfit s.word then none else some { s with argv := s.argv ++ [s.word], word := [], hasWord := false }
      else some s
    else if wordChar c then some { s with word := s.word ++ [c], hasWord := true }
    else none

def finish : Option (List Text) :=
  if s.quote.isSome || s.hasWord && unfit s.word then none
  else
    let argv := if s.hasWord then s.argv ++ [s.word] else s.argv
    -- the direct executor accepts absolute paths
    if argv.isEmpty || (argv.headD []).head? ≠ some '/'.toNat then none else some argv

end ArgvState

/-- A piece of a word: a character outside quotes, one that is quoted, a character that begins an expansion, or an
opening quote. -/
inductive Piece where
  | bare (c : ℕ)
  | quoted (c : ℕ)
  | expansion (c : ℕ)
  | mark
  deriving DecidableEq

abbrev Word := List Piece

inductive Token where
  | word (w : Word)
  | operator (c : ℕ)
  deriving DecidableEq

inductive ShellMode where
  | plain
  | single
  | double
  | escape
  | doubleEscape
  | comment
  deriving DecidableEq

structure Shell where
  tokens : List Token := []
  word : Word := []
  mode : ShellMode := .plain

def beginsExpansion (c : ℕ) : Bool := c = '$'.toNat || c = backquote

def isOperator (c : ℕ) : Bool := c = lineFeed || (text "|&;<>()").contains c

def isBlank (c : ℕ) : Bool := c = space || c = tab

namespace Shell

variable (s : Shell)

def push (p : Piece) : Shell := { s with word := s.word ++ [p] }

def delimit : Shell :=
  if s.word = [] then s else { s with tokens := s.tokens ++ [.word s.word], word := [] }

def operator (c : ℕ) : Shell := { s with tokens := s.tokens ++ [.operator c] }

def goto (mode : ShellMode) : Shell := { s with mode := mode }

def step (c : ℕ) : Shell :=
  match s.mode with
  | .single => if c = singleQuote then s.goto .plain else s.push (.quoted c)
  | .double =>
    if c = doubleQuote then s.goto .plain
    else if c = backslash then s.goto .doubleEscape
    else if beginsExpansion c then s.push (.expansion c)
    else s.push (.quoted c)
  | .escape => if c = lineFeed then s.goto .plain else (s.push (.quoted c)).goto .plain
  | .doubleEscape =>
    if c = lineFeed then s.goto .double
    else if beginsExpansion c || c = doubleQuote || c = backslash then (s.push (.quoted c)).goto .double
    else ((s.push (.quoted backslash)).push (.quoted c)).goto .double
  | .comment => if c = lineFeed then (s.operator c).goto .plain else s
  | .plain =>
    if c = singleQuote then (s.push .mark).goto .single
    else if c = doubleQuote then (s.push .mark).goto .double
    else if c = backslash then s.goto .escape
    else if beginsExpansion c then s.push (.expansion c)
    else if isOperator c then s.delimit.operator c
    else if isBlank c then s.delimit
    else if c = '#'.toNat && s.word = [] then s.goto .comment
    else s.push (.bare c)

def finish : Option (List Token) :=
  match s.mode with
  | .plain => some s.delimit.tokens
  | .comment => some s.tokens
  | .escape => some (s.push (.quoted backslash)).delimit.tokens
  | _ => none

end Shell

def Word.text (w : Word) : Text :=
  w.filterMap fun
    | .bare c => some c
    | .quoted c => some c
    | .expansion c => some c
    | .mark => none

def Piece.literal : Piece → Bool
  | .bare c => !(Library.text "*?[~").contains c
  | .quoted _ => true
  | .expansion _ => false
  | .mark => true

lemma Word.text_append (v w : Word) : Word.text (v ++ w) = v.text ++ w.text := List.filterMap_append ..

structure Fit (a : Text) : Prop where
  nonempty : a ≠ []
  oneLine : ∀ c ∈ a, lineBreak c = false
  trimmed : a.trim = a

def Quote.mode : Option Quote → ShellMode
  | none => .plain
  | some .single => .single
  | some .double => .double

structure Agrees (words : List Word) (s : ArgvState) (t : Shell) : Prop where
  mode : t.mode = Quote.mode s.quote
  tokens : t.tokens = words.map .word
  argv : words.map Word.text = s.argv
  word : t.word.text = s.word
  hasWord : s.hasWord = true ↔ t.word ≠ []
  literal : ∀ w ∈ t.word :: words, w.all Piece.literal
  fit : ∀ a ∈ s.argv, Fit a
  oneLine : ∀ c ∈ s.word, lineBreak c = false
  inWord : s.quote.isSome → s.hasWord = true

lemma Fit.of_unfit {word : Text} (h : unfit word = false) (hline : ∀ c ∈ word, lineBreak c = false) :
    Fit word := by
  simp only [unfit, Bool.or_eq_false_iff, List.isEmpty_eq_false_iff, decide_eq_false_iff_not, not_not] at h
  exact ⟨h.1, hline, h.2⟩

namespace Agrees

variable {words : List Word} {s : ArgvState} {t : Shell} {c : ℕ}

lemma start : Agrees [] {} {} := by
  constructor <;> simp [Quote.mode, Word.text]

lemma push (h : Agrees words s t) {p : Piece} (hchar : Word.text [p] = [c]) (hliteral : p.literal = true)
    (hline : lineBreak c = false) : Agrees words { s with word := s.word ++ [c], hasWord := true } (t.push p) where
  mode := h.mode
  tokens := h.tokens
  argv := h.argv
  word := by rw [Shell.push, Word.text_append, h.word, hchar]
  hasWord := by simp [Shell.push]
  literal := by
    have hw := h.literal
    simp only [List.forall_mem_cons, Shell.push, List.all_append, List.all_cons, List.all_nil, hliteral,
      Bool.and_true] at hw ⊢
    exact hw
  fit := h.fit
  oneLine := by
    simpa [or_imp, forall_and, hline] using h.oneLine
  inWord _ := rfl

lemma mark (h : Agrees words s t) (q : Quote) :
    Agrees words { s with quote := some q, hasWord := true } ((t.push .mark).goto (Quote.mode (some q))) where
  mode := rfl
  tokens := h.tokens
  argv := h.argv
  word := by
    change Word.text (t.word ++ [.mark]) = _
    rw [Word.text_append, h.word]
    exact List.append_nil _
  hasWord := by simp [Shell.push, Shell.goto]
  literal := by
    have hw := h.literal
    simp only [List.forall_mem_cons, Shell.push, Shell.goto, List.all_append, List.all_cons, List.all_nil,
      Piece.literal, Bool.and_true] at hw ⊢
    exact hw
  fit := h.fit
  oneLine := h.oneLine
  inWord _ := rfl

lemma unquote (h : Agrees words s t) : Agrees words { s with quote := none } (t.goto .plain) :=
  ⟨rfl, h.tokens, h.argv, h.word, h.hasWord, h.literal, h.fit, h.oneLine, nofun⟩

lemma delimit (h : Agrees words s t) (hquote : s.quote = none) (hword : s.hasWord = true)
    (hunfit : unfit s.word = false) :
    Agrees (words ++ [t.word]) { s with argv := s.argv ++ [s.word], word := [], hasWord := false } t.delimit := by
  have hne := h.hasWord.mp hword
  rw [Shell.delimit, if_neg hne]
  constructor
  case mode => exact h.mode
  case tokens => simp [h.tokens]
  case argv => simp [h.argv, h.word]
  case word => rfl
  case hasWord => simp
  case literal =>
    have hw := h.literal
    simp only [List.forall_mem_cons, List.forall_mem_append, List.all_nil] at hw ⊢
    exact ⟨trivial, hw.2, hw.1, nofun⟩
  case fit =>
    rw [List.forall_mem_append]
    exact ⟨h.fit, by simpa using Fit.of_unfit hunfit h.oneLine⟩
  case oneLine => exact nofun
  case inWord => simp [hquote]

end Agrees

lemma wordChar_plain {c : ℕ} (h : wordChar c = true) :
    c ≠ backslash ∧ beginsExpansion c = false ∧ isOperator c = false ∧ isBlank c = false ∧ c ≠ '#'.toNat ∧
      (Piece.bare c).literal = true ∧ lineBreak c = false := by
  have hwords : text "_./:@%+=,-" = [95, 46, 47, 58, 64, 37, 43, 61, 44, 45] := by decide
  have hoperators : text "|&;<>()" = [124, 38, 59, 60, 62, 40, 41] := by decide
  have hpatterns : text "*?[~" = [42, 63, 91, 126] := by decide
  simp only [wordChar, isDigit, inRange, hwords, Bool.or_eq_true, Bool.and_eq_true, decide_eq_true_eq,
    List.contains_eq_mem, List.mem_cons, List.not_mem_nil, or_false, Char.reduceToNat] at h
  simp only [beginsExpansion, isOperator, isBlank, Piece.literal, lineBreak, hoperators, hpatterns,
    Bool.or_eq_false_iff, Bool.not_eq_true', decide_eq_false_iff_not, List.contains_eq_mem, List.mem_cons,
    List.not_mem_nil, or_false, Char.reduceToNat]
  simp only [backslash, backquote, lineFeed, carriageReturn, space, tab]
  omega

namespace Agrees

variable {words : List Word} {s s' : ArgvState} {t : Shell} {c : ℕ} {argv : List Text} {hasWord : Bool}
    {word : Text}

lemma quoted (h : Agrees words s t) (hquote : s.quote.isSome) (hline : lineBreak c = false) :
    Agrees words { s with word := s.word ++ [c] } (t.push (.quoted c)) := by
  have hpush := h.push (p := .quoted c) rfl rfl hline
  rwa [← h.inWord hquote] at hpush

lemma step_single
    (h : Agrees words ⟨argv, word, hasWord, some .single⟩ t)
    (hs : ArgvState.step ⟨argv, word, hasWord, some .single⟩ c = some s') : Agrees words s' (t.step c) := by
  dsimp only [ArgvState.step] at hs
  simp only [Shell.step, h.mode, Quote.mode]
  by_cases hc : c = singleQuote
  case pos =>
    rw [if_pos hc] at hs ⊢
    exact Option.some.inj hs ▸ h.unquote
  case neg =>
    rw [if_neg hc] at hs ⊢
    obtain ⟨hline, hs⟩ := Option.ite_none_left_eq_some.mp hs
    exact Option.some.inj hs ▸ h.quoted rfl (by simpa using hline)

lemma step_double
    (h : Agrees words ⟨argv, word, hasWord, some .double⟩ t)
    (hs : ArgvState.step ⟨argv, word, hasWord, some .double⟩ c = some s') : Agrees words s' (t.step c) := by
  dsimp only [ArgvState.step] at hs
  simp only [Shell.step, h.mode, Quote.mode]
  by_cases hc : c = doubleQuote
  case pos =>
    rw [if_pos hc] at hs ⊢
    exact Option.some.inj hs ▸ h.unquote
  case neg =>
    rw [if_neg hc] at hs ⊢
    obtain ⟨hother, hs⟩ := Option.ite_none_left_eq_some.mp hs
    simp only [Bool.not_eq_true, Bool.or_eq_false_iff] at hother
    obtain ⟨⟨hexpansion, hbackslash⟩, hline⟩ := hother
    rw [if_neg (by simpa using hbackslash), if_neg (by simpa [beginsExpansion] using hexpansion)]
    exact Option.some.inj hs ▸ h.quoted rfl hline

lemma step_plain (h : Agrees words ⟨argv, word, hasWord, none⟩ t)
    (hs : ArgvState.step ⟨argv, word, hasWord, none⟩ c = some s') : ∃ words', Agrees words' s' (t.step c) := by
  dsimp only [ArgvState.step] at hs
  simp only [Shell.step, h.mode, Quote.mode]
  by_cases hsingle : c = singleQuote
  case pos =>
    rw [if_pos hsingle] at hs ⊢
    exact ⟨words, Option.some.inj hs ▸ h.mark .single⟩
  rw [if_neg hsingle] at hs ⊢
  by_cases hdouble : c = doubleQuote
  case pos =>
    rw [if_pos hdouble] at hs ⊢
    exact ⟨words, Option.some.inj hs ▸ h.mark .double⟩
  rw [if_neg hdouble] at hs ⊢
  change (if isBlank c = true then _ else _) = _ at hs
  by_cases hblank : isBlank c = true
  case pos =>
    rw [if_pos hblank] at hs
    have hother : c ≠ backslash ∧ beginsExpansion c = false ∧ isOperator c = false := by
      obtain rfl | rfl : c = space ∨ c = tab := by simpa [isBlank] using hblank
      all_goals decide
    rw [if_neg hother.1, if_neg (by simp [hother.2.1]), if_neg (by simp [hother.2.2]), if_pos hblank]
    cases hasWord with
    | true =>
      obtain ⟨hfit, hs⟩ := Option.ite_none_left_eq_some.mp hs
      exact ⟨_, Option.some.inj hs ▸ h.delimit rfl rfl (by simpa using hfit)⟩
    | false =>
      have hnone : t.word = [] := by simpa using h.hasWord
      rw [Shell.delimit, if_pos hnone]
      exact ⟨words, Option.some.inj hs ▸ h⟩
  case neg =>
    rw [if_neg hblank] at hs
    obtain ⟨hword, hs⟩ := Option.ite_none_right_eq_some.mp hs
    obtain ⟨hbackslash, hexpansion, hoperator, -, hcomment, hliteral, hline⟩ := wordChar_plain hword
    rw [if_neg hbackslash, if_neg (by simp [hexpansion]), if_neg (by simp [hoperator]), if_neg hblank,
      if_neg (by simpa using fun heq => absurd heq hcomment)]
    exact ⟨words, Option.some.inj hs ▸ h.push rfl hliteral hline⟩

lemma step (h : Agrees words s t) (hs : s.step c = some s') : ∃ words', Agrees words' s' (t.step c) := by
  obtain ⟨argv, word, hasWord, quote⟩ := s
  obtain _ | _ | _ := quote
  · exact h.step_plain hs
  · exact ⟨words, h.step_single hs⟩
  · exact ⟨words, h.step_double hs⟩

lemma finish (h : Agrees words ⟨argv, word, hasWord, none⟩ t) (hfit : (hasWord && unfit word) = false) :
    ∃ words' : List Word, t.finish = some (words'.map .word) ∧
      words'.map Word.text = (if hasWord then argv ++ [word] else argv) ∧ (∀ w ∈ words', w.all Piece.literal) ∧
      ∀ a ∈ (if hasWord then argv ++ [word] else argv), Fit a := by
  have hfinish : t.finish = some t.delimit.tokens := by simp only [Shell.finish, h.mode, Quote.mode]
  rw [hfinish]
  cases hasWord with
  | true =>
    have hlast := h.delimit rfl rfl (by simpa using hfit)
    exact ⟨_, congrArg some hlast.tokens, hlast.argv, (List.forall_mem_cons.mp hlast.literal).2, hlast.fit⟩
  | false =>
    have hnone : t.word = [] := by simpa using h.hasWord
    rw [Shell.delimit, if_pos hnone]
    exact ⟨_, congrArg some h.tokens, h.argv, (List.forall_mem_cons.mp h.literal).2, h.fit⟩

lemma steps {command : Text} (h : Agrees words s t) (hs : command.foldlM ArgvState.step s = some s') :
    ∃ words', Agrees words' s' (command.foldl Shell.step t) := by
  induction command generalizing words s t with
  | nil => exact ⟨words, Option.some.inj hs ▸ h⟩
  | cons c command ih =>
    rw [List.foldlM_cons] at hs
    obtain ⟨u, hu, hs⟩ := Option.bind_eq_some_iff.mp hs
    obtain ⟨words', h'⟩ := h.step hu
    exact ih h' hs

end Agrees

end Minicrond.Web
