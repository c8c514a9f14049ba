import Minicrond.Web.Toml
import Mathlib.Data.Nat.Digits.Lemmas

/-! The TOML text of a definition, read by the rules of TOML. -/

namespace Minicrond.Web

open Minicrond.Library

/-! ## Strings -/

/-- A string without control characters other than tabs and line feeds, and without halves of surrogate pairs. -/
def Readable (t : Text) : Prop := ∀ c ∈ t, c = lineFeed ∨ Toml.isPlain c = true

instance (t : Text) : Decidable (Readable t) := inferInstanceAs (Decidable (∀ c ∈ t, _))

def escapeChar (c : ℕ) : Text :=
  if c = backslash then [backslash, backslash]
  else if c = doubleQuote then [backslash, doubleQuote]
  else if c = lineFeed then [backslash, 'n'.toNat]
  else [c]

lemma literal_eq (t : Text) : literal t =
    if singleQuote ∉ t ∧ lineFeed ∉ t ∧ 0 ∉ t then singleQuote :: (t ++ [singleQuote])
    else doubleQuote :: (t.flatMap escapeChar ++ [doubleQuote]) := by
  have hescaped : replaceChar lineFeed [backslash, 'n'.toNat] (replaceChar doubleQuote [backslash, doubleQuote]
      (replaceChar backslash [backslash, backslash] t)) = t.flatMap escapeChar := by
    simp only [replaceChar, List.flatMap_assoc]
    congr 1
    funext c
    simp only [escapeChar]
    split_ifs <;> simp_all [backslash, doubleQuote, lineFeed]
  simp only [literal, hescaped]

lemma readable_nil : Readable [] := fun _ h => nomatch h

lemma readable_cons {c : ℕ} {t : Text} :
    Readable (c :: t) ↔ (c = lineFeed ∨ Toml.isPlain c = true) ∧ Readable t := List.forall_mem_cons

lemma readBasic_escapeChar (c : ℕ) (rest : Text) : Toml.readBasic (escapeChar c ++ rest) =
    if c = lineFeed ∨ Toml.isPlain c = true then (Toml.readBasic rest).map fun r => (c :: r.1, r.2) else none := by
  by_cases hb : c = backslash
  · subst hb
    rw [if_pos (by decide)]
    exact Toml.readBasic_escape (by decide)
  by_cases hq : c = doubleQuote
  · subst hq
    rw [if_pos (by decide)]
    exact Toml.readBasic_escape (by decide)
  by_cases hn : c = lineFeed
  · subst hn
    rw [if_pos (by decide)]
    exact Toml.readBasic_escape (by decide)
  rw [escapeChar, if_neg hb, if_neg hq, if_neg hn, List.singleton_append, Toml.readBasic_plain hq hb]
  simp only [hn, false_or]

lemma readBasic_escaped (t rest : Text) :
    Toml.readBasic (t.flatMap escapeChar ++ doubleQuote :: rest) =
      if Readable t then some (t, rest) else none := by
  induction t with
  | nil =>
    rw [if_pos readable_nil]
    exact Toml.readBasic_end rest
  | cons c t ih =>
    rw [List.flatMap_cons, List.append_assoc, readBasic_escapeChar, ih]
    simp only [readable_cons]
    split_ifs <;> simp_all

lemma readString_literal {t rest : Text} (hrest : singleQuote ∉ rest.head?) :
    Toml.readString (literal t ++ rest) = if Readable t then some (t, rest) else none := by
  rw [literal_eq]
  by_cases hplain : singleQuote ∉ t ∧ lineFeed ∉ t ∧ 0 ∉ t
  · have hreadable : t.all Toml.isPlain = true ↔ Readable t := by
      rw [List.all_eq_true]
      refine forall₂_congr fun c hc => ?_
      rw [or_iff_right fun h : c = lineFeed => hplain.2.1 (h ▸ hc)]
    rw [if_pos hplain, List.cons_append, List.append_assoc, List.singleton_append]
    rw [show singleQuote = Toml.apostrophe from rfl, Toml.readString_apostrophe hplain.1 hrest]
    simp only [hreadable]
  · have hhead : Toml.quotation ∉ (t.flatMap escapeChar ++ doubleQuote :: rest).head? := by
      cases t with
      | nil => simp at hplain
      | cons c t =>
        simp only [List.flatMap_cons, escapeChar]
        split_ifs with hb hq hn
        · simp [backslash, Toml.quotation]
        · simp [backslash, Toml.quotation]
        · simp [backslash, Toml.quotation]
        · exact fun h => hq (Option.some.inj h)
    rw [if_neg hplain, List.cons_append, List.append_assoc, List.singleton_append]
    exact (Toml.readString_quotation hhead).trans (readBasic_escaped t rest)

/-! ## Values -/

section

variable {n : ℕ}

lemma natText_digits {c : ℕ} (h : c ∈ natText n) : isDigit c = true := by
  simp only [natText] at h
  split_ifs at h
  · revert c
    decide
  · obtain ⟨d, hd, rfl⟩ := List.mem_map.mp h
    have := Nat.digits_lt_base (by norm_num) (List.mem_reverse.mp hd)
    simp only [isDigit, inRange, Char.reduceToNat, Bool.and_eq_true, decide_eq_true_eq]
    omega

lemma natText_ne_nil : natText n ≠ [] := by
  simp only [natText]
  split_ifs with h
  · decide
  · simpa [Nat.digits_eq_nil_iff_eq_zero] using h

lemma natText_zero (h : (natText n).head? = some '0'.toNat) : natText n = ['0'.toNat] := by
  simp only [natText] at h ⊢
  split_ifs at h ⊢ with hn
  · decide
  · have hlast := Nat.getLast_digit_ne_zero 10 hn
    rw [List.head?_map, List.head?_reverse, List.getLast?_eq_getLast_of_ne_nil
      (Nat.digits_ne_nil_iff_ne_zero.mpr hn)] at h
    simp at h
    exact absurd h hlast

lemma readDecimal_natText : Toml.readDecimal (natText n) = n := by
  simp only [natText]
  split_ifs with hn
  · rw [hn]
    decide
  · rw [Toml.readDecimal, List.foldl_map, List.foldl_reverse]
    conv_rhs => rw [← Nat.ofDigits_digits 10 n, Nat.ofDigits_eq_foldr]
    congr 1
    funext d m
    simp only [Nat.cast_id, Nat.add_sub_cancel, Nat.add_comm]

lemma readNat_natText {rest : Text} (h : ∀ c ∈ rest.head?, isDigit c = false) :
    Toml.readNat (natText n ++ rest) = some (n, rest) := by
  rw [Toml.readNat_append (fun _ => natText_digits) natText_ne_nil natText_zero h, readDecimal_natText]

end

def Closes (rest : Text) : Prop := ∀ c ∈ rest.head?, isDigit c = false ∧ c ≠ singleQuote

lemma readScalar_numberText (n : ℤ) {rest : Text} (hrest : Closes rest) :
    Toml.readScalar (numberText n ++ rest) = some (.int n, rest) := by
  have hnat := @readNat_natText n.natAbs rest fun c hc => (hrest c hc).1
  simp only [numberText]
  split_ifs with hneg
  · rw [List.cons_append, Toml.readScalar_int (by decide) (by decide) (by decide) (by decide), Toml.readInt,
      if_pos rfl, hnat]
    simp only [Option.map_some]
    congr 3
    omega
  · obtain ⟨c, t, ht⟩ := List.exists_cons_of_ne_nil (@natText_ne_nil n.natAbs)
    have hc : isDigit c = true := natText_digits (ht ▸ List.mem_cons_self)
    have hrange : 48 ≤ c ∧ c ≤ 57 := by
      simpa [isDigit, inRange] using hc
    rw [ht, List.cons_append] at hnat ⊢
    rw [Toml.readScalar_int, Toml.readInt, if_neg, if_neg, hnat]
    · simp only [Option.map_some]
      congr 3
      omega
    all_goals
      simp only [Toml.quotation, Toml.apostrophe, Char.reduceToNat, ne_eq]
      omega

def stringsOf : Toml.Scalar → List Text
  | .str s => [s]
  | _ => []

def valueStrings : Toml.Value → List Text
  | .scalar s => stringsOf s
  | .array items => items.flatMap stringsOf

lemma readScalar_scalarText (s : Toml.Scalar) {rest : Text} (hrest : Closes rest) :
    Toml.readScalar (scalarText s ++ rest) = if ∀ t ∈ stringsOf s, Readable t then some (s, rest) else none := by
  cases s with
  | str t =>
    have hhead : (literal t ++ rest).head? = some Toml.quotation ∨
        (literal t ++ rest).head? = some Toml.apostrophe := by
      rw [literal_eq]
      split_ifs
      · exact .inr rfl
      · exact .inl rfl
    have hclose : singleQuote ∉ rest.head? := fun h => (hrest _ h).2 rfl
    rw [scalarText, Toml.readScalar_string hhead, readString_literal hclose]
    simp only [stringsOf, List.mem_singleton, forall_eq]
    split_ifs <;> rfl
  | int n => exact (readScalar_numberText n hrest).trans (if_pos fun _ h => nomatch h).symm
  | bool b => cases b <;> exact (if_pos fun _ h => nomatch h).symm

lemma scalarText_head (s : Toml.Scalar) :
    ∃ c t, scalarText s = c :: t ∧ Toml.isSpace c = false ∧ c ≠ ']'.toNat ∧ c ≠ '['.toNat := by
  cases s with
  | str t =>
    rw [scalarText, literal_eq]
    split_ifs
    · exact ⟨_, _, rfl, by decide, by decide, by decide⟩
    · exact ⟨_, _, rfl, by decide, by decide, by decide⟩
  | int n =>
    rw [scalarText, numberText]
    split_ifs
    · exact ⟨_, _, rfl, by decide, by decide, by decide⟩
    · obtain ⟨c, t, ht⟩ := List.exists_cons_of_ne_nil (@natText_ne_nil n.natAbs)
      have hrange : 48 ≤ c ∧ c ≤ 57 := by
        simpa [isDigit, inRange] using natText_digits (ht ▸ List.mem_cons_self : c ∈ natText n.natAbs)
      refine ⟨c, t, ht, ?_, ?_, ?_⟩ <;> simp [Toml.isSpace] <;> omega
  | bool b => cases b <;> exact ⟨_, _, rfl, by decide, by decide, by decide⟩

lemma readItems_text {items : List Toml.Scalar} (hne : items ≠ []) {n : ℕ} (hn : items.length ≤ n) {pad : Text}
    (hpad : ∀ c ∈ pad, Toml.isSpace c = true) (rest : Text) :
    Toml.readItems n (pad ++ ((text ", ").intercalate (items.map scalarText) ++ (text "]" ++ rest))) =
      if ∀ t ∈ items.flatMap stringsOf, Readable t then some (items, rest) else none := by
  induction items generalizing n pad with
  | nil => exact absurd rfl hne
  | cons s items ih =>
    obtain ⟨n, rfl⟩ : ∃ m, n = m + 1 := ⟨n - 1, by simp at hn; omega⟩
    obtain ⟨c, t, ht, hspace, hbracket, -⟩ := scalarText_head s
    have hskip : ∀ tail : Text, Toml.skip (pad ++ (scalarText s ++ tail)) = scalarText s ++ tail := by
      intro tail
      exact (Toml.span_append hpad (by simp [ht, hspace])).2
    have hhead : ∀ tail : Text, (scalarText s ++ tail).head? ≠ some ']'.toNat := by
      intro tail
      simpa [ht] using hbracket
    have hall : (∀ t ∈ (s :: items).flatMap stringsOf, Readable t) ↔
        (∀ t ∈ stringsOf s, Readable t) ∧ ∀ t ∈ items.flatMap stringsOf, Readable t := by
      rw [List.flatMap_cons, List.forall_mem_append]
    simp only [hall]
    cases items with
    | nil =>
      have hscalar := readScalar_scalarText s (show Closes (']'.toNat :: rest) by simp [Closes]; decide)
      rw [List.map_cons, List.map_nil, List.intercalate_singleton]
      change Toml.readItems (n + 1) (pad ++ (scalarText s ++ ']'.toNat :: rest)) = _
      by_cases hs : ∀ t ∈ stringsOf s, Readable t
      · rw [if_pos ⟨hs, fun _ h => nomatch h⟩]
        exact Toml.readItems_last (hskip _) (hhead _) (hscalar.trans (if_pos hs))
      · rw [if_neg fun h => hs h.1]
        exact Toml.readItems_none (hskip _) (hhead _) (hscalar.trans (if_neg hs))
    | cons s' items =>
      rw [List.map_cons, List.map_cons, List.intercalate_cons_cons, List.append_assoc, List.append_assoc]
      have hscalar := fun tail : Text =>
        readScalar_scalarText s (show Closes (','.toNat :: tail) by simp [Closes]; decide)
      have hspaces : ∀ c ∈ text " ", Toml.isSpace c = true := by decide
      have hrest := ih (List.cons_ne_nil _ _) (Nat.le_of_succ_le_succ hn) hspaces
      change Toml.readItems (n + 1) (pad ++ (scalarText s ++ ','.toNat :: (text " " ++ _))) = _
      by_cases hs : ∀ t ∈ stringsOf s, Readable t
      · rw [Toml.readItems_comma (hskip _) (hhead _) ((hscalar _).trans (if_pos hs))]
        simp only [List.map_cons] at hrest
        rw [hrest, if_congr (and_iff_right hs) rfl rfl]
        split_ifs <;> rfl
      · rw [if_neg fun h => hs h.1]
        exact Toml.readItems_none (hskip _) (hhead _) ((hscalar _).trans (if_neg hs))

lemma length_le_intercalate (items : List Toml.Scalar) :
    items.length ≤ ((text ", ").intercalate (items.map scalarText)).length + 1 := by
  induction items with
  | nil => simp
  | cons s items ih =>
    cases items with
    | nil => simp
    | cons s' items =>
      rw [List.map_cons, List.map_cons, List.intercalate_cons_cons]
      simp only [List.length_append, List.length_cons, List.map_cons] at ih ⊢
      have : (text ", ").length = 2 := rfl
      omega

lemma readValue_valueText {value : Toml.Value} (hvalue : value ≠ .array []) :
    Toml.readValue (valueText value) =
      if ∀ t ∈ valueStrings value, Readable t then some (value, []) else none := by
  cases value with
  | scalar s =>
    obtain ⟨c, t, ht, -, -, hbracket⟩ := scalarText_head s
    have hscalar := readScalar_scalarText s (show Closes [] from fun _ h => nomatch h)
    rw [List.append_nil] at hscalar
    rw [valueText, Toml.readValue, if_neg (by simpa [ht] using hbracket), hscalar]
    by_cases hs : ∀ t ∈ stringsOf s, Readable t
    · exact (congrArg _ (if_pos hs)).trans (if_pos hs).symm
    · exact (congrArg _ (if_neg hs)).trans (if_neg hs).symm
  | array items =>
    have hitems :=
      @readItems_text items (fun h => hvalue (h ▸ rfl)) (valueText (.array items)).length ?_ [] nofun []
    · rw [List.append_nil, List.nil_append] at hitems
      rw [Toml.readValue, if_pos (by rw [valueText]; rfl)]
      by_cases hs : ∀ t ∈ items.flatMap stringsOf, Readable t
      · exact (congrArg _ (hitems.trans (if_pos hs))).trans (if_pos hs).symm
      · exact (congrArg _ (hitems.trans (if_neg hs))).trans (if_neg hs).symm
    · have := length_le_intercalate items
      simp only [valueText, List.length_cons, List.length_append]
      omega

/-! ## Lines -/

lemma valueText_head (value : Toml.Value) : ∃ c t, valueText value = c :: t ∧ Toml.isSpace c = false := by
  cases value with
  | scalar s =>
    obtain ⟨c, t, ht, hspace, -⟩ := scalarText_head s
    exact ⟨c, t, ht, hspace⟩
  | array items => exact ⟨_, _, rfl, by decide⟩

lemma isPlain_of_isBare {c : ℕ} (h : Toml.isBare c = true) : Toml.isPlain c = true := by
  simp only [Toml.isBare, isDigit, inRange, Char.reduceToNat, Bool.or_eq_true, Bool.and_eq_true,
    decide_eq_true_eq] at h
  simp only [Toml.isPlain, Bool.or_eq_true, Bool.and_eq_true, decide_eq_true_eq, Bool.not_eq_true',
    Bool.and_eq_false_imp, decide_eq_false_iff_not, ne_eq]
  omega

lemma literal_head (t : Text) : ∃ c u, literal t = c :: u ∧ (c = singleQuote ∨ c = doubleQuote) := by
  rw [literal_eq]
  split_ifs
  · exact ⟨_, _, rfl, .inl rfl⟩
  · exact ⟨_, _, rfl, .inr rfl⟩

section

variable {bare : ℕ → Bool} (hbare : ∀ c, bare c = true → Toml.isBare c = true)

include hbare

lemma keyText_head (key : Text) :
    ∃ c t, keyText bare key = c :: t ∧ (Toml.isBare c = true ∨ c = singleQuote ∨ c = doubleQuote) := by
  rw [keyText]
  split_ifs with h
  · obtain ⟨c, t, rfl⟩ := List.exists_cons_of_ne_nil h.1
    exact ⟨c, t, rfl, .inl (hbare c (List.all_eq_true.mp h.2 c List.mem_cons_self))⟩
  · obtain ⟨c, u, hu, hc⟩ := literal_head key
    exact ⟨c, u, hu, .inr hc⟩

lemma readKey_keyText (key rest : Text) :
    Toml.readKey (keyText bare key ++ (space :: rest)) = if Readable key then some (key,
      space :: rest) else none := by
  rw [keyText]
  split_ifs with h hkey hkey
  · obtain ⟨htake, hdrop⟩ := @Toml.span_append key (space :: rest) Toml.isBare
      (fun c hc => hbare c (List.all_eq_true.mp h.2 c hc)) (by simp; decide)
    rw [Toml.readKey, htake, hdrop, if_pos h.1]
  · exact absurd (fun c hc => .inr (isPlain_of_isBare (hbare c (List.all_eq_true.mp h.2 c hc)))) hkey
  all_goals
    have hstring := @readString_literal key (space :: rest) (by simp; decide)
    obtain ⟨c, u, hu, hc⟩ := literal_head key
    have htake : (literal key ++ space :: rest).takeWhile Toml.isBare = [] := by
      rw [hu]
      rcases hc with rfl | rfl <;> rfl
    rw [Toml.readKey, htake, if_neg (fun h => h rfl), hstring]
  · exact if_pos hkey
  · exact if_neg hkey

lemma readEntry_text {value : Toml.Value} (hvalue : value ≠ .array []) (key : Text) :
    Toml.readEntry (keyText bare key ++ text " = " ++ valueText value) =
      if Readable key ∧ ∀ t ∈ valueStrings value, Readable t then some (.entry key value) else none := by
  obtain ⟨c, t, ht, hspace⟩ := valueText_head value
  have hkey := readKey_keyText hbare key (text "= " ++ valueText value)
  have hskip : Toml.skip (space :: (text "= " ++ valueText value)) = text "= " ++ valueText value := rfl
  have hskip' : Toml.skip (text " " ++ valueText value) = valueText value :=
    (@Toml.span_append (text " ") (valueText value) Toml.isSpace (by decide) (by simp [ht, hspace])).2
  have hvalue' := readValue_valueText hvalue
  rw [List.append_assoc]
  change Toml.readEntry (keyText bare key ++ space :: (text "= " ++ valueText value)) = _
  by_cases hreadable : Readable key
  · rw [Toml.readEntry_equals (hkey.trans (if_pos hreadable)) hskip hskip', hvalue',
      if_congr (and_iff_right hreadable) rfl rfl]
    split_ifs <;> rfl
  · rw [Toml.readEntry_none (hkey.trans (if_neg hreadable)), if_neg fun h => hreadable h.1]

lemma readLine_text {value : Toml.Value} (hvalue : value ≠ .array []) (key : Text) :
    Toml.readLine (keyText bare key ++ text " = " ++ valueText value) =
      if Readable key ∧ ∀ t ∈ valueStrings value, Readable t then some (.entry key value) else none := by
  obtain ⟨c, t, ht, hc⟩ := keyText_head hbare key
  have hentry := readEntry_text hbare hvalue key
  have hhead : Toml.isSpace c = false ∧ c ≠ '#'.toNat ∧ c ≠ '['.toNat := by
    rcases hc with hc | rfl | rfl
    · simp only [Toml.isBare, isDigit, inRange, Char.reduceToNat, Bool.or_eq_true, Bool.and_eq_true,
        decide_eq_true_eq] at hc
      simp only [Toml.isSpace, Char.reduceToNat, Bool.or_eq_false_iff, decide_eq_false_iff_not]
      omega
    · decide
    · decide
  rw [ht, List.cons_append, List.cons_append] at hentry ⊢
  rw [Toml.readLine_entry hhead.1 hhead.2.1 hhead.2.2, hentry]

end

namespace TomlLine

def line : TomlLine → Toml.Line
  | header name => .item [] name
  | blank => .blank
  | table name sub => .table [name] sub
  | setting key value => .entry key value
  | item _ _ key value => .entry key (.scalar (.str value))

def strings : TomlLine → List Text
  | setting _ value => valueStrings value
  | item _ _ key value => [key, value]
  | _ => []

def Formed : TomlLine → Prop
  | header name => name = text "worker" ∨ name = text "init" ∨ name = text "job"
  | blank => True
  | table name sub => (name = text "worker" ∨ name = text "init" ∨ name = text "job") ∧
      (sub = text "env" ∨ sub = text "secret_env" ∨ sub = text "labels")
  | setting key value => key ≠ [] ∧ key.all Toml.isBare = true ∧ value ≠ .array []
  | item _ bare _ _ => ∀ c, bare c = true → Toml.isBare c = true

end TomlLine

lemma readLine_render {l : TomlLine} (hl : l.Formed) :
    Toml.readLine l.render = if ∀ t ∈ l.strings, Readable t then some l.line else none := by
  cases l with
  | header name =>
    rw [if_pos fun _ h => nomatch h]
    rcases hl with rfl | rfl | rfl <;> decide
  | blank =>
    rw [if_pos fun _ h => nomatch h]
    decide
  | table name sub =>
    rw [if_pos fun _ h => nomatch h]
    obtain ⟨rfl | rfl | rfl, rfl | rfl | rfl⟩ := hl <;> decide
  | setting key value =>
    obtain ⟨hne, hbare, hvalue⟩ := hl
    have hkey : keyText Toml.isBare key = key := if_pos ⟨hne, hbare⟩
    have hreadable : Readable key := fun c hc => .inr (isPlain_of_isBare (List.all_eq_true.mp hbare c hc))
    have hline := readLine_text (fun _ h => h) hvalue key
    rw [hkey] at hline
    rw [TomlLine.render, hline]
    exact if_congr (and_iff_right hreadable) rfl rfl
  | item sub bare key value =>
    have hline := readLine_text hl (show Toml.Value.scalar (.str value) ≠ .array [] from nofun) key
    rw [TomlLine.render]
    refine hline.trans (if_congr ?_ rfl rfl)
    simp only [valueStrings, stringsOf, TomlLine.strings, List.mem_cons, List.not_mem_nil, or_false,
      forall_eq_or_imp, forall_eq]

/-! ## The text -/

lemma lineFeed_notMem_literal (t : Text) : lineFeed ∉ literal t := by
  rw [literal_eq]
  split_ifs with h
  · simp only [List.mem_cons, List.mem_append, List.not_mem_nil, or_false, h.2.1, false_or]
    decide
  · have hescape : lineFeed ∉ t.flatMap escapeChar := by
      intro hmem
      obtain ⟨c, -, hc⟩ := List.mem_flatMap.mp hmem
      simp only [escapeChar] at hc
      split_ifs at hc with hb hq hn
      · exact absurd hc (by decide)
      · exact absurd hc (by decide)
      · exact absurd hc (by decide)
      · exact hn (List.mem_singleton.mp hc).symm
    simp only [List.mem_cons, List.mem_append, List.not_mem_nil, or_false, hescape, false_or]
    decide

lemma lineFeed_notMem_scalarText (s : Toml.Scalar) : lineFeed ∉ scalarText s := by
  cases s with
  | str t => exact lineFeed_notMem_literal t
  | int n =>
    have hnat : lineFeed ∉ natText n.natAbs := fun h => absurd (natText_digits h) (by decide)
    rw [scalarText, numberText]
    split_ifs
    · simp only [List.mem_cons, hnat, or_false]
      decide
    · exact hnat
  | bool b => cases b <;> decide

lemma lineFeed_notMem_valueText (value : Toml.Value) : lineFeed ∉ valueText value := by
  cases value with
  | scalar s => exact lineFeed_notMem_scalarText s
  | array items =>
    have hitems : lineFeed ∉ (text ", ").intercalate (items.map scalarText) := by
      induction items with
      | nil => decide
      | cons s items ih =>
        cases items with
        | nil => simpa using lineFeed_notMem_scalarText s
        | cons s' items =>
          rw [List.map_cons, List.map_cons, List.intercalate_cons_cons]
          simp only [List.mem_append, not_or]
          exact ⟨⟨lineFeed_notMem_scalarText s, by decide⟩, ih⟩
    simp only [valueText, List.mem_cons, List.mem_append, hitems, false_or]
    decide

lemma lineFeed_notMem_of_bare {bare : ℕ → Bool} (hbare : ∀ c, bare c = true → Toml.isBare c = true) {key : Text}
    (h : key.all bare = true) : lineFeed ∉ key := fun hmem =>
  absurd (hbare _ (List.all_eq_true.mp h _ hmem)) (by decide)

lemma lineFeed_notMem_render {l : TomlLine} (hl : l.Formed) : lineFeed ∉ l.render := by
  cases l with
  | header name => rcases hl with rfl | rfl | rfl <;> decide
  | blank => decide
  | table name sub => obtain ⟨rfl | rfl | rfl, rfl | rfl | rfl⟩ := hl <;> decide
  | setting key value =>
    simp only [TomlLine.render, List.mem_append, not_or]
    exact ⟨⟨lineFeed_notMem_of_bare (fun _ h => h) hl.2.1, by decide⟩, lineFeed_notMem_valueText value⟩
  | item sub bare key value =>
    simp only [TomlLine.render, List.mem_append, not_or]
    refine ⟨⟨?_, by decide⟩, lineFeed_notMem_literal value⟩
    rw [keyText]
    split_ifs with hkey
    · exact lineFeed_notMem_of_bare hl hkey.2
    · exact lineFeed_notMem_literal key

lemma intercalate_append_nil (x : ℕ) {ls : List Text} (h : ls ≠ []) :
    [x].intercalate (ls ++ [[]]) = [x].intercalate ls ++ [x] := by
  induction ls with
  | nil => exact absurd rfl h
  | cons l ls ih =>
    cases ls with
    | nil => simp [List.intercalate]
    | cons l' ls =>
      have := ih (List.cons_ne_nil _ _)
      simp only [List.cons_append, List.intercalate_cons_cons] at this ⊢
      rw [this]
      simp

lemma mapM_readLine {ls : List TomlLine} (hls : ∀ l ∈ ls, l.Formed) :
    (ls.map TomlLine.render ++ [[]]).mapM Toml.readLine =
      if ∀ l ∈ ls, ∀ t ∈ l.strings, Readable t then some (ls.map TomlLine.line ++ [.blank]) else none := by
  induction ls with
  | nil => rfl
  | cons l ls ih =>
    have hread := readLine_render (hls l List.mem_cons_self)
    have hrest := ih fun l' hl' => hls l' (List.mem_cons_of_mem _ hl')
    rw [List.map_cons, List.cons_append, List.mapM_cons, hread, hrest,
      if_congr List.forall_mem_cons rfl rfl]
    by_cases hl : ∀ t ∈ l.strings, Readable t
    · rw [if_pos hl, if_congr (and_iff_right hl) rfl rfl]
      split_ifs <;> rfl
    · rw [if_neg hl]
      exact (if_neg fun h => hl h.1).symm

lemma read_text {d : Definition} (hlines : ∀ l ∈ d.lines, l.Formed) :
    Toml.read (definitionToToml d).text = if ∀ l ∈ d.lines, ∀ t ∈ l.strings, Readable t
      then Toml.Doc.run {} (d.lines.map TomlLine.line ++ [.blank]) else none := by
  have hne : d.lines.map TomlLine.render ≠ [] := by simp [Definition.lines]
  have hsplit : (definitionToToml d).text.splitOn Toml.lineFeed = d.lines.map TomlLine.render ++ [[]] := by
    rw [definitionToToml, ← intercalate_append_nil lineFeed hne]
    apply List.splitOn_intercalate
    · intro t ht
      rcases List.mem_append.mp ht with ht | ht
      · obtain ⟨l, hl, rfl⟩ := List.mem_map.mp ht
        exact lineFeed_notMem_render (hlines l hl)
      · rw [List.mem_singleton.mp ht]
        exact List.not_mem_nil
    · simp
  rw [Toml.read, hsplit, mapM_readLine hlines]
  split_ifs <;> rfl

end Minicrond.Web
