import Minicrond.Web.Number
import Mathlib.Data.List.Dedup
import Mathlib.Data.List.Sort

/-! Schedules as the editor reads them: the text of a five-field expression, and the values of its fields. -/

namespace Minicrond.Web

open Minicrond.Library

structure CronFields where
  minute : List ℤ
  hour : List ℤ
  dom : List ℤ
  month : List ℤ
  dow : List ℤ
  deriving DecidableEq

inductive ParsedSchedule where
  | cron (fields : CronFields) (domRestricted dowRestricted : Bool)
  | every (ms : ℚ)
  deriving DecidableEq

def monthNames : List Text :=
  ["jan", "feb", "mar", "apr", "may", "jun", "jul", "aug", "sep", "oct", "nov", "dec"].map text

def dowNames : List Text := ["sun", "mon", "tue", "wed", "thu", "fri", "sat"].map text

/-- The lower case of a character. Beyond the letters from A to Z it matters only where it has one from a to z: in
the Kelvin sign and the dotted capital I. -/
def lowerCase (c : ℕ) : Text :=
  if inRange 'A' 'Z' c then [c + 32]
  else if c = 0x212a then ['k'.toNat]
  else if c = 0x130 then ['i'.toNat, 0x307]
  else [c]

def Text.toLowerCase (t : Text) : Text := t.flatMap lowerCase

/-- A number is taken as it is written; where its double is another number, both are beyond every field. -/
def resolveValue (t : Text) (names : List Text) : Option ℤ :=
  if t ≠ [] ∧ t.all isDigit then some (readDigits 10 t) else (names.idxOf? t.toLowerCase).map Int.ofNat

def comma : ℕ := 0x2c

def hyphen : ℕ := 0x2d

def slash : ℕ := 0x2f

def star : Text := [0x2a]

def bodyOf (part : Text) : Text := part.takeWhile (· ≠ slash)

def readStep (t : Text) : Option ℤ :=
  (toNumber t).bind fun q => if q.den = 1 ∧ 1 ≤ q.num then some q.num else none

def stepOf (part : Text) : Option ℤ :=
  if slash ∈ part then readStep (part.drop ((bodyOf part).length + 1)) else some 1

def valuesFrom (start stop step : ℤ) : List ℤ :=
  (List.range ((stop - start) / step + 1).toNat).map fun k : ℕ => start + k * step

section

variable (min max : ℤ) (names : List Text)

def fieldValue (v : ℤ) : ℤ := if v = 7 ∧ max = 6 then 0 else v

def parseRange (start stop step : ℤ) : Option (List ℤ) :=
  if start < min ∨ max < stop ∨ stop < start then none
  else some ((valuesFrom start stop step).map (fieldValue max))

def parsePart (part : Text) : Option (List ℤ) := do
  let step ← stepOf part
  let body := bodyOf part
  if body = star then parseRange min max min max step
  else if body = [] then none
  else if hyphen ∈ body then
    match body.splitOn hyphen with
    | a :: b :: _ => do
      let start ← resolveValue a names
      let stop ← resolveValue b names
      parseRange min max start stop step
    | _ => none
  else do
    let v ← resolveValue body names
    if slash ∈ part then parseRange min max v max step
    else if v < min ∨ max < v then none
    else some [fieldValue max v]

def parseField (field : Text) : Option (List ℤ) := do
  let values := (← (field.splitOn comma).mapM (parsePart min max names)).flatten
  if values = [] then none else some (values.dedup.insertionSort (· ≤ ·))

end

def descriptors : List (Text × Text) :=
  [("@hourly", "0 * * * *"), ("@daily", "0 0 * * *"), ("@midnight", "0 0 * * *"), ("@weekly", "0 0 * * 0"),
    ("@monthly", "0 0 1 * *"), ("@yearly", "0 0 1 1 *"), ("@annually", "0 0 1 1 *")].map
    fun d => (text d.1, text d.2)

def fieldsOf (lowered : Text) : List Text :=
  Library.fields isWhiteSpace ((descriptors.lookup lowered).getD lowered)

def parseSchedule (expr : Text) : Option ParsedSchedule :=
  let lowered := expr.trim.toLowerCase
  if lowered = [] then none
  else if (text "@every").isPrefixOf lowered then
    (parseDuration (lowered.drop 6)).bind fun ms => if ms = 0 then none else some (.every ms)
  else
    match fieldsOf lowered with
    | [minute, hour, dom, month, dow] => do
      let fields : CronFields :=
        { minute := ← parseField 0 59 [] minute
          hour := ← parseField 0 23 [] hour
          dom := ← parseField 1 31 [] dom
          month := ← parseField 1 12 monthNames month
          dow := ← parseField 0 7 dowNames dow }
      some (.cron fields (dom ≠ star) (dow ≠ star))
    | _ => none

/-! ## What a field means -/

def valueOf (first : ℤ) (names : List Text) (t : Text) : Option ℤ :=
  if t ≠ [] ∧ t.all isDigit then some (readDigits 10 t)
  else (names.idxOf? t.toLowerCase).map fun i : ℕ => first + i

section

variable (value : Text → Option ℤ) (min max : ℤ)

/-- The least and the greatest value of a part: all values, a range, one value, or all from one on with a step. -/
def boundsOf (part : Text) : Option (ℤ × ℤ) :=
  if bodyOf part = star then some (min, max)
  else
    match (bodyOf part).splitOn hyphen with
    | [v] => (value v).map fun v => (v, if slash ∈ part then max else v)
    | a :: b :: _ => (value a).bind fun a => (value b).map fun b => (a, b)
    | [] => none

def partValues (part : Text) : Set ℤ :=
  {v | ∃ step lo hi, stepOf part = some step ∧ boundsOf value min max part = some (lo, hi) ∧
    lo ≤ v ∧ v ≤ hi ∧ step ∣ v - lo}

def fieldValues (field : Text) : Set ℤ := {v | ∃ part ∈ field.splitOn comma, v ∈ partValues value min max part}

end

structure Reading where
  minute : Set ℤ
  hour : Set ℤ
  dom : Set ℤ
  month : Set ℤ
  dow : Set ℤ
  domRestricted : Bool
  dowRestricted : Bool

/-- Whether a date is one of a month, a day of the month and a day of the week: restricted
days are alternatives. -/
def Reading.Date (R : Reading) (month day weekday : ℤ) : Prop :=
  month ∈ R.month ∧
    if R.domRestricted && R.dowRestricted then day ∈ R.dom ∨ weekday ∈ R.dow
    else (R.domRestricted = true → day ∈ R.dom) ∧ (R.dowRestricted = true → weekday ∈ R.dow)

def fieldAt (expr : Text) (i : ℕ) : Text := (fieldsOf expr.trim.toLowerCase).getD i []

/-- The expression, where the month names count from `january` and `weekday` says which days its numbers are. -/
def readingOf (january : ℤ) (weekday : ℤ → ℤ) (expr : Text) : Reading where
  minute := fieldValues (valueOf 0 []) 0 59 (fieldAt expr 0)
  hour := fieldValues (valueOf 0 []) 0 23 (fieldAt expr 1)
  dom := fieldValues (valueOf 0 []) 1 31 (fieldAt expr 2)
  month := fieldValues (valueOf january monthNames) 1 12 (fieldAt expr 3)
  dow := weekday '' fieldValues (valueOf 0 dowNames) 0 7 (fieldAt expr 4)
  domRestricted := fieldAt expr 2 ≠ star
  dowRestricted := fieldAt expr 4 ≠ star

def meant (expr : Text) : Reading := readingOf 1 (· % 7) expr

def misread (expr : Text) : Reading := readingOf 0 id expr

/-! ## What the parser reads -/

lemma resolveValue_eq (names : List Text) (t : Text) : resolveValue t names = valueOf 0 names t := by
  simp only [resolveValue, valueOf, zero_add]
  rfl

lemma stepOf_pos {part : Text} {step : ℤ} (h : stepOf part = some step) : 1 ≤ step := by
  simp only [stepOf, readStep] at h
  split_ifs at h
  · obtain ⟨q, -, hq⟩ := Option.bind_eq_some_iff.mp h
    obtain ⟨⟨-, hpos⟩, hq'⟩ := Option.ite_none_right_eq_some.mp hq
    exact Option.some.inj hq' ▸ hpos
  · obtain rfl := Option.some.inj h
    exact le_rfl

lemma mem_valuesFrom {start stop step v : ℤ} (hstep : 1 ≤ step) :
    v ∈ valuesFrom start stop step ↔ start ≤ v ∧ v ≤ stop ∧ step ∣ v - start := by
  simp only [valuesFrom, List.mem_map, List.mem_range]
  constructor
  · rintro ⟨k, hk, rfl⟩
    have hle : (k : ℤ) * step ≤ stop - start := by
      have hk' : (k : ℤ) ≤ (stop - start) / step := by omega
      exact (Int.le_ediv_iff_mul_le (by omega)).mp hk'
    have hnonneg : 0 ≤ (k : ℤ) * step := Int.mul_nonneg (Int.natCast_nonneg k) (by omega)
    exact ⟨by omega, by omega, Dvd.intro_left (k : ℤ) (by omega)⟩
  · rintro ⟨hstart, hstop, k, hk⟩
    have hk0 : 0 ≤ k := by
      by_contra hneg
      have := Int.mul_le_mul_of_nonneg_left (show k ≤ -1 by omega) (show 0 ≤ step by omega)
      omega
    have hle : k ≤ (stop - start) / step := (Int.le_ediv_iff_mul_le (by omega)).mpr (by rw [mul_comm]; omega)
    refine ⟨k.toNat, by omega, ?_⟩
    rw [Int.toNat_of_nonneg hk0, mul_comm]
    omega

section

variable {min max : ℤ} {names : List Text} {vs : List ℤ}

lemma fieldValue_eq (hmax : max ≠ 6) (v : ℤ) : fieldValue max v = v := if_neg fun h => hmax h.2

lemma parseRange_values (hmax : max ≠ 6) {start stop step : ℤ} (hstep : 1 ≤ step)
    (h : parseRange min max start stop step = some vs) :
    min ≤ start ∧ stop ≤ max ∧ start ≤ stop ∧ ∀ v, v ∈ vs ↔ start ≤ v ∧ v ≤ stop ∧ step ∣ v - start := by
  obtain ⟨hbounds, hvs⟩ := Option.ite_none_left_eq_some.mp h
  rw [funext (fieldValue_eq hmax), List.map_id'] at hvs
  refine ⟨by omega, by omega, by omega, fun v => ?_⟩
  rw [← Option.some.inj hvs]
  exact mem_valuesFrom hstep

/-- The values read from a part of a field: some of those the field can have, by the bounds and the step. -/
structure Reads (min max : ℤ) (S : Set ℤ) (vs : List ℤ) : Prop where
  mem : ∀ v, v ∈ vs ↔ v ∈ S
  bounds : ∀ v ∈ vs, min ≤ v ∧ v ≤ max
  ne_nil : vs ≠ []

lemma Reads.of_bounds {part : Text} {step lo hi : ℤ} (hstep : stepOf part = some step)
    (hbounds : boundsOf (valueOf 0 names) min max part = some (lo, hi)) (hlo : min ≤ lo) (hhi : hi ≤ max)
    (hle : lo ≤ hi) (hmem : ∀ v, v ∈ vs ↔ lo ≤ v ∧ v ≤ hi ∧ step ∣ v - lo) :
    Reads min max (partValues (valueOf 0 names) min max part) vs where
  mem v := by
    rw [hmem]
    constructor
    · intro hv
      exact ⟨step, lo, hi, hstep, hbounds, hv⟩
    · rintro ⟨step', lo', hi', hstep', hbounds', hv⟩
      obtain rfl := Option.some.inj (hstep.symm.trans hstep')
      obtain ⟨rfl, rfl⟩ := Prod.mk.inj (Option.some.inj (hbounds.symm.trans hbounds'))
      exact hv
  bounds v hv := by
    obtain ⟨h0, h1, -⟩ := (hmem v).mp hv
    omega
  ne_nil := List.ne_nil_of_mem ((hmem lo).mpr ⟨le_rfl, hle, by simp⟩)

lemma Reads.of_range (hmax : max ≠ 6) {part : Text} {step lo hi : ℤ} (hstep : stepOf part = some step)
    (hbounds : boundsOf (valueOf 0 names) min max part = some (lo, hi))
    (h : parseRange min max lo hi step = some vs) :
    Reads min max (partValues (valueOf 0 names) min max part) vs := by
  obtain ⟨hlo, hhi, hle, hmem⟩ := parseRange_values hmax (stepOf_pos hstep) h
  exact .of_bounds hstep hbounds hlo hhi hle hmem

lemma parsePart_reads (hmax : max ≠ 6) {part : Text} (h : parsePart min max names part = some vs) :
    Reads min max (partValues (valueOf 0 names) min max part) vs := by
  obtain ⟨step, hstep, h⟩ := Option.bind_eq_some_iff.mp h
  by_cases hstar : bodyOf part = star
  · rw [if_pos hstar] at h
    exact .of_range hmax hstep (if_pos hstar) h
  rw [if_neg hstar] at h
  obtain ⟨-, h⟩ := Option.ite_none_left_eq_some.mp h
  by_cases hrange : hyphen ∈ bodyOf part
  · rw [if_pos hrange] at h
    split at h
    case h_1 a b rest hsplit =>
      obtain ⟨start, hstart, h⟩ := Option.bind_eq_some_iff.mp h
      obtain ⟨stop, hstop, h⟩ := Option.bind_eq_some_iff.mp h
      rw [resolveValue_eq] at hstart hstop
      apply Reads.of_range hmax hstep _ h
      rw [boundsOf, if_neg hstar, hsplit]
      simp only [hstart, hstop, Option.bind_some, Option.map_some]
    case h_2 => exact nomatch h
  rw [if_neg hrange] at h
  obtain ⟨v, hv, h⟩ := Option.bind_eq_some_iff.mp h
  rw [resolveValue_eq] at hv
  have hsplit : (bodyOf part).splitOn hyphen = [bodyOf part] := by
    apply List.splitOnP_eq_singleton
    intro c hc
    simpa using fun hc' : c = hyphen => hrange (hc' ▸ hc)
  have hbounds : boundsOf (valueOf 0 names) min max part = some (v, if slash ∈ part then max else v) := by
    rw [boundsOf, if_neg hstar, hsplit]
    simp only [hv, Option.map_some]
  by_cases hslash : slash ∈ part
  · rw [if_pos hslash] at h hbounds
    exact .of_range hmax hstep hbounds h
  · rw [if_neg hslash] at h hbounds
    obtain ⟨hv', hvs⟩ := Option.ite_none_left_eq_some.mp h
    rw [fieldValue_eq hmax] at hvs
    apply Reads.of_bounds hstep hbounds (by omega) (by omega) le_rfl
    intro w
    rw [stepOf, if_neg hslash] at hstep
    rw [← Option.some.inj hvs, ← Option.some.inj hstep, List.mem_singleton]
    omega

lemma mapM_parsePart_reads (hmax : max ≠ 6) {parts : List Text} {vss : List (List ℤ)}
    (h : parts.mapM (parsePart min max names) = some vss) :
    (∀ v, v ∈ vss.flatten ↔ ∃ part ∈ parts, v ∈ partValues (valueOf 0 names) min max part) ∧
      ∀ v ∈ vss.flatten, min ≤ v ∧ v ≤ max := by
  induction parts generalizing vss with
  | nil =>
    obtain rfl := Option.some.inj h
    simp
  | cons part parts ih =>
    rw [List.mapM_cons] at h
    obtain ⟨vs, hvs, h⟩ := Option.bind_eq_some_iff.mp h
    obtain ⟨rest, hrest, h⟩ := Option.bind_eq_some_iff.mp h
    obtain rfl := Option.some.inj h
    have hpart := parsePart_reads hmax hvs
    obtain ⟨hmem, hbounds⟩ := ih hrest
    constructor
    · intro v
      simp only [List.flatten_cons, List.mem_append, hpart.mem, hmem, List.mem_cons, exists_eq_or_imp]
    · intro v hv
      rw [List.flatten_cons, List.mem_append] at hv
      exact hv.elim (hpart.bounds v) (hbounds v)

lemma parseField_reads (hmax : max ≠ 6) {field : Text} (h : parseField min max names field = some vs) :
    Reads min max (fieldValues (valueOf 0 names) min max field) vs := by
  obtain ⟨vss, hvss, h⟩ := Option.bind_eq_some_iff.mp h
  obtain ⟨hne, h⟩ := Option.ite_none_left_eq_some.mp h
  obtain ⟨hmem, hbounds⟩ := mapM_parsePart_reads hmax hvss
  have hsorted : ∀ v, v ∈ vs ↔ v ∈ vss.flatten := by
    intro v
    rw [← Option.some.inj h, List.mem_insertionSort, List.mem_dedup]
  obtain ⟨v, hv⟩ := List.exists_mem_of_ne_nil _ hne
  exact ⟨fun v => (hsorted v).trans (hmem v), fun v hv => hbounds v ((hsorted v).mp hv),
    List.ne_nil_of_mem ((hsorted v).mpr hv)⟩

end

def CronFields.reading (f : CronFields) (domRestricted dowRestricted : Bool) : Reading where
  minute := {v | v ∈ f.minute}
  hour := {v | v ∈ f.hour}
  dom := {v | v ∈ f.dom}
  month := {v | v ∈ f.month}
  dow := {v | v ∈ f.dow}
  domRestricted := domRestricted
  dowRestricted := dowRestricted

lemma parseSchedule_reading {expr : Text} {f : CronFields} {domRestricted dowRestricted : Bool}
    (h : parseSchedule expr = some (.cron f domRestricted dowRestricted)) :
    f.reading domRestricted dowRestricted = misread expr ∧
      Reads 0 59 (misread expr).minute f.minute ∧ Reads 0 23 (misread expr).hour f.hour := by
  simp only [parseSchedule] at h
  obtain ⟨-, h⟩ := Option.ite_none_left_eq_some.mp h
  split_ifs at h
  · obtain ⟨ms, -, h⟩ := Option.bind_eq_some_iff.mp h
    split_ifs at h
    exact nomatch Option.some.inj h
  split at h
  case h_1 minute hour dom month dow hfields =>
    obtain ⟨minutes, hminute, h⟩ := Option.bind_eq_some_iff.mp h
    obtain ⟨hours, hhour, h⟩ := Option.bind_eq_some_iff.mp h
    obtain ⟨doms, hdom, h⟩ := Option.bind_eq_some_iff.mp h
    obtain ⟨months, hmonth, h⟩ := Option.bind_eq_some_iff.mp h
    obtain ⟨dows, hdow, h⟩ := Option.bind_eq_some_iff.mp h
    obtain ⟨rfl, rfl, rfl⟩ := ParsedSchedule.cron.inj (Option.some.inj h)
    have rminute := parseField_reads (by decide) hminute
    have rhour := parseField_reads (by decide) hhour
    have rdom := parseField_reads (by decide) hdom
    have rmonth := parseField_reads (by decide) hmonth
    have rdow := parseField_reads (by decide) hdow
    simp only [misread, readingOf, fieldAt, hfields, CronFields.reading]
    refine ⟨?_, rminute, rhour⟩
    simp only [rminute.mem, rhour.mem, rdom.mem, rmonth.mem, rdow.mem, Set.image_id]
    rfl
  case h_2 => exact nomatch h

end Minicrond.Web
