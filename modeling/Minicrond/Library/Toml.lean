import Minicrond.Library.Words

/-! A reader for a part of TOML: tables, arrays of tables, and keys with strings, integers, booleans and arrays of
them, one line at a time. What takes several lines (multi-line strings and arrays) is refused, and so are floats,
dates, inline tables, dotted keys outside headers and Unicode escapes. -/

namespace Minicrond.Library.Toml

inductive Scalar where
  | str (s : List ℕ)
  | int (n : ℤ)
  | bool (b : Bool)
  deriving DecidableEq

inductive Value where
  | scalar (s : Scalar)
  | array (items : List Scalar)
  deriving DecidableEq

inductive Line where
  | blank
  | table (keys : List (List ℕ)) (last : List ℕ)
  | item (keys : List (List ℕ)) (last : List ℕ)
  | entry (key : List ℕ) (value : Value)
  deriving DecidableEq

/-! ## Lines -/

def lineFeed : ℕ := 0x0a

def quotation : ℕ := 0x22

def apostrophe : ℕ := 0x27

def backslash : ℕ := 0x5c

def isSpace (c : ℕ) : Bool := c = 0x20 || c = 0x09

def isBare (c : ℕ) : Bool :=
  inRange 'a' 'z' c || inRange 'A' 'Z' c || isDigit c || c = '_'.toNat || c = '-'.toNat

/-- The characters of strings and comments: no control character but the tab, and only characters of Unicode. -/
def isPlain (c : ℕ) : Bool :=
  c = 0x09 || 0x20 ≤ c && c ≠ 0x7f && !(0xd800 ≤ c && c ≤ 0xdfff) && c ≤ 0x10ffff

def skip (t : List ℕ) : List ℕ := t.dropWhile isSpace

def unescape (c : ℕ) : Option ℕ :=
  if c = quotation ∨ c = backslash then some c
  else if c = 'b'.toNat then some 0x08
  else if c = 't'.toNat then some 0x09
  else if c = 'n'.toNat then some 0x0a
  else if c = 'f'.toNat then some 0x0c
  else if c = 'r'.toNat then some 0x0d
  else none

def readBasic : List ℕ → Option (List ℕ × List ℕ)
  | [] => none
  | c :: t =>
    if c = quotation then some ([], t)
    else if c = backslash then
      match t with
      | [] => none
      | e :: t' => do
        let x ← unescape e
        (readBasic t').map fun r => (x :: r.1, r.2)
    else if isPlain c then (readBasic t).map fun r => (c :: r.1, r.2)
    else none

def readLiteral (t : List ℕ) : Option (List ℕ × List ℕ) :=
  match t.dropWhile (· ≠ apostrophe) with
  | [] => none
  | _ :: rest =>
    let s := t.takeWhile (· ≠ apostrophe)
    if s.all isPlain then some (s, rest) else none

def readString (t : List ℕ) : Option (List ℕ × List ℕ) :=
  match t with
  | [] => none
  | q :: rest =>
    if rest.take 2 = [q, q] then none
    else if q = quotation then readBasic rest
    else if q = apostrophe then readLiteral rest
    else none

def readKey (t : List ℕ) : Option (List ℕ × List ℕ) :=
  if t.takeWhile isBare ≠ [] then some (t.takeWhile isBare, t.dropWhile isBare) else readString t

def readHeader : ℕ → List ℕ → Option (List (List ℕ) × List ℕ × List ℕ)
  | 0, _ => none
  | n + 1, t => do
    let r ← readKey (skip t)
    match skip r.2 with
    | [] => none
    | c :: rest =>
      if c = '.'.toNat then (readHeader n rest).map fun h => (r.1 :: h.1, h.2)
      else if c = ']'.toNat then some ([], r.1, rest)
      else none

def readDecimal (t : List ℕ) : ℕ := t.foldl (fun n c => 10 * n + (c - '0'.toNat)) 0

def readNat (t : List ℕ) : Option (ℕ × List ℕ) :=
  let digits := t.takeWhile isDigit
  if digits = [] ∨ digits.head? = some '0'.toNat ∧ digits ≠ ['0'.toNat] then none
  else some (readDecimal digits, t.dropWhile isDigit)

def readInt (t : List ℕ) : Option (ℤ × List ℕ) :=
  match t with
  | [] => none
  | c :: rest =>
    if c = '-'.toNat then (readNat rest).map fun r => (-(r.1 : ℤ), r.2)
    else if c = '+'.toNat then (readNat rest).map fun r => ((r.1 : ℤ), r.2)
    else (readNat t).map fun r => ((r.1 : ℤ), r.2)

def readScalar (t : List ℕ) : Option (Scalar × List ℕ) :=
  if t.head? = some quotation ∨ t.head? = some apostrophe then (readString t).map fun r => (.str r.1, r.2)
  else if (text "true").isPrefixOf t then some (.bool true, t.drop 4)
  else if (text "false").isPrefixOf t then some (.bool false, t.drop 5)
  else (readInt t).map fun r => (.int r.1, r.2)

def readItems : ℕ → List ℕ → Option (List Scalar × List ℕ)
  | 0, _ => none
  | n + 1, t =>
    if (skip t).head? = some ']'.toNat then some ([], (skip t).tail)
    else do
      let r ← readScalar (skip t)
      match skip r.2 with
      | [] => none
      | c :: rest =>
        if c = ']'.toNat then some ([r.1], rest)
        else if c = ','.toNat then (readItems n rest).map fun items => (r.1 :: items.1, items.2)
        else none

def readValue (t : List ℕ) : Option (Value × List ℕ) :=
  if t.head? = some '['.toNat then (readItems t.length t.tail).map fun r => (.array r.1, r.2)
  else (readScalar t).map fun r => (.scalar r.1, r.2)

def endsLine (t : List ℕ) : Bool :=
  match skip t with
  | [] => true
  | c :: comment => c = '#'.toNat && comment.all isPlain

def readEntry (t : List ℕ) : Option Line := do
  let r ← readKey t
  match skip r.2 with
  | [] => none
  | c :: rest =>
    if c = '='.toNat then do
      let v ← readValue (skip rest)
      if endsLine v.2 then some (.entry r.1 v.1) else none
    else none

def readLine (line : List ℕ) : Option Line :=
  if endsLine line then some .blank
  else if (text "[[").isPrefixOf (skip line) then do
    let h ← readHeader line.length ((skip line).drop 2)
    if h.2.2.head? = some ']'.toNat ∧ endsLine h.2.2.tail then some (.item h.1 h.2.1) else none
  else if (text "[").isPrefixOf (skip line) then do
    let h ← readHeader line.length ((skip line).drop 1)
    if endsLine h.2.2 then some (.table h.1 h.2.1) else none
  else readEntry (skip line)

/-! ## Documents -/

inductive Step where
  | key (k : List ℕ)
  | item (i : ℕ)
  deriving DecidableEq

abbrev Path := List Step

structure Doc where
  current : Path := []
  tables : List Path := []
  values : List (Path × Value) := []
  deriving DecidableEq

namespace Doc

variable (d : Doc)

def isItemOf (p q : Path) : Bool :=
  match q.getLast? with
  | some (.item _) => q.dropLast = p
  | _ => false

def size (p : Path) : ℕ := d.tables.countP (isItemOf p)

def enter (p : Path) (k : List ℕ) : Path :=
  let q := p ++ [.key k]
  if d.size q = 0 then q else q ++ [.item (d.size q - 1)]

def resolve (keys : List (List ℕ)) : Path := keys.foldl d.enter []

def Blocked (p : Path) : Prop := ∃ v ∈ d.values, v.1 <+: p

def Extended (p : Path) : Prop := ∃ q ∈ d.tables, p <+: q

instance (p : Path) : Decidable (d.Blocked p) := inferInstanceAs (Decidable (∃ v ∈ d.values, v.1 <+: p))

instance (p : Path) : Decidable (d.Extended p) := inferInstanceAs (Decidable (∃ q ∈ d.tables, p <+: q))

def openTable (p : Path) : Doc := { d with current := p, tables := d.tables ++ [p] }

def step : Line → Option Doc
  | .blank => some d
  | .table keys last =>
    let p := d.resolve keys ++ [.key last]
    if p ∈ d.tables ∨ d.size p ≠ 0 ∨ d.Blocked p then none else some (d.openTable p)
  | .item keys last =>
    let p := d.resolve keys ++ [.key last]
    if d.size p = 0 ∧ d.Extended p ∨ d.Blocked p then none else some (d.openTable (p ++ [.item (d.size p)]))
  | .entry key value =>
    let p := d.current ++ [.key key]
    if d.Extended p ∨ d.Blocked p then none else some { d with values := d.values ++ [(p, value)] }

def run (lines : List Line) : Option Doc := lines.foldlM step d

end Doc

def read (t : List ℕ) : Option Doc := ((t.splitOn lineFeed).mapM readLine).bind fun lines => Doc.run {} lines

/-! ## Reading strings -/

section

variable {c : ℕ} {s t : List ℕ}

lemma span_append {p : ℕ → Bool} (hs : ∀ c ∈ s, p c = true) (ht : ∀ c ∈ t.head?, p c = false) :
    (s ++ t).takeWhile p = s ∧ (s ++ t).dropWhile p = t := by
  rw [List.takeWhile_append_of_pos hs, List.dropWhile_append_of_pos hs]
  cases t with
  | nil => simp
  | cons c t =>
    have hc := ht c rfl
    simp [hc]

lemma skip_of_head (h : ∀ c ∈ t.head?, isSpace c = false) : skip t = t :=
  (span_append (s := []) (fun _ hc => nomatch hc) h).2

lemma readBasic_end (t : List ℕ) : readBasic (quotation :: t) = some ([], t) := by
  rw [readBasic.eq_def]
  simp

lemma readBasic_escape {e x : ℕ} (he : unescape e = some x) :
    readBasic (backslash :: e :: t) = (readBasic t).map fun r => (x :: r.1, r.2) := by
  rw [readBasic.eq_def]
  simp [he, backslash, quotation]

lemma readBasic_plain (hq : c ≠ quotation) (hb : c ≠ backslash) :
    readBasic (c :: t) = if isPlain c then (readBasic t).map fun r => (c :: r.1, r.2) else none := by
  rw [readBasic.eq_def]
  simp [hq, hb]

lemma readLiteral_append (hs : apostrophe ∉ s) (t : List ℕ) :
    readLiteral (s ++ apostrophe :: t) = if s.all isPlain then some (s, t) else none := by
  have hspan : (s ++ apostrophe :: t).takeWhile (fun c => decide (c ≠ apostrophe)) = s ∧
      (s ++ apostrophe :: t).dropWhile (fun c => decide (c ≠ apostrophe)) = apostrophe :: t := by
    apply span_append
    · intro c hc
      simpa using fun h : c = apostrophe => hs (h ▸ hc)
    · simp
  rw [readLiteral, hspan.1, hspan.2]

lemma readString_apostrophe (hs : apostrophe ∉ s) (ht : apostrophe ∉ t.head?) :
    readString (apostrophe :: (s ++ apostrophe :: t)) = if s.all isPlain then some (s, t) else none := by
  have hmarks : (s ++ apostrophe :: t).take 2 ≠ [apostrophe, apostrophe] := by
    intro h
    cases s with
    | nil => cases t <;> simp_all
    | cons c s =>
      simp only [List.cons_append, List.take_succ_cons, List.cons.injEq] at h
      exact hs (h.1 ▸ List.mem_cons_self)
  rw [readString, if_neg hmarks, if_neg (by decide), if_pos rfl, readLiteral_append hs]

lemma readString_quotation (ht : quotation ∉ t.head?) : readString (quotation :: t) = readBasic t := by
  have hmarks : t.take 2 ≠ [quotation, quotation] := by
    intro h
    cases t <;> simp_all
  rw [readString, if_neg hmarks, if_pos rfl]

/-! ## Reading values -/

lemma readNat_append {digits : List ℕ} (hdigits : ∀ c ∈ digits, isDigit c = true) (hne : digits ≠ [])
    (hzero : digits.head? = some '0'.toNat → digits = ['0'.toNat]) (ht : ∀ c ∈ t.head?, isDigit c = false) :
    readNat (digits ++ t) = some (readDecimal digits, t) := by
  obtain ⟨htake, hdrop⟩ := span_append hdigits ht
  rw [readNat, htake, hdrop]
  exact if_neg fun h => h.elim hne fun h' => h'.2 (hzero h'.1)

lemma readScalar_int (hq : c ≠ quotation) (ha : c ≠ apostrophe) (ht : c ≠ 't'.toNat) (hf : c ≠ 'f'.toNat) :
    readScalar (c :: t) = (readInt (c :: t)).map fun r => (.int r.1, r.2) := by
  have htrue : (text "true").isPrefixOf (c :: t) = false := by
    rw [show text "true" = 't'.toNat :: text "rue" by decide, List.isPrefixOf, beq_false_of_ne ht.symm,
      Bool.false_and]
  have hfalse : (text "false").isPrefixOf (c :: t) = false := by
    rw [show text "false" = 'f'.toNat :: text "alse" by decide, List.isPrefixOf, beq_false_of_ne hf.symm,
      Bool.false_and]
  rw [readScalar, if_neg (by simp [hq, ha]), htrue, hfalse]
  rfl

lemma readScalar_string (h : t.head? = some quotation ∨ t.head? = some apostrophe) :
    readScalar t = (readString t).map fun r => (.str r.1, r.2) := if_pos h

section

variable {n : ℕ} {u rest : List ℕ} {v : Scalar} (hskip : skip t = u) (hu : u.head? ≠ some ']'.toNat)

include hskip hu

lemma readItems_none (h : readScalar u = none) : readItems (n + 1) t = none := by
  rw [readItems, hskip, if_neg hu, h]
  rfl

lemma readItems_last (h : readScalar u = some (v, ']'.toNat :: rest)) :
    readItems (n + 1) t = some ([v], rest) := by
  rw [readItems, hskip, if_neg hu, h]
  rfl

lemma readItems_comma (h : readScalar u = some (v, ','.toNat :: rest)) :
    readItems (n + 1) t = (readItems n rest).map fun items => (v :: items.1, items.2) := by
  rw [readItems, hskip, if_neg hu, h]
  rfl

end

lemma readEntry_none (h : readKey t = none) : readEntry t = none := by
  rw [readEntry, h]
  rfl

lemma readEntry_equals {key r rest u : List ℕ} (hkey : readKey t = some (key, r)) (hr : skip r = '='.toNat :: rest)
    (hrest : skip rest = u) :
    readEntry t = (readValue u).bind fun v => if endsLine v.2 then some (.entry key v.1) else none := by
  rw [readEntry, hkey]
  simp only [Option.bind_eq_bind, Option.bind_some]
  rw [hr, ← hrest]
  rfl

lemma readLine_entry (hspace : isSpace c = false) (hcomment : c ≠ '#'.toNat) (hbracket : c ≠ '['.toNat) :
    readLine (c :: t) = readEntry (c :: t) := by
  have hskip : skip (c :: t) = c :: t := skip_of_head (by simpa using hspace)
  have hend : endsLine (c :: t) = false := by
    rw [endsLine, hskip]
    simp only [decide_eq_false hcomment, Bool.false_and]
  have hone : (text "[").isPrefixOf (c :: t) = false := by
    rw [show text "[" = '['.toNat :: [] by decide, List.isPrefixOf, beq_false_of_ne hbracket.symm, Bool.false_and]
  have htwo : (text "[[").isPrefixOf (c :: t) = false := by
    rw [show text "[[" = '['.toNat :: text "[" by decide, List.isPrefixOf, beq_false_of_ne hbracket.symm,
      Bool.false_and]
  rw [readLine, hskip, hend, hone, htwo]
  rfl

end

/-! ## Running lines -/

namespace Doc

variable {d : Doc}

lemma run_cons (l : Line) (ls : List Line) : d.run (l :: ls) = (d.step l).bind fun d' => d'.run ls := rfl

lemma run_append (ls ls' : List Line) : d.run (ls ++ ls') = (d.run ls).bind fun d' => d'.run ls' :=
  List.foldlM_append

def add (d : Doc) (entries : List (List ℕ × Value)) : Doc :=
  { d with values := d.values ++ entries.map fun e => (d.current ++ [.key e.1], e.2) }

def Free (d : Doc) (k : List ℕ) : Prop :=
  ¬ d.Extended (d.current ++ [.key k]) ∧ ¬ d.Blocked (d.current ++ [.key k])

lemma step_entry {k : List ℕ} (h : d.Free k) (v : Value) : d.step (.entry k v) = some (d.add [(k, v)]) :=
  if_neg fun h' => h'.elim h.1 h.2

lemma step_entry_eq {d' : Doc} {k : List ℕ} {v : Value} (h : d.step (.entry k v) = some d') :
    d' = d.add [(k, v)] :=
  (Option.some.inj (Option.ite_none_left_eq_some.mp h).2).symm

lemma Free.add {k k' : List ℕ} (h : d.Free k) (hne : k' ≠ k) (v : Value) : (d.add [(k', v)]).Free k := by
  refine ⟨h.1, ?_⟩
  rintro ⟨w, hw, hle⟩
  rcases List.mem_append.mp hw with hw | hw
  · exact h.2 ⟨w, hw, hle⟩
  · rw [List.map_singleton, List.mem_singleton] at hw
    rw [hw] at hle
    have heq := hle.eq_of_length (by simp [Doc.add])
    simp only [Doc.add, List.append_cancel_left_eq, List.cons.injEq, Step.key.injEq, and_true] at heq
    exact hne heq

lemma add_add (entries entries' : List (List ℕ × Value)) :
    (d.add entries).add entries' = d.add (entries ++ entries') := by
  simp [add]

lemma run_entries {entries : List (List ℕ × Value)} (hnodup : (entries.map Prod.fst).Nodup)
    (hfree : ∀ e ∈ entries, d.Free e.1) : d.run (entries.map fun e => .entry e.1 e.2) = some (d.add entries) := by
  induction entries generalizing d with
  | nil => simp [run, add]
  | cons e entries ih =>
    obtain ⟨hnew, hnodup⟩ := List.nodup_cons.mp hnodup
    rw [List.map_cons, run_cons, step_entry (hfree e List.mem_cons_self), Option.bind_some, ih hnodup, add_add]
    · rfl
    · intro e' he'
      have hne : e.1 ≠ e'.1 := fun h => hnew (h ▸ List.mem_map_of_mem he')
      exact (hfree e' (List.mem_cons_of_mem _ he')).add hne e.2

lemma run_entries_eq {d' : Doc} {entries : List (List ℕ × Value)}
    (h : d.run (entries.map fun e => .entry e.1 e.2) = some d') : d' = d.add entries := by
  induction entries generalizing d with
  | nil =>
    rw [← Option.some.inj h]
    simp [add]
  | cons e entries ih =>
    rw [List.map_cons, run_cons] at h
    obtain ⟨d₁, hstep, hrun⟩ := Option.bind_eq_some_iff.mp h
    rw [ih hrun, step_entry_eq hstep, add_add]
    rfl

end Doc

end Minicrond.Library.Toml
