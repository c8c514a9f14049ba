import Minicrond.Web.Text
import Mathlib.Data.Int.Log
import Mathlib.Data.Rat.Floor

/-! Numbers of the web interface: what `Number` reads from a text, as a double. -/

namespace Minicrond.Web

open Minicrond.Library

def nearest (q : ℚ) : ℤ :=
  if q - ⌊q⌋ < 1 / 2 then ⌊q⌋
  else if 1 / 2 < q - ⌊q⌋ then ⌊q⌋ + 1
  else if ⌊q⌋ % 2 = 0 then ⌊q⌋ else ⌊q⌋ + 1

def toDouble (q : ℚ) : Option ℚ :=
  let unit : ℚ := 2 ^ max (Int.log 2 |q| - 52) (-1074)
  let double := nearest (q / unit) * unit
  if |double| < 2 ^ 1024 then some double else none

def digitValue (c : ℕ) : ℕ :=
  if isDigit c then c - '0'.toNat
  else if inRange 'a' 'z' c then c - 'a'.toNat + 10
  else if inRange 'A' 'Z' c then c - 'A'.toNat + 10
  else 36

def readDigits (base : ℕ) (t : Text) : ℕ := t.foldl (fun n c => base * n + digitValue c) 0

def readRadix (base : ℕ) (t : Text) : Option ℚ :=
  if t ≠ [] ∧ t.all (digitValue · < base) then some (readDigits base t) else none

def readExponent (t : Text) : Option ℤ :=
  match t with
  | [] => some 0
  | e :: rest =>
    if e = 'e'.toNat ∨ e = 'E'.toNat then
      let signed := rest.head? = some '+'.toNat ∨ rest.head? = some '-'.toNat
      let digits := if signed then rest.tail else rest
      if digits ≠ [] ∧ digits.all isDigit then
        some (if rest.head? = some '-'.toNat then -readDigits 10 digits else readDigits 10 digits)
      else none
    else none

def readDecimal (t : Text) : Option ℚ :=
  let whole := t.takeWhile isDigit
  let rest := t.dropWhile isDigit
  let point := rest.head? = some '.'.toNat
  let fraction := if point then rest.tail.takeWhile isDigit else []
  let rest := if point then rest.tail.dropWhile isDigit else rest
  if whole = [] ∧ fraction = [] then none
  else (readExponent rest).map fun e : ℤ => readDigits 10 (whole ++ fraction) * 10 ^ (e - fraction.length)

def readLiteral (t : Text) : Option ℚ :=
  match t with
  | [] => some 0
  | c :: rest =>
    if c = '+'.toNat then readDecimal rest
    else if c = '-'.toNat then (readDecimal rest).map (-·)
    else if c = '0'.toNat then
      match rest with
      | [] => some 0
      | r :: digits =>
        if r = 'x'.toNat ∨ r = 'X'.toNat then readRadix 16 digits
        else if r = 'o'.toNat ∨ r = 'O'.toNat then readRadix 8 digits
        else if r = 'b'.toNat ∨ r = 'B'.toNat then readRadix 2 digits
        else readDecimal t
    else readDecimal t

def toNumber (t : Text) : Option ℚ := (readLiteral t.trim).bind toDouble

inductive TimeUnit where
  | ms | us | ns | s | m | h
  deriving DecidableEq

def timeUnits : List (Text × TimeUnit) :=
  [(text "ms", .ms), (text "us", .us), (text "µs", .us), (text "ns", .ns), (text "s", .s), (text "m", .m),
    (text "h", .h)]

def durationParts : ℕ → Text → Option (List (Text × TimeUnit))
  | 0, _ => none
  | n + 1, t => do
    let whole := t.takeWhile isDigit
    let rest := t.dropWhile isDigit
    let fraction := if rest.head? = some '.'.toNat then rest.tail.takeWhile isDigit else []
    let amount := if fraction = [] then whole else whole ++ '.'.toNat :: fraction
    let unit ← timeUnits.find? fun u => u.1.isPrefixOf (t.drop amount.length)
    let rest := t.drop (amount.length + unit.1.length)
    if whole = [] then none
    else if rest = [] then some [(amount, unit.2)]
    else (durationParts n rest).map ((amount, unit.2) :: ·)

def unitMs : TimeUnit → Option ℚ
  | .ms => some 1
  | .s => some 1000
  | .m => some 60000
  | .h => some 3600000
  | .us | .ns => none

/-- The duration in milliseconds. One beyond the doubles is refused here, where the code returns `Infinity`. -/
def parseDuration (t : Text) : Option ℚ :=
  if t.trim = [] then none
  else if t.trim.all (· = '0'.toNat) then some 0
  else do
    let parts ← durationParts t.trim.length t.trim
    parts.foldlM (fun ms part => do
      let amount ← toNumber part.1
      let factor ← unitMs part.2
      let product ← toDouble (amount * factor)
      toDouble (ms + product)) 0

end Minicrond.Web
