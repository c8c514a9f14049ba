import Minicrond.Library.Words

/-! Strings of the web interface. -/

namespace Minicrond.Web

open Minicrond.Library

/-- A string by the numbers of its characters. A JavaScript string may hold halves of surrogate pairs, which are no
Unicode characters, so these are plain numbers. -/
abbrev Text := List ℕ

def tab : ℕ := 0x09

def lineFeed : ℕ := 0x0a

def carriageReturn : ℕ := 0x0d

def space : ℕ := 0x20

def doubleQuote : ℕ := 0x22

def singleQuote : ℕ := 0x27

def backslash : ℕ := 0x5c

def backquote : ℕ := 0x60

def isWhiteSpace (c : ℕ) : Bool :=
  0x09 ≤ c && c ≤ 0x0d || c = space || c = 0xa0 || c = 0x1680 || 0x2000 ≤ c && c ≤ 0x200a || c = 0x2028 ||
    c = 0x2029 || c = 0x202f || c = 0x205f || c = 0x3000 || c = 0xfeff

def Text.trim (t : Text) : Text := Library.trim isWhiteSpace t

end Minicrond.Web
