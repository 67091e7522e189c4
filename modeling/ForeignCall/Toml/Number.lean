import ForeignCall.Word

/-! # Numbers of TOML

A number is read from a word, the run of characters it was written with, and has to account for
all of it.

* Underscores may stand between two digits and nowhere else (`ungrouped?`).
* A decimal integer may have a sign and has no leading zero; `0x`, `0o` and `0b` take no sign. All
  integers are signed 64-bit numbers (`integer?`).
* A floating-point number is a decimal integer with a fraction, an exponent or both, or one of
  `inf` and `nan` (`isFloat`). One too large for double precision is refused if it is positive. -/

namespace ForeignCall.Toml

def isHexDigit (c : Char) : Bool :=
  c.isDigit || ('a' ≤ c && c ≤ 'f') || ('A' ≤ c && c ≤ 'F')

def isOctalDigit (c : Char) : Bool := '0' ≤ c && c ≤ '7'

def isBinaryDigit (c : Char) : Bool := c = '0' || c = '1'

/-- The digits without the underscores between them. `afterDigit` tells whether one comes before. -/
def ungroupedFrom (isDigit : Char → Bool) (afterDigit : Bool) : List Char → Option (List Char)
  | [] => if afterDigit then some [] else none
  | c :: cs =>
      if isDigit c then (ungroupedFrom isDigit true cs).map (c :: ·)
      else if c = '_' && afterDigit then ungroupedFrom isDigit false cs
      else none

/-- At least one digit, and single underscores between digits. -/
def ungrouped? (isDigit : Char → Bool) (w : List Char) : Option (List Char) :=
  ungroupedFrom isDigit false w

/-- Digits of a decimal integer: only the number zero starts with a zero. -/
def wholeDigits? (w : List Char) : Option (List Char) :=
  match ungrouped? Char.isDigit w with
  | some ('0' :: _ :: _) => none
  | ds => ds

/-- A sign, if there is one, and what follows; true is minus. -/
def splitSign : List Char → Bool × List Char
  | '-' :: w => (true, w)
  | '+' :: w => (false, w)
  | w => (false, w)

/-- Integers are signed 64-bit numbers. -/
def inRange? (n : Int) : Option Int :=
  if Int64.minValue.toInt ≤ n ∧ n ≤ Int64.maxValue.toInt then some n else none

def integer? (w : List Char) : Option Int :=
  match w with
  | '0' :: 'x' :: ds => (ungrouped? isHexDigit ds).bind fun ds => inRange? (digitsValue 16 ds)
  | '0' :: 'o' :: ds => (ungrouped? isOctalDigit ds).bind fun ds => inRange? (digitsValue 8 ds)
  | '0' :: 'b' :: ds => (ungrouped? isBinaryDigit ds).bind fun ds => inRange? (digitsValue 2 ds)
  | w =>
      let (negative, ds) := splitSign w
      (wholeDigits? ds).bind fun ds =>
        let n : Int := digitsValue 10 ds
        inRange? (if negative then -n else n)

/-! ### Floating-point numbers -/

/-- Whether `m · 10 ^ e` rounds to a finite double-precision number, that is, lies below the
midpoint of the largest one and the next power of two. Numbers far from it are told by their
digits. -/
def isFinite (m : Nat) (e : Int) : Bool :=
  let bound := 1 <<< 1024 - 1 <<< 970
  let magnitude := (digits 10 m).length + e
  m = 0 || magnitude ≤ 300 ||
    (magnitude ≤ 310 &&
      if 0 ≤ e then m * Nat.pow 10 e.toNat < bound else m < bound * Nat.pow 10 (-e).toNat)

/-- The exponent that a word gives, zero if it is empty. -/
def exponent? : List Char → Option Int
  | [] => some 0
  | c :: w =>
      if c = 'e' || c = 'E' then
        let (negative, ds) := splitSign w
        (ungrouped? Char.isDigit ds).map fun ds =>
          let n : Int := digitsValue 10 ds
          if negative then -n else n
      else none

def isDigitOrUnderscore (c : Char) : Bool := c.isDigit || c = '_'

/-- Digits and exponent of a decimal that is no integer. -/
def decimalParts? (w : List Char) : Option (List Char × Int) := do
  let whole ← wholeDigits? (w.takeWhile isDigitOrUnderscore)
  match w.dropWhile isDigitOrUnderscore with
  | [] => none
  | '.' :: r =>
      let fraction ← ungrouped? Char.isDigit (r.takeWhile isDigitOrUnderscore)
      let e ← exponent? (r.dropWhile isDigitOrUnderscore)
      return (whole ++ fraction, e - fraction.length)
  | r => return (whole, ← exponent? r)

def isFloat (w : List Char) : Bool :=
  let (negative, w) := splitSign w
  if w = ['i', 'n', 'f'] || w = ['n', 'a', 'n'] then true
  else
    match decimalParts? w with
    | some (ds, e) => negative || isFinite (digitsValue 10 ds) e
    | none => false

end ForeignCall.Toml
