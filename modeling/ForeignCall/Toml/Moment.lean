/-! # Dates and times of TOML

A moment is a date, a time of day, or a date and a time with or without an offset from universal
time. Date and time are joined by `T`, `t` or one space. A date exists in the calendar; a minute
may have a second 60. -/

namespace ForeignCall.Toml

/-- The value of two digits, within bounds, and what follows. -/
def twoDigits? (low high : Nat) : List Char → Option (Nat × List Char)
  | a :: b :: w =>
      let n := 10 * (a.toNat - 48) + (b.toNat - 48)
      if a.isDigit && b.isDigit && low ≤ n && n ≤ high then some (n, w) else none
  | _ => none

def isLeapYear (year : Nat) : Bool :=
  year % 4 = 0 && (year % 100 ≠ 0 || year % 400 = 0)

def daysInMonth (year month : Nat) : Nat :=
  if month = 2 then if isLeapYear year then 29 else 28
  else if month = 4 ∨ month = 6 ∨ month = 9 ∨ month = 11 then 30
  else 31

def skip? (c : Char) : List Char → Option (List Char)
  | d :: w => if d = c then some w else none
  | [] => none

/-- What follows a date. -/
def afterDate? (w : List Char) : Option (List Char) := do
  let (century, w) ← twoDigits? 0 99 w
  let (year, w) ← twoDigits? 0 99 w
  let (month, w) ← twoDigits? 1 12 (← skip? '-' w)
  let (_, w) ← twoDigits? 1 (daysInMonth (100 * century + year) month) (← skip? '-' w)
  return w

/-- What follows a time of day. -/
def afterTime? (w : List Char) : Option (List Char) := do
  let (_, w) ← twoDigits? 0 23 w
  let (_, w) ← twoDigits? 0 59 (← skip? ':' w)
  let (_, w) ← twoDigits? 0 60 (← skip? ':' w)
  match w with
  | '.' :: d :: w => if d.isDigit then some (w.dropWhile Char.isDigit) else none
  | w => some w

/-- An offset from universal time, or nothing. -/
def isOffset (w : List Char) : Bool :=
  match w with
  | [] => true
  | sign :: r =>
      if sign = 'Z' || sign = 'z' then r.isEmpty
      else if sign = '+' || sign = '-' then
        (do
          let (_, r) ← twoDigits? 0 23 r
          let (_, r) ← twoDigits? 0 59 (← skip? ':' r)
          return r) = some []
      else false

def isDate (w : List Char) : Bool := afterDate? w = some []

def isMoment (w : List Char) : Bool :=
  match afterDate? w with
  | some [] => true
  | some (joint :: r) =>
      (joint = 'T' || joint = 't' || joint = ' ') &&
        match afterTime? r with
        | some offset => isOffset offset
        | none => false
  | none => afterTime? w = some []

end ForeignCall.Toml
