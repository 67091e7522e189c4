import ForeignCall.Toml.Blank
import ForeignCall.Toml.Number

/-! # Quoted text of TOML

Text stands between quotation marks, in which a backslash escapes, or between apostrophes, in which
nothing does. Either is marked once, and then ends on its line, or three times, and then may go
over several lines.

Reading is a machine over characters (`Quoting.step`) whose state says what the last ones began: a
run of marks, an escape, a code point in hexadecimal, a line end. Text that is marked three times
may hold one or two marks in a row and may end with two more before the closing ones. There a
carriage return counts only with the newline after it, and the two are read as a newline; a
backslash before a line end drops all blanks and newlines that follow. -/

namespace ForeignCall.Toml

/-- How a text is quoted. -/
structure Quoting where
  mark : Char
  escapes : Bool
  /-- Marked three times: the text may go over several lines. -/
  lines : Bool

/-- What the characters read last have begun. -/
inductive Pending where
  | nothing
  /-- So many marks in a row. -/
  | marks (count : Nat)
  | carriageReturn
  | escape
  /-- A code point with so many digits to come. -/
  | code (left value : Nat)
  /-- Blanks after a backslash; the line may have ended already. -/
  | fold (ended : Bool)
  | foldReturn
deriving DecidableEq

/-- The character after a backslash, for escapes of one character. -/
def escaped? (c : Char) : Option Char :=
  match c with
  | 'b' => some '\x08'
  | 't' => some '\t'
  | 'n' => some '\n'
  | 'f' => some '\x0c'
  | 'r' => some '\r'
  | '"' => some '"'
  | '\\' => some '\\'
  | _ => none

/-- The character with the given code point. -/
def scalar? (n : Nat) : Option Char := if n.isValidChar then some (Char.ofNat n) else none

namespace Quoting

def basic : Quoting := ⟨'"', true, false⟩

def basicLines : Quoting := ⟨'"', true, true⟩

def literal : Quoting := ⟨'\x27', false, false⟩

def literalLines : Quoting := ⟨'\x27', false, true⟩

/-- The text that a character adds when nothing is pending, and what it begins. -/
def begin? (q : Quoting) (c : Char) : Option (List Char × Pending) :=
  if c = q.mark then some ([], .marks 1)
  else if c = '\\' && q.escapes then some ([], .escape)
  else if c = '\n' && q.lines then some (['\n'], .nothing)
  else if c = '\r' && q.lines then some ([], .carriageReturn)
  else if isPrintable c then some ([c], .nothing)
  else none

/-- Whether the marks read so far close the text, whatever comes next. -/
def closed (q : Quoting) (count : Nat) : Bool := if q.lines then 3 ≤ count else count = 1

/-- The text that a character adds, and what is pending after it. -/
def step (q : Quoting) (pending : Pending) (c : Char) : Option (List Char × Pending) :=
  match pending with
  | .nothing => q.begin? c
  | .marks count =>
      if c = q.mark then some ([], .marks (count + 1))
      else (q.begin? c).map fun (added, next) => (List.replicate count q.mark ++ added, next)
  | .carriageReturn => if c = '\n' then some (['\n'], .nothing) else none
  | .escape =>
      if c = 'u' then some ([], .code 4 0)
      else if c = 'U' then some ([], .code 8 0)
      else if q.lines && isBlank c then some ([], .fold false)
      else if q.lines && c = '\n' then some ([], .fold true)
      else if q.lines && c = '\r' then some ([], .foldReturn)
      else (escaped? c).map fun e => ([e], .nothing)
  | .code left value =>
      if isHexDigit c then
        let value := 16 * value + digitValue c
        if left ≤ 1 then (scalar? value).map fun e => ([e], .nothing)
        else some ([], .code (left - 1) value)
      else none
  | .fold ended =>
      if isBlank c then some ([], .fold ended)
      else if c = '\n' then some ([], .fold true)
      else if c = '\r' then some ([], .foldReturn)
      else if ended then q.begin? c
      else none
  | .foldReturn => if c = '\n' then some ([], .fold true) else none

/-- Text up to the closing marks. Of five marks in a row the first two belong to the text. -/
def readFrom (q : Quoting) (pending : Pending) : Reader (List Char)
  | [] =>
      match pending with
      | .marks count =>
          if q.closed count then some (List.replicate (count - 3) q.mark, []) else none
      | _ => none
  | c :: cs =>
      let ends : Option Nat :=
        match pending with
        | .marks count =>
            if q.closed count && (!q.lines || c ≠ q.mark || count = 5) then some (count - 3)
            else none
        | _ => none
      match ends with
      | some extra => some (List.replicate extra q.mark, c :: cs)
      | none => do
          let (added, next) ← q.step pending c
          let (text, rest) ← readFrom q next cs
          return (added ++ text, rest)

/-- Text after its opening marks; a newline right after three of them is dropped. -/
def read (q : Quoting) (cs : List Char) : Option (List Char × List Char) :=
  q.readFrom .nothing (if q.lines then (newline? cs).getD cs else cs)

end Quoting

/-- Text on one line, as keys are quoted. -/
def line? : Reader (List Char)
  | c :: cs =>
      if c = Quoting.basic.mark then Quoting.basic.read cs
      else if c = Quoting.literal.mark then Quoting.literal.read cs
      else none
  | [] => none

/-- Text in any of the four forms. -/
def text? : Reader (List Char)
  | '"' :: '"' :: '"' :: cs => Quoting.basicLines.read cs
  | '\x27' :: '\x27' :: '\x27' :: cs => Quoting.literalLines.read cs
  | cs => line? cs

end ForeignCall.Toml
