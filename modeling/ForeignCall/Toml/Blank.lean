/-! # Blanks, comments and line ends of TOML

A reader takes a list of characters and gives back what it read and the rest. The functions here
read nothing and only skip. A comment goes from `#` to the end of its line and holds no control
character but the tab; a line ends with a newline, which a carriage return may precede. -/

namespace ForeignCall.Toml

/-- A reader of values of type `α`: the value read and the characters after it. -/
abbrev Reader (α : Type) := List Char → Option (α × List Char)

def isBlank (c : Char) : Bool := c = ' ' || c = '\t'

/-- What text and comments may hold: the tab, and everything but control characters. -/
def isPrintable (c : Char) : Bool := c = '\t' || (32 ≤ c.toNat && c.toNat ≠ 127)

def skipBlanks (cs : List Char) : List Char := cs.dropWhile isBlank

def skipComment : List Char → List Char
  | '#' :: cs => cs.dropWhile isPrintable
  | cs => cs

def newline? : List Char → Option (List Char)
  | '\n' :: cs => some cs
  | '\r' :: '\n' :: cs => some cs
  | _ => none

/-- Past the end of a line, which the end of the text is too. -/
def lineEnd? : List Char → Option (List Char)
  | [] => some []
  | cs => newline? cs

/-- Past the rest of a line that holds nothing more than a comment. -/
def finishLine? (cs : List Char) : Option (List Char) :=
  lineEnd? (skipComment (skipBlanks cs))

/-- Skips blanks, newlines and comments, possibly from inside a comment on. -/
def skipFillerFrom (inComment : Bool) : List Char → List Char
  | [] => []
  | c :: cs =>
      if inComment && isPrintable c then skipFillerFrom true cs
      else if c = '#' then skipFillerFrom true cs
      else if isBlank c || c = '\n' then skipFillerFrom false cs
      else if c = '\r' && cs.head? = some '\n' then skipFillerFrom false cs
      else c :: cs

/-- Skips blanks, newlines and comments. -/
def skipFiller (cs : List Char) : List Char := skipFillerFrom false cs

end ForeignCall.Toml
