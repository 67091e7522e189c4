import ForeignCall.Form
import ForeignCall.Word

/-! # Printing forms as JSON

One entry or item to a line, two spaces to a level; an empty list or record stays on its line.
Inside text, quotes, backslashes and control characters are escaped and everything else is kept.
Entries are printed as they stand, also when two have one name. -/

namespace ForeignCall.Form

/-- Two lower-case hexadecimal digits. -/
def hexPair (n : Nat) : List Char := [digitChar (n / 16 % 16), digitChar (n % 16)]

def escapeChar (c : Char) : List Char :=
  if c = '"' then ['\\', '"']
  else if c = '\\' then ['\\', '\\']
  else if c = '\n' then ['\\', 'n']
  else if c = '\r' then ['\\', 'r']
  else if c = '\t' then ['\\', 't']
  else if c.toNat = 8 then ['\\', 'b']
  else if c.toNat = 12 then ['\\', 'f']
  else if c.toNat < 32 then ['\\', 'u', '0', '0'] ++ hexPair c.toNat
  else [c]

/-- Text between quotes. -/
def quoted (s : String) : String := "\"" ++ String.ofList (s.toList.flatMap escapeChar) ++ "\""

def indent (depth : Nat) : String := String.ofList (List.replicate (2 * depth) ' ')

def integerText (n : Int) : String :=
  if n < 0 then "-" ++ decimal n.natAbs else decimal n.natAbs

mutual

/-- The text of a form whose first line is already indented. -/
def pretty (depth : Nat) : Form → String
  | bool b => if b then "true" else "false"
  | integer n => integerText n
  | text s => quoted s
  | float literal => literal
  | moment literal => quoted literal
  | list [] => "[]"
  | list (f :: fs) =>
      "[\n" ++ prettyItems (depth + 1) (f :: fs) ++ indent depth ++ "]"
  | record [] => "\x7b\x7d"
  | record (e :: es) =>
      "\x7b\n" ++ prettyEntries (depth + 1) (e :: es) ++ indent depth ++ "\x7d"

def prettyItems (depth : Nat) : List Form → String
  | [] => ""
  | [f] => indent depth ++ pretty depth f ++ "\n"
  | f :: fs => indent depth ++ pretty depth f ++ ",\n" ++ prettyItems depth fs

def prettyEntries (depth : Nat) : List (String × Form) → String
  | [] => ""
  | [(k, v)] => indent depth ++ quoted k ++ ": " ++ pretty depth v ++ "\n"
  | (k, v) :: es => indent depth ++ quoted k ++ ": " ++ pretty depth v ++ ",\n" ++
      prettyEntries depth es

end

end ForeignCall.Form
