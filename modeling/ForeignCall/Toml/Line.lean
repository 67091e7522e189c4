import ForeignCall.Form.Json
import ForeignCall.Toml.Value

/-! # Writing TOML

A document is written with one assignment to a line and each value in one piece: lists between
brackets, records between braces. Names that need no quotation marks have none. -/

namespace ForeignCall.Toml

/-- Besides what JSON escapes, the delete character may not stand in text. -/
def escapeText (c : Char) : List Char :=
  if c.toNat = 127 then ['\\', 'u', '0', '0', '7', 'f'] else Form.escapeChar c

def quotedText (s : String) : List Char := '"' :: s.toList.flatMap escapeText ++ ['"']

def keyText (k : String) : List Char :=
  if k.toList ≠ [] ∧ k.toList.all isBareKeyChar then k.toList else quotedText k

mutual

def valueText : Form → List Char
  | .bool b => if b then ['t', 'r', 'u', 'e'] else ['f', 'a', 'l', 's', 'e']
  | .integer n => (Form.integerText n).toList
  | .text s => quotedText s
  | .float literal => literal.toList
  | .moment literal => literal.toList
  | .list fs => '[' :: itemTexts fs ++ [']']
  | .record es => '\x7b' :: fieldTexts es ++ ['\x7d']

def itemTexts : List Form → List Char
  | [] => []
  | [f] => valueText f
  | f :: fs => valueText f ++ [',', ' '] ++ itemTexts fs

def fieldTexts : List (String × Form) → List Char
  | [] => []
  | [(k, f)] => keyText k ++ [' ', '=', ' '] ++ valueText f
  | (k, f) :: es => keyText k ++ [' ', '=', ' '] ++ valueText f ++ [',', ' '] ++ fieldTexts es

end

/-- The line that assigns a value to a key. -/
def lineText (k : String) (f : Form) : List Char :=
  keyText k ++ [' ', '=', ' '] ++ valueText f ++ ['\n']

/-- The document with the given entries. -/
def write (es : List (String × Form)) : String :=
  String.ofList (es.flatMap fun (k, f) => lineText k f)

end ForeignCall.Toml
