import ForeignCall.Toml.Moment
import ForeignCall.Toml.Quoted
import ForeignCall.Toml.Table

/-! # Keys and values of TOML

A key is one or more names with dots between them; a name is bare or quoted on one line. A value is
text, a list between brackets, a record between braces, or a word. Lists may go over several lines,
hold comments and end with a comma; records may not. Lists and records nest at most `maxDepth`
deep, and a key has at most as many names. -/

namespace ForeignCall.Toml

def maxDepth : Nat := 79

/-! ### Keys -/

def isBareKeyChar (c : Char) : Bool := c.isAlphanum || c = '_' || c = '-'

def keyName (cs : List Char) : Option (String × List Char) :=
  match cs.takeWhile isBareKeyChar with
  | [] => (line? cs).map fun (name, r) => (String.ofList name, r)
  | name => some (String.ofList name, cs.dropWhile isBareKeyChar)

/-- A key of at most the given number of names, and the blanks around it. -/
def key : Nat → Reader (List String)
  | 0, _ => none
  | n + 1, cs => do
      let (name, r) ← keyName (skipBlanks cs)
      match skipBlanks r with
      | '.' :: r =>
          let (names, r) ← key n r
          return (name :: names, r)
      | r => return ([name], r)

/-! ### Words -/

def isWordChar (c : Char) : Bool :=
  c.isAlphanum || c = '_' || c = '-' || c = '+' || c = '.' || c = ':'

/-- A word and what follows. A space after a date joins it to the digits behind. -/
def splitWord (cs : List Char) : List Char × List Char :=
  let w := cs.takeWhile isWordChar
  match cs.dropWhile isWordChar with
  | ' ' :: r =>
      if isDate w && (r.head?.any Char.isDigit) then
        (w ++ ' ' :: r.takeWhile isWordChar, r.dropWhile isWordChar)
      else (w, ' ' :: r)
  | r => (w, r)

/-- What a word stands for. -/
def wordForm? (w : List Char) : Option Form :=
  if w = ['t', 'r', 'u', 'e'] then some (.bool true)
  else if w = ['f', 'a', 'l', 's', 'e'] then some (.bool false)
  else
    match integer? w with
    | some n => some (.integer n)
    | none =>
        if isFloat w then some (.float (String.ofList w))
        else if isMoment w then some (.moment (String.ofList w))
        else none

def word (cs : List Char) : Option (Form × List Char) :=
  (wordForm? (splitWord cs).1).map fun f => (f, (splitWord cs).2)

/-! ### Lists and records -/

/-- The items of a list after its opening bracket, in at most so many rounds. -/
def items (item : Reader Form) : Nat → Reader (List Form)
  | 0, _ => none
  | n + 1, cs =>
      match skipFiller cs with
      | ']' :: r => some ([], r)
      | cs => do
          let (f, r) ← item cs
          match skipFiller r with
          | ',' :: r =>
              let (fs, r) ← items item n r
              return (f :: fs, r)
          | ']' :: r => return ([f], r)
          | _ => none

/-- A key and its value. -/
def assignment (item : Reader Form) (cs : List Char) :
    Option ((List String × Form) × List Char) := do
  match ← key maxDepth cs with
  | (ks, '=' :: r) =>
      let (f, r) ← item (skipBlanks r)
      return ((ks, f), r)
  | _ => none

/-- The assignments of a record, at least one, up to its closing brace. -/
def fields (item : Reader Form) : Nat → Reader (List (List String × Form))
  | 0, _ => none
  | n + 1, cs => do
      let (e, r) ← assignment item cs
      match skipBlanks r with
      | ',' :: r =>
          let (es, r) ← fields item n r
          return (e :: es, r)
      | '\x7d' :: r => return ([e], r)
      | _ => none

/-- The record of its assignments. -/
def recordOf? (es : List (List String × Form)) : Option Form :=
  (es.foldlM (fun t (ks, f) => Entries.assign true f ks t) []).map fun t =>
    .record (entryForms t)

/-- A record after its opening brace. -/
def record (item : Reader Form) (cs : List Char) : Option (Form × List Char) :=
  match skipBlanks cs with
  | '\x7d' :: r => some (.record [], r)
  | cs => do
      let (es, r) ← fields item cs.length cs
      return (← recordOf? es, r)

/-- A value with at most so many lists and records inside one another. -/
def value : Nat → Reader Form
  | depth, cs =>
      match cs with
      | [] => none
      | c :: r =>
          if c = '"' || c = '\x27' then
            (text? cs).map fun (text, r) => (.text (String.ofList text), r)
          else if c = '[' then
            match depth with
            | 0 => none
            | d + 1 => (items (value d) cs.length r).map fun (fs, r) => (.list fs, r)
          else if c = '\x7b' then
            match depth with
            | 0 => none
            | d + 1 => record (value d) r
          else word cs

end ForeignCall.Toml
