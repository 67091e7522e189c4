/-! # Forms

A `Form` is a tree of plain data: what a description file denotes and what a report is printed
from. Records keep their entries in order.

Reading follows one set of rules. A field is found by name, and of two entries with one name the
later counts (`Form.field?`). A number has to lie in the range of its field. A choice is written as
its name, or as a record with a single entry, which names it and whose value is the payload. A
choice without payload takes an empty list or record there (`Form.choice?`). -/

namespace ForeignCall

inductive Form where
  | bool (b : Bool)
  | integer (n : Int)
  | text (s : String)
  /-- A floating-point number as it was written. -/
  | float (literal : String)
  /-- A date or time as it was written. -/
  | moment (literal : String)
  | list (items : List Form)
  | record (entries : List (String × Form))
deriving Inhabited

namespace Form

def ofNat (n : Nat) : Form := .integer n

/-- The value of the last entry with the given name. -/
def field? (name : String) : List (String × Form) → Option Form
  | [] => none
  | (k, v) :: es =>
      match field? name es with
      | some w => some w
      | none => if k = name then some v else none

def bool? : Form → Option Bool
  | bool b => some b
  | _ => none

def text? : Form → Option String
  | text s => some s
  | _ => none

def list? : Form → Option (List Form)
  | list items => some items
  | _ => none

/-- A whole number below a bound. -/
def below? (bound : Nat) : Form → Option Nat
  | integer n => if 0 ≤ n ∧ n < bound then some n.toNat else none
  | _ => none

def uint32? (f : Form) : Option UInt32 := (f.below? UInt32.size).map UInt32.ofNat

def uint64? (f : Form) : Option UInt64 := (f.below? UInt64.size).map UInt64.ofNat

/-- The name of a choice, and its payload if it was written with one. -/
def variant? : Form → Option (String × Option Form)
  | text s => some (s, none)
  | record [(k, v)] => some (k, some v)
  | _ => none

/-- A payload that holds nothing. -/
def isVacant : Form → Bool
  | list [] | record [] => true
  | _ => false

/-- The name of a choice that has no payload. -/
def choice? (f : Form) : Option String :=
  match f.variant? with
  | some (name, none) => some name
  | some (name, some payload) => if payload.isVacant then some name else none
  | none => none

/-- The entries of a record with the given field names, all of them known. A list stands for the
record whose fields it gives in order. -/
def entries? (names : List String) : Form → Option (List (String × Form))
  | record es => if es.all (names.contains ·.1) then some es else none
  | list items => some (names.zip items)
  | _ => none

variable {α : Type}

/-- A field that has to be there. -/
def required (es : List (String × Form)) (name : String) (read : Form → Option α) : Option α :=
  (field? name es).bind read

/-- A field that has a default. -/
def defaulted (es : List (String × Form)) (name : String) (read : Form → Option α) (d : α) :
    Option α :=
  match field? name es with
  | some f => read f
  | none => some d

/-- A field that may be missing. -/
def optional (es : List (String × Form)) (name : String) (read : Form → Option α) :
    Option (Option α) :=
  match field? name es with
  | some f => (read f).map some
  | none => some none

/-- An entry that is written only if it has a value. -/
def entryOf? (name : String) (write : α → Form) : Option α → List (String × Form)
  | some a => [(name, write a)]
  | none => []

end Form

end ForeignCall
