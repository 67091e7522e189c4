import ForeignCall.Form

/-! # Tables under construction

The statements of a description add to a tree of tables. A table remembers how it came to be, for
that decides what may still be added:

* one that a header names (`header`) is complete in its section, and no dotted key reaches into it;
* one that a header only passes through (`implied`) may be named later, once;
* one that a dotted key passes through (`dotted`) is only ever added to by dotted keys.

Nothing is written twice: a key is given one value, and a header names one table, or adds one to an
array of tables. -/

namespace ForeignCall.Toml

/-- How a table came to be. -/
inductive Origin where
  | header
  | implied
  | dotted
deriving DecidableEq

inductive Node where
  | value (f : Form)
  | table (origin : Origin) (entries : List (String × Node))
  /-- An array of tables, each under a header of its own. -/
  | tables (items : List (List (String × Node)))
deriving Inhabited

abbrev Entries := List (String × Node)

namespace Entries

/-- Replaces the entry of a key, or adds one at the end. -/
def adjust (k : String) (f : Option Node → Option Node) : Entries → Option Entries
  | [] => (f none).map fun n => [(k, n)]
  | (k', n) :: es =>
      if k' = k then (f (some n)).map fun n => (k, n) :: es
      else (adjust k f es).map ((k', n) :: ·)

/-- Changes the last table of an array. -/
def onLast (f : Entries → Option Entries) : List Entries → Option (List Entries)
  | [] => none
  | [es] => (f es).map ([·])
  | es :: items => (onLast f items).map (es :: ·)

/-- Gives a value to a dotted key. The table that holds it has to be the one that the statement
stands in (`direct`) or one that dotted keys have made. -/
def assign (direct : Bool) (v : Form) : List String → Entries → Option Entries
  | [], _ => none
  | [k], es =>
      es.adjust k fun
        | none => if direct then some (.value v) else none
        | some _ => none
  | k :: ks, es =>
      es.adjust k fun
        | none => (assign true v ks []).map (.table .dotted)
        | some (.table .dotted inner) => (assign true v ks inner).map (.table .dotted)
        | some (.table .implied inner) => (assign false v ks inner).map (.table .implied)
        | some (.tables items) => (onLast (assign false v ks) items).map .tables
        | some _ => none

/-- Changes the table that the keys of a header lead to, which they imply if it is missing. In an
array of tables they lead to the last. -/
def descend (f : Entries → Option Entries) : List String → Entries → Option Entries
  | [], es => f es
  | k :: ks, es =>
      es.adjust k fun
        | none => (descend f ks []).map (.table .implied)
        | some (.table origin inner) => (descend f ks inner).map (.table origin)
        | some (.tables items) => (onLast (descend f ks) items).map .tables
        | some (.value _) => none

/-- Names a table by a header: a new one, or one that was only implied before. -/
def openTable (k : String) (es : Entries) : Option Entries :=
  es.adjust k fun
    | none => some (.table .header [])
    | some (.table .implied inner) => some (.table .header inner)
    | some _ => none

/-- Adds a table to an array of tables. -/
def openItem (k : String) (es : Entries) : Option Entries :=
  es.adjust k fun
    | none => some (.tables [[]])
    | some (.tables items) => some (.tables (items ++ [[]]))
    | some _ => none

end Entries

/-! ### The finished tree -/

mutual

def Node.toForm : Node → Form
  | .value f => f
  | .table _ es => .record (entryForms es)
  | .tables items => .list (itemForms items)

def entryForms : List (String × Node) → List (String × Form)
  | [] => []
  | (k, n) :: es => (k, n.toForm) :: entryForms es

def itemForms : List (List (String × Node)) → List Form
  | [] => []
  | es :: items => .record (entryForms es) :: itemForms items

end

end ForeignCall.Toml
