import ForeignCall.Toml.Value

/-! # TOML documents

A document is a sequence of lines. Each is empty but for a comment, assigns a value to a key, or
opens a table with a header: `[a.b]` names the table `b` of `a`, and `[[a.b]]` adds a table to the
array `b` of `a`. Assignments go to the table opened last, at first to the document itself. A byte
order mark at the start is skipped.

`Toml.read` gives the document as a record, or nothing if any line is malformed or two lines
contradict each other. -/

namespace ForeignCall.Toml

inductive Statement where
  | empty
  | assign (key : List String) (value : Form)
  | openTable (key : List String)
  | openItem (key : List String)

/-- A statement up to the end of its line. -/
def statement (cs : List Char) : Option (Statement × List Char) :=
  match skipBlanks cs with
  | '[' :: '[' :: r => do
      match ← key maxDepth r with
      | (ks, ']' :: ']' :: r) => return (.openItem ks, ← finishLine? r)
      | _ => none
  | '[' :: r => do
      match ← key maxDepth r with
      | (ks, ']' :: r) => return (.openTable ks, ← finishLine? r)
      | _ => none
  | cs =>
      match finishLine? cs with
      | some r => some (.empty, r)
      | none => do
          let ((ks, f), r) ← assignment (value maxDepth) cs
          return (.assign ks f, ← finishLine? r)

/-- The statements of a text, in at most so many rounds. -/
def statements : Nat → List Char → Option (List Statement)
  | _, [] => some []
  | 0, _ => none
  | n + 1, cs => do
      let (s, r) ← statement cs
      return s :: (← statements n r)

/-! ### From statements to a record -/

/-- A document so far, and the keys of the table that was opened last. -/
structure Draft where
  root : Entries
  current : List String

/-- Follows a header, which ends with the given key. -/
def Entries.follow (f : String → Entries → Option Entries) : List String → Entries → Option Entries
  | [], _ => none
  | ks@(_ :: _), es => es.descend (f (ks.getLastD "")) ks.dropLast

namespace Draft

def empty : Draft := ⟨[], []⟩

def add (d : Draft) : Statement → Option Draft
  | .empty => some d
  | .assign ks f => do return ⟨← d.root.descend (Entries.assign true f ks) d.current, d.current⟩
  | .openTable ks => do return ⟨← Entries.follow Entries.openTable ks d.root, ks⟩
  | .openItem ks => do return ⟨← Entries.follow Entries.openItem ks d.root, ks⟩

end Draft

/-- The characters of a text without a byte order mark. -/
def unmarked (s : String) : List Char :=
  match s.toList with
  | '\ufeff' :: cs => cs
  | cs => cs

def read (s : String) : Option Form := do
  let cs := unmarked s
  let draft ← (← statements cs.length cs).foldlM Draft.add .empty
  return .record (entryForms draft.root)

end ForeignCall.Toml
