import ForeignCall.Failure

/-! # Directories of files

A directory is a finite map from relative paths to contents; whatever is a proper beginning of a
path in it is a directory as well. `Directory.read` follows a path name by name, as an operating
system does: empty names and `.` stay, `..` goes up, and a name that is looked up below a file is a
fault of its own. Outside the directory nothing is known but that it lies in one: no name is found
there, and one that is too long for any directory is told apart. -/

namespace ForeignCall

/-- A path as the names in it. -/
abbrev Path := List String

/-- Splits at every slash. -/
def splitSlashes : List Char → List (List Char)
  | [] => [[]]
  | c :: cs =>
      if c = '/' then [] :: splitSlashes cs
      else
        match splitSlashes cs with
        | [] => [[c]]
        | n :: ns => (c :: n) :: ns

def Path.ofString (s : String) : Path := (splitSlashes s.toList).map String.ofList

abbrev Directory := List (Path × List UInt8)

namespace Directory

/-- The contents of a file; of two with one path the later counts. -/
def file? (d : Directory) (p : Path) : Option (List UInt8) :=
  (d.reverse.find? (·.1 = p)).map (·.2)

def isDirectory (d : Directory) (p : Path) : Bool :=
  d.any fun e => p.isPrefixOf e.1 && p.length < e.1.length

/-- Where the names followed so far lead. -/
inductive Place where
  | inside (p : Path)
  | outside

/-- The longest name that a directory can hold, in bytes. -/
def maxName : Nat := 255

/-- The longest path that can be followed, in bytes. -/
def maxPath : Nat := 4095

/-- Follows one name. -/
def enter (d : Directory) (place : Place) (name : String) : Except ReadFault Place :=
  match place with
  | .outside =>
      if name = "" ∨ name = "." ∨ name = ".." then .ok .outside
      else if maxName < name.utf8ByteSize then .error .nameTooLong
      else .error .notFound
  | .inside p =>
      if (d.file? p).isSome then .error .notDirectory
      else if name = "" ∨ name = "." then .ok (.inside p)
      else if name = ".." then .ok (if p.isEmpty then .outside else .inside p.dropLast)
      else if maxName < name.utf8ByteSize then .error .nameTooLong
      else if (d.file? (p ++ [name])).isSome || d.isDirectory (p ++ [name]) then
        .ok (.inside (p ++ [name]))
      else .error .notFound

/-- The contents of the file at a path. -/
def readBytes (d : Directory) (path : String) : Except ReadFault (List UInt8) := do
  if maxPath < path.utf8ByteSize then throw .nameTooLong
  let start : Place := if path.startsWith "/" then .outside else .inside []
  match ← (Path.ofString path).foldlM d.enter start with
  | .outside => .error .isDirectory
  | .inside p =>
      match d.file? p with
      | some bs => .ok bs
      | none => .error .isDirectory

/-- The text of the file at a path. -/
def read (d : Directory) (path : String) : Except ReadFault String := do
  match String.fromUTF8? ⟨(← d.readBytes path).toArray⟩ with
  | some s => .ok s
  | none => .error .encoding

end Directory

end ForeignCall
