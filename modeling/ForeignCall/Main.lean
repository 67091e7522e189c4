import ForeignCall.Command.Exit

/-! # Program

Reads the files that the command names and ends as it says. -/

open ForeignCall

/-- The text of a file of the machine. -/
def readText (path : String) : IO (Except ReadFault String) := do
  match ← (IO.FS.readBinFile path).toBaseIO with
  | .ok bytes =>
      match String.fromUTF8? bytes with
      | some s => return .ok s
      | none => return .error .encoding
  | .error (.noFileOrDirectory ..) => return .error .notFound
  | .error (.inappropriateType ..) => return .error .isDirectory
  | .error e => return .error (.other (toString e))

def main (args : List String) : IO UInt32 := do
  let paths :=
    match Command.ofArguments args with
    | .ok c => c.paths
    | .error _ => []
  let texts ← paths.mapM fun path => do return (path, ← readText path)
  let files : Files := fun path => ((texts.find? (·.1 = path)).map (·.2)).getD (.error .notFound)
  let exit := Exit.ofArguments files args
  IO.print exit.stdout
  IO.eprint exit.stderr
  return exit.status
