import ForeignCall.Abi.Form
import ForeignCall.Failure
import ForeignCall.Toml.Document
import ForeignCall.Toml.Line

/-! # ABI descriptions

The text of an ABI is a TOML document with one line for each field. Reading a description gives a
valid ABI or says why not: the text is malformed, or the ABI it describes has a defect. -/

namespace ForeignCall.Abi

def text (abi : Abi) : String := Toml.write abi.entries

def ofText (s : String) : Except ConfigError Abi :=
  match (Toml.read s).bind ofForm with
  | none => .error .malformed
  | some abi =>
      match abi.validate with
      | .ok _ => .ok abi
      | .error d => .error (.invalid d)

end ForeignCall.Abi
