import ForeignCall.Signature.Form
import ForeignCall.Toml.Document

/-! # Signature files

A signature file is a TOML document that describes one function. -/

namespace ForeignCall.Signature

def ofText (s : String) : Except SignatureError Signature :=
  match (Toml.read s).bind ofForm with
  | none => .error .malformed
  | some signature => .ok signature

end ForeignCall.Signature
