import ForeignCall.Form
import ForeignCall.Signature

/-! # Signatures as forms

Writing leaves out what is missing (name, table slot, result, size and members) and nothing else.
Reading fills in the defaults: `cdecl`, address zero, no parameters, alignment eight, a trivial
object, by value. Unknown fields are refused, and so are numbers outside their range. -/

namespace ForeignCall

namespace Members

def toForm : Members → Form
  | float32 count => .record [("float32", .ofNat count.toNat)]
  | float64 count => .record [("float64", .ofNat count.toNat)]
  | integer => .text "integer"
  | mixed => .text "mixed"

def ofForm (f : Form) : Option Members :=
  match f.variant? with
  | some ("float32", some payload) => payload.uint32?.map float32
  | some ("float64", some payload) => payload.uint32?.map float64
  | _ =>
      match f.choice? with
      | some "integer" => some integer
      | some "mixed" => some mixed
      | _ => none

end Members

namespace TypeSpec

def fieldNames : List String := ["type", "size", "align", "members", "trivial", "by_ref"]

/-- The fields of a type in order. -/
def entries (t : TypeSpec) : List (String × Form) :=
  [("type", .text t.type.name)] ++
    Form.entryOf? "size" (fun n => .ofNat n.toNat) t.size ++
    [("align", .ofNat t.align.toNat)] ++
    Form.entryOf? "members" Members.toForm t.members ++
    [("trivial", .bool t.trivial), ("by_ref", .bool t.byRef)]

def toForm (t : TypeSpec) : Form := .record t.entries

def ofForm (f : Form) : Option TypeSpec := do
  let es ← f.entries? fieldNames
  let type ← Form.required es "type" fun f => f.choice?.bind TypeName.ofName?
  let size ← Form.optional es "size" Form.uint32?
  let align ← Form.defaulted es "align" Form.uint32? 8
  let members ← Form.optional es "members" Members.ofForm
  let trivial ← Form.defaulted es "trivial" Form.bool? true
  let byRef ← Form.defaulted es "by_ref" Form.bool? false
  return ⟨type, size, align, members, trivial, byRef⟩

end TypeSpec

namespace Signature

def fieldNames : List String :=
  ["name", "convention", "address", "virtual_slot", "params", "returns"]

/-- The fields of a signature in order. -/
def entries (s : Signature) : List (String × Form) :=
  Form.entryOf? "name" Form.text s.name ++
    [("convention", .text s.convention.name), ("address", .ofNat s.address.toNat)] ++
    Form.entryOf? "virtual_slot" (fun n => .ofNat n.toNat) s.virtualSlot ++
    [("params", .list (s.params.map TypeSpec.toForm))] ++
    Form.entryOf? "returns" TypeSpec.toForm s.returns

def toForm (s : Signature) : Form := .record s.entries

def ofForm (f : Form) : Option Signature := do
  let es ← f.entries? fieldNames
  let name ← Form.optional es "name" Form.text?
  let convention ←
    Form.defaulted es "convention" (fun f => f.choice?.bind Convention.ofName?) .cdecl
  let address ← Form.defaulted es "address" Form.uint64? 0
  let virtualSlot ← Form.optional es "virtual_slot" Form.uint64?
  let params ← Form.defaulted es "params" (fun f => f.list?.bind (·.mapM TypeSpec.ofForm)) []
  let returns ← Form.optional es "returns" TypeSpec.ofForm
  return ⟨name, convention, address, virtualSlot, params, returns⟩

end Signature

end ForeignCall
