import ForeignCall.Plan

/-! # Signatures

A `Signature` is the description of one function as it is written down: types by name, object
sizes and shapes where needed, and defaults for what is left out. `Signature.callable` turns it
into a `Callable`; a parameter that is void, and an object without a size, even one passed by
reference, are refused with the value they stand at. -/

namespace ForeignCall

inductive TypeName where
  | scalar (s : Scalar)
  | handle
  | object
  | void
deriving DecidableEq

namespace TypeName

def name : TypeName → String
  | scalar s => s.name
  | handle => "handle"
  | object => "object"
  | void => "void"

def ofName? (s : String) : Option TypeName :=
  if s = "handle" then some .handle
  else if s = "object" then some .object
  else if s = "void" then some .void
  else (Scalar.ofName? s).map .scalar

theorem ofName?_name (t : TypeName) : ofName? t.name = some t := by
  cases t with
  | scalar s => cases s <;> decide
  | handle | object | void => decide

end TypeName

/-- The written type of a parameter or result. Size, alignment, members and triviality matter for
objects only. -/
structure TypeSpec where
  type : TypeName
  size : Option UInt32
  align : UInt32
  members : Option Members
  trivial : Bool
  byRef : Bool
deriving DecidableEq

/-- The type described by `t`, where `s` says which value it belongs to. -/
def TypeSpec.valueType (t : TypeSpec) (s : Subject) : Except SignatureError ValueType :=
  match t.type with
  | .scalar p => .ok ⟨.scalar p, t.byRef⟩
  | .handle => .ok ⟨.handle, t.byRef⟩
  | .void => .error (.void s)
  | .object =>
      match t.size with
      | none => .error (.unsized s)
      | some size =>
          .ok ⟨.composite ⟨size, t.align, t.members.getD .integer, t.trivial⟩, t.byRef⟩

structure Signature where
  name : Option String
  convention : Convention
  /-- Function address for direct conventions. -/
  address : UInt64
  /-- Table slot for virtual conventions. -/
  virtualSlot : Option UInt64
  params : List TypeSpec
  /-- Nothing is returned when it is missing. -/
  returns : Option TypeSpec
deriving DecidableEq

namespace Signature

/-- Reads parameter types by increasing index; the first that is refused is reported. -/
def paramTypes (index : Nat) : List TypeSpec → Except SignatureError (List ValueType)
  | [] => .ok []
  | t :: ts => do
      let first ← t.valueType (.parameter index)
      return first :: (← paramTypes (index + 1) ts)

def resultType : Option TypeSpec → Except SignatureError ResultType
  | none => .ok .void
  | some t => if t.type = .void then .ok .void else do return .value (← t.valueType .result)

def target (s : Signature) : Target :=
  match s.virtualSlot with
  | some slot => .virtualSlot slot
  | none => .direct s.address

def callable (s : Signature) : Except SignatureError Callable := do
  let params ← paramTypes 0 s.params
  let result ← resultType s.returns
  return ⟨s.target, s.convention, params, result⟩

end Signature

/-- Why a signature could not be planned. -/
inductive PlanFailure where
  | signature (e : SignatureError)
  | call (e : Failure)
deriving DecidableEq

/-- The call plan of a signature. -/
def Signature.plan (s : Signature) (abi : Abi) : Except PlanFailure Plan := do
  let f ← s.callable.mapError .signature
  (Plan.make f abi).mapError .call

end ForeignCall
