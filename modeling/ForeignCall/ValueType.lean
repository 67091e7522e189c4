import ForeignCall.Scalar

/-! # Types of values

A value is a scalar, a script object handle or a host object passed by value (a `Composite`), and
any of them may instead be passed by reference, in which case only its address crosses the
boundary. `ValueType.registerClass` is the static classification: it depends on the type alone,
never on an ABI. -/

namespace ForeignCall

/-- What a composite is made of, as far as an ABI looks. -/
inductive Members where
  /-- Single-precision members and nothing else. -/
  | float32 (count : UInt32)
  /-- Double-precision members and nothing else. -/
  | float64 (count : UInt32)
  /-- Integers and pointers only. -/
  | integer
  /-- Integers with floats, or floats of both precisions. -/
  | mixed
deriving DecidableEq

/-- A host object passed or returned by value. An object that is not `trivial` has copy or
destruction code of its own and always travels through memory. -/
structure Composite where
  size : UInt32
  align : UInt32
  members : Members
  trivial : Bool
deriving DecidableEq

namespace Composite

def plain (size align : UInt32) (members : Members) : Composite := ⟨size, align, members, true⟩

def nonTrivial (c : Composite) : Composite := { c with trivial := false }

/-- Size in whole 64-bit words. -/
def words (c : Composite) : Nat := unitsFor c.size.toNat 8

/-- Width in bytes and number of the members, when all are floats of one precision. -/
def floatMembers (c : Composite) : Option (Nat × Nat) :=
  match c.members with
  | .float32 n => some (4, n.toNat)
  | .float64 n => some (8, n.toNat)
  | .integer | .mixed => none

end Composite

def isPowerOfTwo (n : UInt32) : Bool := (List.range 32).any fun k => n.toNat == 1 <<< k

inductive Kind where
  | scalar (s : Scalar)
  | handle
  | composite (c : Composite)
deriving DecidableEq

structure ValueType where
  kind : Kind
  byRef : Bool
deriving DecidableEq

/-- Where values of a type want to travel, before any ABI is looked at. -/
inductive RegisterClass where
  | general
  | float32
  | float64
  | memory
deriving DecidableEq

def RegisterClass.name : RegisterClass → String
  | general => "general"
  | float32 => "float32"
  | float64 => "float64"
  | memory => "memory"

namespace ValueType

def ofScalar (s : Scalar) : ValueType := ⟨.scalar s, false⟩

def handle : ValueType := ⟨.handle, false⟩

def ofComposite (c : Composite) : ValueType := ⟨.composite c, false⟩

/-- The same type, passed by reference. -/
def reference (t : ValueType) : ValueType := { t with byRef := true }

/-- Only an address crosses the boundary. -/
def isAddress (t : ValueType) : Bool := t.byRef || t.kind = .handle

/-- 32-bit words that the value takes in an argument buffer; a by-value composite is there as the
address of its copy. -/
def bufferWords (t : ValueType) : Nat :=
  if t.byRef then 2
  else match t.kind with
    | .scalar s => if s.size ≤ 4 then 1 else 2
    | .handle | .composite _ => 2

/-- Size in bytes of what crosses the boundary. -/
def size (t : ValueType) : UInt32 :=
  if t.isAddress then 8
  else match t.kind with
    | .scalar s => UInt32.ofNat s.size
    | .handle => 8
    | .composite c => c.size

/-- Alignment in bytes of what crosses the boundary. -/
def align (t : ValueType) : UInt32 :=
  if t.isAddress then t.size
  else match t.kind with
    | .composite c => c.align
    | .scalar _ | .handle => t.size

def registerClass (t : ValueType) : RegisterClass :=
  if t.byRef then .general
  else match t.kind with
    | .composite _ => .memory
    | .scalar .f32 => .float32
    | .scalar .f64 => .float64
    | .scalar _ | .handle => .general

end ValueType

/-- What a function returns. -/
inductive ResultType where
  | void
  | value (t : ValueType)
deriving DecidableEq

namespace ResultType

/-- Size in bytes, zero for `void`. -/
def size : ResultType → UInt32
  | void => 0
  | value t => t.size

def registerClass? : ResultType → Option RegisterClass
  | void => none
  | value t => some t.registerClass

end ResultType

end ForeignCall
