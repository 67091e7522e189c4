import ForeignCall.Lowering

/-! # Call plans

A registered function is described by a `Callable`; its `Plan` for one ABI is made once and shared
by every call. Making a plan checks the target against the convention, lowers every parameter and
the result (`Lowering`), and routes all values without data to record their places (`layout`).

The values of a call, in passing order, are its `passengers`: the hidden result pointer where it is
an argument, the receiver and second object where the convention puts them first, the declared
parameters, and the trailing object. The places of a plan are those of its passengers.

Failures come in a fixed order (`Plan.make`): the target, then the parameters by index, then the
result, then the stack limit. -/

namespace ForeignCall

/-- Where control is transferred. -/
inductive Target where
  | direct (address : UInt64)
  /-- An entry of the receiver's virtual function table. -/
  | virtualSlot (slot : UInt64)
deriving DecidableEq

def Target.kind : Target → TargetKind
  | direct _ => .direct
  | virtualSlot _ => .virtualSlot

/-- A registered native function. -/
structure Callable where
  target : Target
  convention : Convention
  params : List ValueType
  result : ResultType
deriving DecidableEq

/-- 32-bit words of the function's argument buffer. -/
def Callable.bufferWords (f : Callable) : Nat :=
  f.params.foldr (fun t n => t.bufferWords + n) 0

/-- A lowered parameter. -/
structure ParamPlan where
  registerClass : RegisterClass
  pass : Pass
  /-- 32-bit words of the value in the argument buffer. -/
  words : Nat
deriving DecidableEq

/-- 32-bit words that a list of parameters takes in the argument buffer. -/
def ParamPlan.total : List ParamPlan → Nat
  | [] => 0
  | p :: ps => p.words + total ps

/-- The trampoline variant that captures a result. -/
inductive Variant where
  | scalar
  | float
  | double
  | hiddenPointer
deriving DecidableEq

namespace Variant

def name : Variant → String
  | scalar => "scalar"
  | float => "float"
  | double => "double"
  | hiddenPointer => "hidden-pointer"

def ofName? (s : String) : Option Variant :=
  [scalar, float, double, hiddenPointer].find? (·.name == s)

/-- Name of the variant in diagnostics. -/
def label : Variant → String
  | scalar => "Scalar"
  | float => "Float"
  | double => "Double"
  | hiddenPointer => "HiddenPointer"

end Variant

/-- A lowered result: where it comes back and how many bytes go to the destination. -/
structure ResultPlan where
  mechanism : Mechanism
  size : UInt32
deriving DecidableEq

def ResultPlan.inMemory (r : ResultPlan) : Bool := r.mechanism = .memory

def ResultPlan.variant (r : ResultPlan) : Variant :=
  match r.mechanism with
  | .memory => .hiddenPointer
  | .float32 => .float
  | .float64 => .double
  | .void | .general | .generalPair | .floatAggregate _ _ => .scalar

/-- What occupies a place of the layout. -/
inductive Role where
  | hiddenReturn
  | object
  | secondObject
  | param (index : Nat)
deriving DecidableEq

structure Placement where
  role : Role
  location : Location
deriving DecidableEq

/-- A value of the call on its way to a place. A parameter knows the offset of its words in the
argument buffer. -/
inductive Passenger where
  | hiddenReturn
  | object
  | secondObject
  | param (index offset : Nat) (plan : ParamPlan)
deriving DecidableEq

namespace Passenger

def role : Passenger → Role
  | hiddenReturn => .hiddenReturn
  | object => .object
  | secondObject => .secondObject
  | param index _ _ => .param index

def demand : Passenger → Demand
  | hiddenReturn | object | secondObject => .general 1 false
  | param _ _ plan => plan.pass.demand

/-- The parameters from a given index and buffer offset on. -/
def params (index offset : Nat) : List ParamPlan → List Passenger
  | [] => []
  | p :: ps => .param index offset p :: params (index + 1) (offset + p.words) ps

def trailing : Trailing → Passenger
  | .object => .object
  | .secondObject => .secondObject

end Passenger

/-- A function with its parameters and result lowered for one ABI. -/
structure Lowering where
  abi : Abi
  target : Target
  convention : Convention
  params : List ParamPlan
  result : ResultPlan

namespace Lowering

/-- The hidden result pointer takes the first integer argument. -/
def hiddenPointerIsArgument (l : Lowering) : Bool :=
  l.result.inMemory && l.abi.hiddenPointer = .firstArgument

/-- 32-bit words that an argument buffer for the function has. -/
def argWords (l : Lowering) : Nat := ParamPlan.total l.params

/-- The values of a call in passing order. -/
def passengers (l : Lowering) : List Passenger :=
  (if l.hiddenPointerIsArgument then [.hiddenReturn] else []) ++
    (if l.convention.receiverFirst then [.object] else []) ++
    (if l.convention.secondObjectFirst then [.secondObject] else []) ++
    Passenger.params 0 0 l.params ++
    l.convention.trailing.toList.map Passenger.trailing

/-- Stack slots that the function needs when nothing limits them. -/
def stackNeed (l : Lowering) : Nat := l.abi.stackNeed (l.passengers.map Passenger.demand)

end Lowering

/-- The places of a list of values, from a cursor on. -/
def Abi.seat (abi : Abi) (c : Cursor) : List Passenger → Except CallError (List Placement × Cursor)
  | [] => .ok ([], c)
  | p :: ps => do
      let (location, c) ← abi.route c p.demand
      let (placements, c) ← abi.seat c ps
      return (⟨p.role, location⟩ :: placements, c)

/-- Lowers parameters by increasing index; the first that cannot be passed is reported. -/
def Abi.lowerParams (abi : Abi) (index : Nat) : List ValueType → Except Failure (List ParamPlan)
  | [] => .ok []
  | t :: ts => do
      let pass ← (abi.pass t).mapError (Obstacle.toFailure (.unsupportedParameter index abi.arch))
      let rest ← abi.lowerParams (index + 1) ts
      return ⟨t.registerClass, pass, t.bufferWords⟩ :: rest

def Abi.lowerResult (abi : Abi) (r : ResultType) : Except Failure ResultPlan := do
  let mechanism ← (abi.mechanism r).mapError (Obstacle.toFailure (.unsupportedReturn abi.arch))
  return ⟨mechanism, r.size⟩

/-- A virtual convention takes a table slot, every other one an address. -/
def Callable.targetMatches (f : Callable) : Bool :=
  f.convention.isVirtual == (f.target.kind = .virtualSlot)

/-- Lowers a function without routing it. -/
def Callable.lower (f : Callable) (abi : Abi) : Except Failure Lowering :=
  if f.targetMatches then do
    let params ← abi.lowerParams 0 f.params
    let result ← abi.lowerResult f.result
    return ⟨abi, f.target, f.convention, params, result⟩
  else .error (.refused (.targetMismatch f.convention f.target.kind))

/-- A lowered function with the place of every value. -/
structure Plan extends Lowering where
  layout : List Placement

namespace Plan

def make (f : Callable) (abi : Abi) : Except Failure Plan := do
  let l ← f.lower abi
  let (layout, _) ← (abi.seat .start l.passengers).mapError .refused
  return ⟨l, layout⟩

end Plan

end ForeignCall
