import ForeignCall.Routing
import ForeignCall.ValueType

/-! # Lowering of values

How one value travels on an ABI: a `Pass` for a parameter, a `Mechanism` for a result. Scalars,
handles and references are simple; a composite is looked at member by member.

* A *float aggregate* is a trivial composite of floats of one precision that fits the float return
  registers (`Abi.isFloatAggregate`). It is passed and returned in float registers, `Abi.lane?`
  bytes to a register.
* Any other composite of at most `registerBytes` bytes travels in general registers.
* Larger ones are passed by address or as a stack image, and are returned through memory.
* Objects that are not trivial travel by address and through memory, whatever their size.

Sizes are 32-bit numbers and register counts are bytes; a product that leaves 32 bits is reported
as `Breach.outOfRange`. -/

namespace ForeignCall

/-- How one parameter moves from the argument buffer into slots. -/
inductive Pass where
  /-- An integer-like value, widened into one general slot. -/
  | general (scalar : Scalar)
  | float32
  | float64
  /-- Only the address of the value. -/
  | address
  /-- The object's bytes in consecutive general slots, or all on the stack. -/
  | inlineWords (words size : UInt32) (align16 : Bool)
  /-- A float aggregate, `width` bytes to a float register, or its image on the stack. -/
  | floatMembers (count width : UInt8) (size : UInt32)
  /-- The object's bytes on the stack. -/
  | stackImage (words size : UInt32) (align16 : Bool)
deriving DecidableEq

/-- What the value asks of the router. -/
def Pass.demand : Pass → Demand
  | general _ | address => .general 1 false
  | float32 | float64 => .float 1 1
  | inlineWords words _ align16 => .general words.toNat align16
  | floatMembers count _ size => .float count.toNat (unitsFor size.toNat 8)
  | stackImage words _ align16 => .stack words.toNat align16

/-- Where a result comes back. -/
inductive Mechanism where
  | void
  /-- The first general result register. -/
  | general
  /-- The first two general result registers. -/
  | generalPair
  | float32
  | float64
  /-- The float result registers, `registerWidth` bytes in each. -/
  | floatAggregate (registerWidth registers : UInt8)
  /-- Written by the callee through a hidden pointer. -/
  | memory
deriving DecidableEq

/-- Why a value could not be lowered. -/
inductive Obstacle where
  | objection (o : Objection)
  | breach (b : Breach)
deriving DecidableEq

def Obstacle.toFailure (report : Objection → CallError) : Obstacle → Failure
  | objection o => .refused (report o)
  | breach b => .broken b

/-- What rules a composite out by itself. -/
def Composite.objection? (c : Composite) : Option Objection :=
  if c.size = 0 then some .empty
  else if isPowerOfTwo c.align then none
  else some .alignment

namespace Abi

/-! ### Float aggregates -/

/-- Float return registers, counted in 32 bits. -/
def floatBudget (abi : Abi) : Nat := abi.floatReturnRegisters % UInt32.size

/-- The composite fits the float return registers at `lane` bytes to a register. -/
def fitsLanes (abi : Abi) (c : Composite) (lane : Nat) : Except Breach Bool :=
  if UInt32.size ≤ lane * abi.floatBudget then .error .outOfRange
  else .ok (c.size.toNat ≤ lane * abi.floatBudget)

def isFloatAggregate (abi : Abi) (c : Composite) : Except Breach Bool :=
  match c.trivial, c.floatMembers with
  | true, some (width, count) =>
      if count = 0 then .ok false
      else match abi.packing with
        | .perMember => if abi.floatBudget < count then .ok false else abi.fitsLanes c width
        | .eightbyte => abi.fitsLanes c 8
  | _, _ => .ok false

/-- Bytes that each float register carries, for a float aggregate. -/
def lane? (abi : Abi) (c : Composite) : Except Breach (Option Nat) :=
  match abi.isFloatAggregate c with
  | .error b => .error b
  | .ok false => .ok none
  | .ok true =>
      match abi.packing with
      | .perMember => .ok (c.floatMembers.map (·.1))
      | .eightbyte => .ok (some 8)

/-- Float registers that an aggregate takes. -/
def laneCount (c : Composite) (lane : Nat) : UInt8 := UInt8.ofNat (unitsFor c.size.toNat lane)

/-! ### Composites -/

def passComposite (abi : Abi) (c : Composite) : Except Obstacle Pass :=
  match c.objection? with
  | some o => .error (.objection o)
  | none =>
      if c.trivial = false then .ok .address
      else match abi.lane? c with
        | .error b => .error (.breach b)
        | .ok (some lane) => .ok (.floatMembers (laneCount c lane) (UInt8.ofNat lane) c.size)
        | .ok none =>
            if c.size ≤ abi.registerBytes then
              if c.members = .mixed ∧ abi.packing = .eightbyte then
                .error (.objection .mixedMembers)
              else .ok (.inlineWords (UInt32.ofNat c.words) c.size (16 ≤ c.align))
            else if abi.largeByAddress then .ok .address
            else .ok (.stackImage (UInt32.ofNat c.words) c.size (16 ≤ c.align))

def returnComposite (abi : Abi) (c : Composite) : Except Obstacle Mechanism :=
  match c.objection? with
  | some o => .error (.objection o)
  | none =>
      if c.trivial = false then .ok .memory
      else match abi.lane? c with
        | .error b => .error (.breach b)
        | .ok (some lane) => .ok (.floatAggregate (UInt8.ofNat lane) (laneCount c lane))
        | .ok none =>
            if abi.registerBytes < c.size then .ok .memory
            else if abi.packing = .eightbyte ∧ c.members ≠ .integer then
              .error (.objection .mixedMembers)
            else if c.size ≤ 8 then .ok .general
            else .ok .generalPair

/-! ### Values -/

/-- How a value of the type is passed. -/
def pass (abi : Abi) (t : ValueType) : Except Obstacle Pass :=
  if t.byRef then .ok (.general .pointer)
  else match t.kind with
    | .scalar .f32 => .ok .float32
    | .scalar .f64 => .ok .float64
    | .scalar s => .ok (.general s)
    | .handle => .ok (.general .pointer)
    | .composite c => abi.passComposite c

/-- How a result of the type comes back. -/
def mechanism (abi : Abi) (r : ResultType) : Except Obstacle Mechanism :=
  match r with
  | .void => .ok .void
  | .value t =>
      if t.byRef then .ok .general
      else match t.kind with
        | .scalar .f32 => .ok .float32
        | .scalar .f64 => .ok .float64
        | .scalar _ | .handle => .ok .general
        | .composite c => abi.returnComposite c

end Abi

end ForeignCall
