import ForeignCall.Memory
import ForeignCall.Plan

/-! # Results

After a call the trampoline has captured two general and four float registers. `ResultPlan.deliver`
writes the planned number of bytes from them to the destination and nothing else. A memory result
is already in place, since its destination is the address that the callee was given. -/

namespace ForeignCall

/-- The registers captured after a call. Only those that the result plan names mean anything. -/
structure ResultRegisters where
  general : Vector UInt64 2
  float : Vector UInt64 4
deriving DecidableEq

namespace ResultRegisters

/-- The first `size` bytes of a float aggregate that has `width` bytes in each of its registers. -/
def floatAggregate (r : ResultRegisters) (width registers : UInt8) (size : Nat) :
    Except Breach (List UInt8) :=
  if (width = 4 ∨ width = 8) ∧ size ≤ width.toNat * registers.toNat ∧
      registers.toNat ≤ floatResultCapacity then
    .ok (unpackWords width.toNat (r.float.toList.take registers.toNat) size)
  else .error .outOfRange

/-- The first `size` bytes of consecutive registers. -/
def consecutive (regs : List UInt64) (size : Nat) : Except Breach (List UInt8) :=
  if size ≤ 8 * regs.length then .ok (unpackWords 8 regs size) else .error .outOfRange

end ResultRegisters

namespace ResultPlan

/-- The bytes that go to the destination. -/
def bytes (p : ResultPlan) (r : ResultRegisters) : Except Breach (List UInt8) :=
  match p.mechanism with
  | .void | .memory => .ok []
  | .general | .generalPair => ResultRegisters.consecutive r.general.toList p.size.toNat
  | .float32 | .float64 => ResultRegisters.consecutive (r.float.toList.take 1) p.size.toNat
  | .floatAggregate width registers => r.floatAggregate width registers p.size.toNat

/-- Nothing is written: no result, a memory result or an empty one. -/
def writesNothing (p : ResultPlan) : Bool :=
  p.mechanism = .void || p.mechanism = .memory || p.size = 0

/-- Memory after the result went to its destination. -/
def deliver (p : ResultPlan) (r : ResultRegisters) (destination : UInt64) (m : Memory) :
    Except Breach Memory :=
  if p.writesNothing then .ok m
  else if destination = 0 then .error .noDestination
  else do return m.store destination (← p.bytes r)

end ResultPlan

end ForeignCall
