import ForeignCall.Abi

/-! # Register wiring

A trampoline loads and captures a fixed set of registers. An ABI may be used with it only if the
ABI assigns exactly those (`Wiring.check`); the fields that the trampoline never sees (stack slots,
aggregate limit, closing, alignment, passing by address) are free. -/

namespace ForeignCall

structure Wiring where
  generalRegisters : Nat
  floatRegisters : Nat
  floatReturnRegisters : Nat
  packing : FloatPacking
  hiddenPointer : HiddenPointer
deriving DecidableEq

namespace Wiring

/-- The wiring that an ABI describes. -/
def ofAbi (abi : Abi) : Wiring where
  generalRegisters := abi.generalRegisters
  floatRegisters := abi.floatRegisters
  floatReturnRegisters := abi.floatReturnRegisters
  packing := abi.packing
  hiddenPointer := abi.hiddenPointer

/-- What the System V trampoline loads and captures. -/
def systemV : Wiring := ⟨6, 8, 2, .eightbyte, .firstArgument⟩

/-- Reports the first field in which the ABI differs from the wiring. -/
def check (w : Wiring) (abi : Abi) : Except AbiDefect Unit :=
  if abi.generalRegisters ≠ w.generalRegisters then
    .error (.count "gp_arg_registers" abi.generalRegisters abi.arch w.generalRegisters)
  else if abi.floatRegisters ≠ w.floatRegisters then
    .error (.count "float_arg_registers" abi.floatRegisters abi.arch w.floatRegisters)
  else if abi.floatReturnRegisters ≠ w.floatReturnRegisters then
    .error (.count "float_return_registers" abi.floatReturnRegisters abi.arch
      w.floatReturnRegisters)
  else if abi.packing ≠ w.packing then
    .error (.packing abi.packing abi.arch w.packing)
  else if abi.hiddenPointer ≠ w.hiddenPointer then
    .error (.hiddenPointer abi.hiddenPointer abi.arch w.hiddenPointer)
  else .ok ()

theorem check_eq_ok_iff (w : Wiring) (abi : Abi) : w.check abi = .ok () ↔ ofAbi abi = w := by
  obtain ⟨g, f, r, p, h⟩ := w
  simp only [check, ofAbi, Wiring.mk.injEq]
  split
  · simp_all
  split
  · simp_all
  split
  · simp_all
  split
  · simp_all
  split <;> simp_all

theorem systemV_eq : systemV = ofAbi Abi.systemV := rfl

end Wiring

end ForeignCall
