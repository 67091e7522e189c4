import ForeignCall.Abi
import ForeignCall.Form

/-! # ABIs as forms

An ABI is written with all its fields. Reading needs all of them and ignores fields that it does
not know. -/

namespace ForeignCall.Abi

/-- The fields of an ABI in order. -/
def entries (abi : Abi) : List (String × Form) :=
  [("arch", .text abi.arch.name),
    ("gp_arg_registers", .ofNat abi.generalRegisters),
    ("float_arg_registers", .ofNat abi.floatRegisters),
    ("max_stack_slots", .ofNat abi.stackSlots),
    ("float_return_registers", .ofNat abi.floatReturnRegisters),
    ("float_packing", .text abi.packing.name),
    ("hidden_pointer", .text abi.hiddenPointer.name),
    ("max_register_aggregate", .ofNat abi.registerBytes.toNat),
    ("close_class_on_spill", .bool abi.closeOnSpill),
    ("even_gp_for_align16", .bool abi.evenForAlign16),
    ("large_aggregates_by_address", .bool abi.largeByAddress)]

def toForm (abi : Abi) : Form := .record abi.entries

/-- A count of registers or slots. -/
def count? (f : Form) : Option Nat := f.below? UInt64.size

def ofEntries (es : List (String × Form)) : Option Abi := do
  let arch ← Form.required es "arch" fun f => f.choice?.bind Arch.ofName?
  let generalRegisters ← Form.required es "gp_arg_registers" count?
  let floatRegisters ← Form.required es "float_arg_registers" count?
  let stackSlots ← Form.required es "max_stack_slots" count?
  let floatReturnRegisters ← Form.required es "float_return_registers" count?
  let packing ← Form.required es "float_packing" fun f => f.choice?.bind FloatPacking.ofName?
  let hiddenPointer ←
    Form.required es "hidden_pointer" fun f => f.choice?.bind HiddenPointer.ofName?
  let registerBytes ← Form.required es "max_register_aggregate" Form.uint32?
  let closeOnSpill ← Form.required es "close_class_on_spill" Form.bool?
  let evenForAlign16 ← Form.required es "even_gp_for_align16" Form.bool?
  let largeByAddress ← Form.required es "large_aggregates_by_address" Form.bool?
  return ⟨arch, generalRegisters, floatRegisters, stackSlots, floatReturnRegisters, packing,
    hiddenPointer, registerBytes, closeOnSpill, evenForAlign16, largeByAddress⟩

def ofForm : Form → Option Abi
  | .record es => ofEntries es
  | _ => none

end ForeignCall.Abi
