/-! # Call ABIs

An `Abi` holds the constants that a call layout depends on: how many registers of each class carry
arguments, how many stack slots a call may use, how composites travel and where the address for a
memory-returned value goes. There is a preset per architecture; a custom ABI is any record, and
`Abi.validate` compares its budgets with the fixed capacities of a call frame.

`Abi.validate_eq_ok_iff` states validation as the conjunction of its bounds; the first bound that
fails is the one reported. -/

namespace ForeignCall

inductive Arch where
  | aarch64
  | x86_64
deriving DecidableEq

namespace Arch

def name : Arch → String
  | aarch64 => "aarch64"
  | x86_64 => "x86-64"

def ofName? (s : String) : Option Arch := [aarch64, x86_64].find? (·.name == s)

/-- Name of the architecture in diagnostics. -/
def label : Arch → String
  | aarch64 => "Aarch64"
  | x86_64 => "X86_64"

theorem ofName?_name (a : Arch) : ofName? a.name = some a := by cases a <;> decide

end Arch

/-- How float-only composites spread over float registers. -/
inductive FloatPacking where
  /-- One member to a register. -/
  | perMember
  /-- Members packed into 8-byte lanes. -/
  | eightbyte
deriving DecidableEq

namespace FloatPacking

def name : FloatPacking → String
  | perMember => "per-member"
  | eightbyte => "eightbyte"

def ofName? (s : String) : Option FloatPacking := [perMember, eightbyte].find? (·.name == s)

def label : FloatPacking → String
  | perMember => "PerMember"
  | eightbyte => "Eightbyte"

theorem ofName?_name (p : FloatPacking) : ofName? p.name = some p := by cases p <;> decide

end FloatPacking

/-- Where the address for a memory-returned value is passed. -/
inductive HiddenPointer where
  /-- In a register of its own. -/
  | register
  /-- In the first integer argument register, ahead of the receiver. -/
  | firstArgument
deriving DecidableEq

namespace HiddenPointer

def name : HiddenPointer → String
  | register => "register"
  | firstArgument => "first-argument"

def ofName? (s : String) : Option HiddenPointer := [register, firstArgument].find? (·.name == s)

def label : HiddenPointer → String
  | register => "Register"
  | firstArgument => "FirstArgument"

theorem ofName?_name (h : HiddenPointer) : ofName? h.name = some h := by cases h <;> decide

end HiddenPointer

structure Abi where
  arch : Arch
  /-- Integer and pointer argument registers. -/
  generalRegisters : Nat
  /-- Float argument registers. -/
  floatRegisters : Nat
  /-- Most 8-byte stack slots that a call may use. -/
  stackSlots : Nat
  /-- Float registers that return a float-only composite, and the most members of one. -/
  floatReturnRegisters : Nat
  packing : FloatPacking
  hiddenPointer : HiddenPointer
  /-- Largest composite, in bytes, that travels in general registers. -/
  registerBytes : UInt32
  /-- A composite that does not fit the rest of its class closes the class for the call. -/
  closeOnSpill : Bool
  /-- A 16-byte aligned pair starts at an even general register. -/
  evenForAlign16 : Bool
  /-- Composites too large for registers are passed by address, not copied to the stack. -/
  largeByAddress : Bool
deriving DecidableEq

/-! ### Capacities of a call frame -/

def generalCapacity : Nat := 8

def floatCapacity : Nat := 8

def stackCapacity : Nat := 64

/-- Float registers captured after a call. -/
def floatResultCapacity : Nat := 4

/-- Bytes in the two captured general registers. -/
def generalResultBytes : Nat := 16

/-- A budget of an ABI with the range it has to lie in. -/
structure Budget where
  field : String
  value : Nat
  least : Nat
  most : Nat
deriving DecidableEq

/-- The budget lies in its range. -/
def Budget.Holds (b : Budget) : Prop := b.least ≤ b.value ∧ b.value ≤ b.most

instance (b : Budget) : Decidable b.Holds := inferInstanceAs (Decidable (_ ∧ _))

/-- What is wrong with an ABI, by itself or for an invoker. -/
inductive AbiDefect where
  | budget (b : Budget)
  | arch (invoker abi : Arch)
  | count (field : String) (configured : Nat) (arch : Arch) (wired : Nat)
  | packing (configured : FloatPacking) (arch : Arch) (wired : FloatPacking)
  | hiddenPointer (configured : HiddenPointer) (arch : Arch) (wired : HiddenPointer)
deriving DecidableEq

def AbiDefect.message : AbiDefect → String
  | budget b => s!"{b.field} is {b.value}, expected {b.least}..={b.most}"
  | arch invoker abi => s!"invoker targets {invoker.name} but the ABI is {abi.name}"
  | count field configured a wired =>
      s!"{field} is {configured} but the {a.name} invoker uses {wired}"
  | packing configured a wired =>
      s!"float_packing is {configured.label} but the {a.name} invoker expects {wired.label}"
  | hiddenPointer configured a wired =>
      s!"hidden_pointer is {configured.label} but the {a.name} invoker expects {wired.label}"

namespace Abi

/-- The 64-bit procedure call standard of AArch64 on ELF platforms. -/
def aarch64 : Abi where
  arch := .aarch64
  generalRegisters := 8
  floatRegisters := 8
  stackSlots := 64
  floatReturnRegisters := 4
  packing := .perMember
  hiddenPointer := .register
  registerBytes := 16
  closeOnSpill := true
  evenForAlign16 := true
  largeByAddress := true

/-- System V on x86-64. -/
def systemV : Abi where
  arch := .x86_64
  generalRegisters := 6
  floatRegisters := 8
  stackSlots := 64
  floatReturnRegisters := 2
  packing := .eightbyte
  hiddenPointer := .firstArgument
  registerBytes := 16
  closeOnSpill := false
  evenForAlign16 := false
  largeByAddress := false

def preset : Arch → Abi
  | .aarch64 => aarch64
  | .x86_64 => systemV

/-- The ABI of the machine that runs the calls. -/
def host : Abi := systemV

/-- The budgets in the order in which they are checked. -/
def budgets (abi : Abi) : List Budget :=
  [⟨"gp_arg_registers", abi.generalRegisters, 1, generalCapacity⟩,
    ⟨"float_arg_registers", abi.floatRegisters, 0, floatCapacity⟩,
    ⟨"max_stack_slots", abi.stackSlots, 0, stackCapacity⟩,
    ⟨"float_return_registers", abi.floatReturnRegisters, 1, floatResultCapacity⟩,
    ⟨"max_register_aggregate", abi.registerBytes.toNat, 8, generalResultBytes⟩]

/-- Every budget lies in its range. -/
def Valid (abi : Abi) : Prop := ∀ b ∈ abi.budgets, b.Holds

instance (abi : Abi) : Decidable abi.Valid := inferInstanceAs (Decidable (∀ b ∈ _, _))

/-- Reports the first budget outside its range. -/
def validate (abi : Abi) : Except AbiDefect Unit :=
  match abi.budgets.find? (¬ ·.Holds) with
  | some b => .error (.budget b)
  | none => .ok ()

theorem validate_eq_ok_iff (abi : Abi) : abi.validate = .ok () ↔ abi.Valid := by
  unfold validate Valid
  cases h : abi.budgets.find? (¬ ·.Holds) with
  | none => simpa using h
  | some b =>
      have hb : ¬ b.Holds := by simpa using List.find?_some h
      exact ⟨fun h' => by simp at h', fun h' => absurd (h' b (List.mem_of_find?_eq_some h)) hb⟩

theorem preset_arch (a : Arch) : (preset a).arch = a := by cases a <;> rfl

theorem valid_preset (a : Arch) : (preset a).Valid := by cases a <;> decide

end Abi

end ForeignCall
