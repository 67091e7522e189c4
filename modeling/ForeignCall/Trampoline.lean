import ForeignCall.Frame
import ForeignCall.Result
import ForeignCall.Wiring

/-! # Trampolines

A trampoline gets everything it needs in one `Block`: the register slots, the outgoing stack words,
the target, and the address for a result in memory. That address goes into the general slot kept
for it, or, where the ABI keeps none, into the indirect field.

On System V the trampoline loads six general and eight float registers and copies all stack words;
afterwards it captures `rax`, `rdx`, `xmm0` and `xmm1`. It never loads the indirect field. -/

namespace ForeignCall

/-- What an invoker is entered with. -/
structure Entry where
  frame : Frame
  target : UInt64
  variant : Variant
  /-- Address for the result. -/
  result : UInt64

structure Block where
  general : Nat → UInt64
  float : Nat → UInt64
  stack : List UInt64
  target : UInt64
  indirect : UInt64

/-- The block for an entry. The hidden pointer replaces the contents of its slot. -/
def Block.ofEntry (e : Entry) : Except Breach Block := do
  let stack ← e.frame.view .stack
  let block : Block :=
    ⟨e.frame.slots .general, e.frame.slots .float, stack, e.target, 0⟩
  if e.variant = .hiddenPointer then
    match e.frame.returnSlot with
    | some slot =>
        if slot < generalCapacity then
          return { block with general := fun i => if i = slot then e.result else block.general i }
        else .error .outOfRange
    | none => return { block with indirect := e.result }
  else return block

/-- The word at a byte offset among the register slots of a block: eight general slots, and behind
them eight float slots. -/
def Block.slotAt (b : Block) (offset : Nat) : UInt64 :=
  if offset < 64 then b.general (offset / 8) else b.float ((offset - 64) / 8)

/-- What invoked code does: it returns result registers and may change memory. -/
abbrev Behaviour := Entry → Memory → Except Breach (ResultRegisters × Memory)

namespace SystemV

/-- What a System V callee finds when it is entered. -/
structure Arrival where
  /-- `rdi`, `rsi`, `rdx`, `rcx`, `r8`, `r9`. -/
  general : List UInt64
  /-- The low halves of `xmm0` to `xmm7`. -/
  float : List UInt64
  /-- The stack argument words, lowest address first. -/
  stack : List UInt64
deriving DecidableEq

/-- What a System V callee leaves behind. -/
structure Departure where
  rax : UInt64
  rdx : UInt64
  xmm0 : UInt64
  xmm1 : UInt64
deriving DecidableEq

/-- Where the general argument registers are loaded from, in argument order. -/
def generalOffsets : List Nat := [0, 8, 16, 24, 32, 40]

/-- Where `xmm0` to `xmm7` are loaded from. -/
def floatOffsets : List Nat := [64, 72, 80, 88, 96, 104, 112, 120]

def arrival (b : Block) : Arrival where
  general := generalOffsets.map b.slotAt
  float := floatOffsets.map b.slotAt
  stack := b.stack

def capture (d : Departure) : ResultRegisters := ⟨#v[d.rax, d.rdx], #v[d.xmm0, d.xmm1, 0, 0]⟩

/-- Entering a callee through the trampoline. -/
def enter (callee : Arrival → Memory → Departure × Memory) : Behaviour := fun e m => do
  let block ← Block.ofEntry e
  let (departure, m) := callee (arrival block) m
  return (capture departure, m)

end SystemV

end ForeignCall
