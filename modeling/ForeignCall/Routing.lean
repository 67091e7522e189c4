import ForeignCall.Failure
import ForeignCall.Word

/-! # Slots and routing

Arguments travel in three arrays of 64-bit slots: general registers, float registers and the
stack. Values are routed in calling order. What a value asks for is a `Demand`, how far the arrays
are filled is a `Cursor`, and the run of slots it gets is a `Location`.

* A value never straddles registers and stack: it goes to one side as a whole.
* `Abi.assign` makes the decision and knows no stack limit; `Abi.route` adds the limit. So the
  register decisions cannot depend on the limit, and the slots that a list of demands needs
  (`Abi.stackNeed`) are defined without it.
* A class is closed by moving its cursor to the end of its registers. -/

namespace ForeignCall

/-- One of the three slot arrays. -/
inductive Bank where
  | general
  | float
  | stack
deriving DecidableEq

namespace Bank

def name : Bank → String
  | general => "general"
  | float => "float"
  | stack => "stack"

/-- Slots that a frame has in the bank. -/
def capacity : Bank → Nat
  | general => generalCapacity
  | float => floatCapacity
  | stack => stackCapacity

/-- Short name of the bank in printed locations. -/
def symbol : Bank → String
  | general => "gp"
  | float => "fp"
  | stack => "stack"

end Bank

/-- A run of consecutive slots of one bank. Slot numbers are bytes. -/
structure Location where
  bank : Bank
  first : UInt8
  count : UInt8
deriving DecidableEq

namespace Location

def ofNat (bank : Bank) (first count : Nat) : Location :=
  ⟨bank, UInt8.ofNat first, UInt8.ofNat count⟩

/-- The slot behind the run. -/
def stop (l : Location) : Nat := l.first.toNat + l.count.toNat

/-- The run lies inside its bank. -/
def Fits (l : Location) : Prop := l.stop ≤ l.bank.capacity

instance (l : Location) : Decidable l.Fits := inferInstanceAs (Decidable (_ ≤ _))

/-- `gp[2]` for one slot, `gp[2..4]` for a run; the end has to be a byte too. -/
def text (l : Location) : Except Breach String :=
  if l.count = 1 then .ok s!"{l.bank.symbol}[{l.first.toNat}]"
  else if l.stop < 256 then .ok s!"{l.bank.symbol}[{l.first.toNat}..{l.stop}]"
  else .error .outOfRange

end Location

/-- What a value asks of the router. -/
inductive Demand where
  /-- So many general registers, or as many stack slots. -/
  | general (words : Nat) (align16 : Bool)
  /-- So many float registers, or `stackWords` stack slots. -/
  | float (registers stackWords : Nat)
  | stack (words : Nat) (align16 : Bool)
deriving DecidableEq

/-- How many slots of each bank are used up. -/
structure Cursor where
  general : Nat
  float : Nat
  stack : Nat
deriving DecidableEq

def Cursor.start : Cursor := ⟨0, 0, 0⟩

/-- The least even number that is not below `n`. -/
def evenUp (n : Nat) : Nat := n + n % 2

def Cursor.onStack (c : Cursor) (words : Nat) (align16 : Bool) : Location × Cursor :=
  let first := if align16 then evenUp c.stack else c.stack
  (.ofNat .stack first words, { c with stack := first + words })

namespace Abi

/-- The place for one value, and the cursor behind it. -/
def assign (abi : Abi) (c : Cursor) : Demand → Location × Cursor
  | .general words align16 =>
      let first :=
        if align16 ∧ words = 2 ∧ abi.evenForAlign16 then evenUp c.general else c.general
      if first + words ≤ abi.generalRegisters then
        (.ofNat .general first words, { c with general := first + words })
      else if 1 < words ∧ abi.closeOnSpill then
        { c with general := abi.generalRegisters }.onStack words align16
      else c.onStack words align16
  | .float registers stackWords =>
      if c.float + registers ≤ abi.floatRegisters then
        (.ofNat .float c.float registers, { c with float := c.float + registers })
      else if 1 < registers ∧ abi.closeOnSpill then
        { c with float := abi.floatRegisters }.onStack stackWords false
      else c.onStack stackWords false
  | .stack words align16 => c.onStack words align16

/-- `assign` under the ABI's stack limit. -/
def route (abi : Abi) (c : Cursor) (d : Demand) : Except CallError (Location × Cursor) :=
  let next := abi.assign c d
  if abi.stackSlots < next.2.stack then
    .error (.tooManyArguments abi.arch next.2.stack abi.stackSlots)
  else .ok next

/-- The cursor after a list of demands, with no stack limit. -/
def advance (abi : Abi) (c : Cursor) (ds : List Demand) : Cursor :=
  ds.foldl (fun c d => (abi.assign c d).2) c

/-- Stack slots that a list of demands takes when nothing limits them. -/
def stackNeed (abi : Abi) (ds : List Demand) : Nat := (abi.advance .start ds).stack

end Abi

end ForeignCall
