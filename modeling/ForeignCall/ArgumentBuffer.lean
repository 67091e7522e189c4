import ForeignCall.Failure
import ForeignCall.Word

/-! # Argument buffers

A script engine leaves the arguments of a call in a buffer of 32-bit words, in declaration order.
Values of up to 32 bits take one word; 64-bit values and addresses take two, low word first. A
by-value object is there as the address of its copy. -/

namespace ForeignCall

/-- One typed argument. Floats are given by their bit patterns. -/
inductive Argument where
  | bool (value : Bool)
  | i8 (value : Int8)
  | u8 (value : UInt8)
  | i16 (value : Int16)
  | u16 (value : UInt16)
  | i32 (value : Int32)
  | u32 (value : UInt32)
  | i64 (value : Int64)
  | u64 (value : UInt64)
  | f32 (bits : UInt32)
  | f64 (bits : UInt64)
  /-- A pointer, handle, reference or by-value object. -/
  | address (value : UInt64)
deriving DecidableEq

/-- The two buffer words of a 64-bit value. -/
def halves (w : UInt64) : List UInt32 :=
  [UInt32.ofNat w.toNat, UInt32.ofNat (w.toNat / UInt32.size)]

/-- The 64-bit value with the given halves. -/
def joinHalves (low high : UInt32) : UInt64 :=
  UInt64.ofNat (low.toNat + UInt32.size * high.toNat)

/-- The buffer words of an argument; narrow signed integers are extended to 32 bits. -/
def Argument.words : Argument → List UInt32
  | bool value => [if value then 1 else 0]
  | i8 value => [value.toInt32.toUInt32]
  | u8 value => [value.toUInt32]
  | i16 value => [value.toInt32.toUInt32]
  | u16 value => [value.toUInt32]
  | i32 value => [value.toUInt32]
  | u32 value => [value]
  | i64 value => halves value.toUInt64
  | u64 value => halves value
  | f32 bits => [bits]
  | f64 bits => halves bits
  | address value => halves value

structure ArgumentBuffer where
  words : List UInt32
deriving DecidableEq

namespace ArgumentBuffer

def empty : ArgumentBuffer := ⟨[]⟩

def push (b : ArgumentBuffer) (a : Argument) : ArgumentBuffer := ⟨b.words ++ a.words⟩

def ofArguments (args : List Argument) : ArgumentBuffer := args.foldl push empty

def size (b : ArgumentBuffer) : Nat := b.words.length

def isEmpty (b : ArgumentBuffer) : Bool := b.words.isEmpty

/-- The value of `count` words at a position: one word, or else two. -/
def read (b : ArgumentBuffer) (position count : Nat) : Except Breach UInt64 :=
  match b.words[position]? with
  | none => .error .outOfRange
  | some low =>
      if count = 1 then .ok low.toUInt64
      else match b.words[position + 1]? with
        | none => .error .outOfRange
        | some high => .ok (joinHalves low high)

/-- The address at a position. -/
def address (b : ArgumentBuffer) (position : Nat) : Except Breach UInt64 := b.read position 2

theorem words_push (b : ArgumentBuffer) (a : Argument) : (b.push a).words = b.words ++ a.words :=
  rfl

theorem joinHalves_halves (w : UInt64) : (halves w).length = 2 ∧
    joinHalves (UInt32.ofNat w.toNat) (UInt32.ofNat (w.toNat / UInt32.size)) = w := by
  refine ⟨rfl, UInt64.toNat_inj.mp ?_⟩
  have hw : w.toNat < 2 ^ 64 := w.toNat_lt
  simp only [joinHalves, UInt32.size, UInt64.toNat_ofNat', UInt32.toNat_ofNat']
  omega

end ArgumentBuffer

end ForeignCall
