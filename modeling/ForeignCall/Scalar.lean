import ForeignCall.Word

/-! # Scalars

The twelve primitive value kinds that cross a call boundary, with their sizes and the rule that
widens a raw buffer value to a full slot. A callee may rely on the bits above a narrow integer, so
every scalar is put into its slot in canonical form (`Scalar.widen`): signed integers by sign
extension, unsigned integers and `f32` bit patterns by zero extension, booleans as 0 or 1. -/

namespace ForeignCall

inductive Scalar where
  | bool
  | i8
  | u8
  | i16
  | u16
  | i32
  | u32
  | i64
  | u64
  | f32
  | f64
  | pointer
deriving DecidableEq

namespace Scalar

def all : List Scalar := [bool, i8, u8, i16, u16, i32, u32, i64, u64, f32, f64, pointer]

def name : Scalar → String
  | bool => "bool"
  | i8 => "i8"
  | u8 => "u8"
  | i16 => "i16"
  | u16 => "u16"
  | i32 => "i32"
  | u32 => "u32"
  | i64 => "i64"
  | u64 => "u64"
  | f32 => "f32"
  | f64 => "f64"
  | pointer => "pointer"

def ofName? (s : String) : Option Scalar := all.find? (·.name == s)

/-- Size of the value in bytes. -/
def size : Scalar → Nat
  | bool | i8 | u8 => 1
  | i16 | u16 => 2
  | i32 | u32 | f32 => 4
  | i64 | u64 | f64 | pointer => 8

def isFloat : Scalar → Bool
  | f32 | f64 => true
  | _ => false

/-- The canonical 64-bit form of a raw value. -/
def widen (s : Scalar) (raw : UInt64) : UInt64 :=
  match s with
  | bool => if zeroExtend 8 raw = 0 then 0 else 1
  | i8 => signExtend 8 raw
  | u8 => zeroExtend 8 raw
  | i16 => signExtend 16 raw
  | u16 => zeroExtend 16 raw
  | i32 => signExtend 32 raw
  | u32 | f32 => zeroExtend 32 raw
  | i64 | u64 | f64 | pointer => raw

theorem ofName?_name (s : Scalar) : ofName? s.name = some s := by cases s <;> decide

end Scalar

end ForeignCall
