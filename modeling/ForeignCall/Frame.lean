import ForeignCall.ArgumentBuffer
import ForeignCall.Memory
import ForeignCall.Plan

/-! # Call frames

A `Frame` holds the slots of one call. It starts empty, with every slot zero, and the values of the
call board it one after the other (`Frame.board`): each is routed, its words are fetched from the
buffer, and its slots are written. Slots that are skipped for alignment or left behind when a class
is closed stay zero; the slot of the hidden result pointer is only noted.

`Plan.fill` is the walk over the values. It decides by itself who boards, and keeps its own position
in the buffer from one parameter to the next.

`Plan.marshal` first checks what the caller promises, in a fixed order, then boards everybody. It
hands on a frame only if all slots that the frame counts as used exist; an ABI with more registers
than a frame has slots can count one too many by closing a class. -/

namespace ForeignCall

structure Frame where
  slots : Bank → Nat → UInt64
  filled : Cursor
  /-- General slot kept for the hidden result pointer. -/
  returnSlot : Option Nat
  object : UInt64
  second : UInt64

/-- What the caller of one call hands over. -/
structure Arguments where
  buffer : ArgumentBuffer
  object : UInt64
  second : UInt64
deriving DecidableEq

def Cursor.used (c : Cursor) : Bank → Nat
  | .general => c.general
  | .float => c.float
  | .stack => c.stack

/-- What is put into the slots of a value. -/
inductive Freight where
  /-- Nothing yet: the slot is kept for the hidden result pointer. -/
  | reserved
  | word (w : UInt64)
  /-- The image of an object, eight bytes to a slot. -/
  | image (address : UInt64) (size : UInt32)
  /-- Float members, `width` bytes to a float register, or their image on the stack. -/
  | members (width : UInt8) (address : UInt64) (size : UInt32)
deriving DecidableEq

/-- The value of a lowered parameter whose words start at `offset`. -/
def ParamPlan.freight (p : ParamPlan) (b : ArgumentBuffer) (offset : Nat) : Except Breach Freight :=
  match p.pass with
  | .general scalar => do return .word (scalar.widen (← b.read offset p.words))
  | .float32 => do return .word (← b.read offset 1)
  | .float64 | .address => do return .word (← b.read offset 2)
  | .inlineWords _ size _ | .stackImage _ size _ => do return .image (← b.address offset) size
  | .floatMembers _ width size => do return .members width (← b.address offset) size

def Passenger.freight (args : Arguments) : Passenger → Except Breach Freight
  | hiddenReturn => .ok .reserved
  | object => .ok (.word args.object)
  | secondObject => .ok (.word args.second)
  | param _ offset plan => plan.freight args.buffer offset

namespace Frame

def empty (object second : UInt64) : Frame where
  slots := fun _ _ => 0
  filled := .start
  returnSlot := none
  object := object
  second := second

/-- The contents of a run of slots. -/
def read (f : Frame) (l : Location) : List UInt64 :=
  (List.range l.count.toNat).map fun i => f.slots l.bank (l.first.toNat + i)

/-- Writes words from the first slot of a run on. -/
def write (f : Frame) (l : Location) (ws : List UInt64) : Frame :=
  { f with
    slots := fun b i =>
      if b = l.bank ∧ l.first.toNat ≤ i then (ws[i - l.first.toNat]?).getD (f.slots b i)
      else f.slots b i }

/-- Writes an image of `size` bytes at `unit` bytes to a slot, as far as the run reaches. -/
def writeObject (f : Frame) (m : Memory) (l : Location) (unit : Nat) (address : UInt64)
    (size : Nat) : Frame :=
  f.write l (packWords unit l.count.toNat (m.load address (min size (unit * l.count.toNat))))

/-- Writes an image of `size` bytes at eight bytes to a slot, all of which have to be there. -/
def writeImage (f : Frame) (m : Memory) (l : Location) (address : UInt64) (size : Nat) :
    Except Breach Frame :=
  if l.Fits ∧ size ≤ 8 * l.count.toNat then .ok (f.writeObject m l 8 address size)
  else .error .outOfRange

/-- Puts a value into the slots it was routed to. -/
def stow (f : Frame) (m : Memory) (l : Location) : Freight → Except Breach Frame
  | .reserved =>
      .ok (if l.bank = .general then { f with returnSlot := some l.first.toNat } else f)
  | .word w => if l.Fits then .ok (f.write l [w]) else .error .outOfRange
  | .image address size =>
      if address = 0 then .error .nullObject else f.writeImage m l address size.toNat
  | .members width address size =>
      if address = 0 then .error .nullObject
      else if l.bank = .float then
        if l.Fits then .ok (f.writeObject m l width.toNat address size.toNat)
        else .error .outOfRange
      else f.writeImage m l address size.toNat

/-- Routes one value and puts it into its slots. -/
def board (abi : Abi) (args : Arguments) (m : Memory) (f : Frame) (p : Passenger) :
    Except Failure Frame := do
  let (location, cursor) ← (abi.route f.filled p.demand).mapError .refused
  let freight ← (p.freight args).mapError .broken
  ({ f with filled := cursor }.stow m location freight).mapError .broken

/-- Boards a value that not every call has. -/
def boardIf (abi : Abi) (args : Arguments) (m : Memory) (f : Frame) (present : Bool)
    (p : Passenger) : Except Failure Frame :=
  if present then f.board abi args m p else .ok f

/-- Boards parameters from an index on. The words of the next one start at `position`. -/
def boardParams (abi : Abi) (args : Arguments) (m : Memory) (index position : Nat) (f : Frame) :
    List ParamPlan → Except Failure Frame
  | [] => .ok f
  | p :: ps => do
      let f ← f.board abi args m (.param index position p)
      f.boardParams abi args m (index + 1) (position + p.words) ps

/-- The used slots of a bank. -/
def used (f : Frame) (b : Bank) : List UInt64 := (List.range (f.filled.used b)).map (f.slots b)

/-- The used slots of a bank, which have to exist. -/
def view (f : Frame) (b : Bank) : Except Breach (List UInt64) :=
  if f.filled.used b ≤ b.capacity then .ok (f.used b) else .error .outOfRange

/-- All slots in use exist. -/
def Fits (f : Frame) : Prop := ∀ b ∈ [Bank.general, .float, .stack], f.filled.used b ≤ b.capacity

instance (f : Frame) : Decidable f.Fits := inferInstanceAs (Decidable (∀ b ∈ _, _))

end Frame

namespace Plan

/-- The first promise that the arguments of a call break. -/
def breach? (p : Plan) (args : Arguments) : Option Breach :=
  if args.buffer.size ≠ p.argWords then some .argumentCount
  else if p.convention.needsObject ∧ args.object = 0 then some (.noObject p.convention)
  else if p.convention.needsSecondObject ∧ args.second = 0 then
    some (.noSecondObject p.convention)
  else none

/-- Boards the values of a call on an empty frame. -/
def fill (p : Plan) (args : Arguments) (m : Memory) : Except Failure Frame := do
  let f := Frame.empty args.object args.second
  let f ← f.boardIf p.abi args m p.hiddenPointerIsArgument .hiddenReturn
  let f ← f.boardIf p.abi args m p.convention.receiverFirst .object
  let f ← f.boardIf p.abi args m p.convention.secondObjectFirst .secondObject
  let f ← f.boardParams p.abi args m 0 0 p.params
  match p.convention.trailing with
  | none => return f
  | some t => f.board p.abi args m (.trailing t)

/-- The frame of one call. -/
def marshal (p : Plan) (args : Arguments) (m : Memory) : Except Failure Frame :=
  match p.breach? args with
  | some b => .error (.broken b)
  | none => do
      let f ← p.fill args m
      if f.Fits then return f else throw (.broken .outOfRange)

end Plan

end ForeignCall
