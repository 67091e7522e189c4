import ForeignCall.Event
import ForeignCall.Trampoline

/-! # Callers

A `Caller` joins an ABI with an invoker. It is made only if the ABI is valid, belongs to the
invoker's architecture and assigns the registers that the invoker is wired for (`Caller.make`).

`Caller.call` performs one call and yields an `Outcome`: what the invoker was entered with, the
memory afterwards, the events on the way and the result. A plan for another ABI is refused before
anything else; then the arguments are marshaled, the target is resolved (a virtual target is read
from the receiver's current table), the invoker is entered, and the result is delivered. -/

namespace ForeignCall

/-- Something that can be called through, by what it loads and captures. -/
structure Invoker where
  arch : Arch
  wiring : Wiring
deriving DecidableEq

/-- The invoker of an architecture, wired as its preset says. -/
def Invoker.preset (a : Arch) : Invoker := ⟨a, .ofAbi (.preset a)⟩

/-- The invoker that the host machine has for an architecture. -/
def Invoker.host : Arch → Except CallError Invoker
  | .x86_64 => .ok ⟨.x86_64, .systemV⟩
  | .aarch64 => .error (.config (.noInvoker .aarch64))

structure Caller where
  abi : Abi
  /-- Report whole frames at debug level. -/
  traceCalls : Bool
  invoker : Invoker
deriving DecidableEq

/-- Address to call. A virtual target is the entry of the table that the receiver points to. -/
def Target.resolve (t : Target) (object : UInt64) (m : Memory) : Except Breach UInt64 :=
  match t with
  | .direct address => .ok address
  | .virtualSlot slot =>
      if object = 0 then .error .noReceiver
      else .ok (m.loadWord (m.loadWord object + 8 * slot))

/-- What one call did. -/
structure Outcome where
  /-- Every entry into the invoker. -/
  entries : List Entry
  memory : Memory
  events : List Event
  result : Except Failure Unit

namespace Caller

def make (abi : Abi) (traceCalls : Bool) (invoker : Invoker) : Except CallError Caller := do
  (abi.validate).mapError fun d => .config (.invalid d)
  if invoker.arch ≠ abi.arch then
    throw (.config (.invalid (.arch invoker.arch abi.arch)))
  (invoker.wiring.check abi).mapError fun d => .config (.invalid d)
  return ⟨abi, traceCalls, invoker⟩

/-- A caller that uses the host machine's own invoker. -/
def hosted (abi : Abi) (traceCalls : Bool) : Except CallError Caller := do
  make abi traceCalls (← Invoker.host abi.arch)

/-- The plan of a function for the caller's ABI. -/
def prepare (c : Caller) (f : Callable) : Except Failure Plan := Plan.make f c.abi

/-- The event just before the invoker is entered. -/
def callEvent (c : Caller) (p : Plan) (e : Entry) : Event :=
  if c.traceCalls then
    .callingWith p.convention e.target e.variant (e.frame.used .general) (e.frame.used .float)
      e.frame.filled.stack e.frame.object e.frame.second
  else .calling p.convention e.target e.variant

def call (c : Caller) (p : Plan) (args : Arguments) (destination : UInt64) (run : Behaviour)
    (m : Memory) : Outcome :=
  if p.abi ≠ c.abi then ⟨[], m, [], .error (.refused (.abiMismatch p.abi.arch c.abi.arch))⟩
  else match p.marshal args m with
    | .error e => ⟨[], m, [], .error e⟩
    | .ok frame =>
        let marshaled := Event.ofFrame p.convention frame
        match p.target.resolve args.object m with
        | .error b => ⟨[], m, [marshaled], .error (.broken b)⟩
        | .ok target =>
            let entry : Entry := ⟨frame, target, p.result.variant, destination⟩
            let events := [marshaled, c.callEvent p entry]
            match run entry m with
            | .error b => ⟨[entry], m, events, .error (.broken b)⟩
            | .ok (registers, m) =>
                match p.result.deliver registers destination m with
                | .error b => ⟨[entry], m, events, .error (.broken b)⟩
                | .ok m => ⟨[entry], m, events, .ok ()⟩

/-- Text of the caller in diagnostics. -/
def label (c : Caller) : String :=
  let flag (b : Bool) := if b then "true" else "false"
  "NativeCaller \x7b config: RuntimeConfig \x7b abi: AbiConfig \x7b arch: " ++ c.abi.arch.label ++
    ", gp_arg_registers: " ++ decimal c.abi.generalRegisters ++
    ", float_arg_registers: " ++ decimal c.abi.floatRegisters ++
    ", max_stack_slots: " ++ decimal c.abi.stackSlots ++
    ", float_return_registers: " ++ decimal c.abi.floatReturnRegisters ++
    ", float_packing: " ++ c.abi.packing.label ++
    ", hidden_pointer: " ++ c.abi.hiddenPointer.label ++
    ", max_register_aggregate: " ++ decimal c.abi.registerBytes.toNat ++
    ", close_class_on_spill: " ++ flag c.abi.closeOnSpill ++
    ", even_gp_for_align16: " ++ flag c.abi.evenForAlign16 ++
    ", large_aggregates_by_address: " ++ flag c.abi.largeByAddress ++
    " \x7d, trace_calls: " ++ flag c.traceCalls ++ " \x7d, invoker: " ++ c.invoker.arch.label ++
    " \x7d"

end Caller

/-! ### Invoked code -/

/-- Code that answers with fixed registers. Where it is to return through memory and has an address
to write to, it first stores `image` there. -/
def Behaviour.answering (registers : ResultRegisters) (image : List UInt8) : Behaviour :=
  fun e m =>
    if e.variant = .hiddenPointer ∧ e.result ≠ 0 then .ok (registers, m.store e.result image)
    else .ok (registers, m)

/-- A System V callee that answers with fixed registers and writes no memory. -/
def SystemV.answering (departure : Departure) : Behaviour := enter fun _ m => (departure, m)

end ForeignCall
