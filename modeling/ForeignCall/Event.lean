import ForeignCall.Frame

/-! # Events

What the call path reports while it works: a plan was built, a frame was marshaled, a call is about
to be made. Each event has a level and named fields; a caller that traces its calls reports the
whole frame at debug level instead of a short trace line. -/

namespace ForeignCall

inductive Level where
  | debug
  | trace
deriving DecidableEq

def Level.name : Level → String
  | debug => "debug"
  | trace => "trace"

inductive Event where
  | planned (arch : Arch) (convention : Convention) (params : Nat) (mechanism : Mechanism)
  | marshaled (convention : Convention) (general float stack : Nat)
  | calling (convention : Convention) (target : UInt64) (variant : Variant)
  | callingWith (convention : Convention) (target : UInt64) (variant : Variant)
      (general float : List UInt64) (stack : Nat) (object second : UInt64)
deriving DecidableEq

/-- Text of a mechanism in diagnostics. -/
def Mechanism.label : Mechanism → String
  | void => "Void"
  | general => "General"
  | generalPair => "GeneralPair"
  | float32 => "Float32"
  | float64 => "Float64"
  | floatAggregate registerWidth registers =>
      "FloatAggregate \x7b register_width: " ++ decimal registerWidth.toNat ++ ", registers: " ++
        decimal registers.toNat ++ " \x7d"
  | memory => "Memory"

/-- A list of words in decimal, between brackets. -/
def wordsText (ws : List UInt64) : String :=
  "[" ++ String.intercalate ", " (ws.map fun w => decimal w.toNat) ++ "]"

namespace Event

def ofPlan (p : Plan) : Event :=
  .planned p.abi.arch p.convention p.params.length p.result.mechanism

def ofFrame (c : Convention) (f : Frame) : Event :=
  .marshaled c f.filled.general f.filled.float f.filled.stack

def level : Event → Level
  | planned .. | callingWith .. => .debug
  | marshaled .. | calling .. => .trace

def fields : Event → List (String × String)
  | planned arch convention params mechanism =>
      [("message", "built call plan"), ("arch", arch.name), ("conv", convention.name),
        ("params", decimal params), ("ret", mechanism.label)]
  | marshaled convention general float stack =>
      [("message", "marshaled call frame"), ("conv", convention.name), ("gp", decimal general),
        ("fp", decimal float), ("stack", decimal stack)]
  | calling convention target variant =>
      [("message", "native call"), ("conv", convention.name), ("addr", hex target),
        ("variant", variant.label)]
  | callingWith convention target variant general float stack object second =>
      [("message", "native call"), ("conv", convention.name), ("addr", hex target),
        ("variant", variant.label), ("gp", wordsText general), ("fp", wordsText float),
        ("stack", decimal stack), ("object", hex object), ("second_object", hex second)]

end Event

end ForeignCall
