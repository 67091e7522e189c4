import ForeignCall.Abi
import ForeignCall.Convention

/-! # Failures

Three layers of things that go wrong, each told by its cause.

* `CallError` is a configuration problem that the embedding program has to see: the call cannot be
  expressed on the ABI and is not attempted.
* `Breach` is a broken promise of the caller, checked on the way. `outOfRange` stands for an index
  outside its array or a number outside its width; it has no text of its own.
* `Failure` is either.

`SignatureError` and `ConfigError` are what reading a description can report. -/

namespace ForeignCall

/-- Why a file could not be read as text. -/
inductive ReadFault where
  | notFound
  | notDirectory
  | isDirectory
  | nameTooLong
  | encoding
  | other (text : String)
deriving DecidableEq

def ReadFault.message : ReadFault → String
  | notFound => "No such file or directory (os error 2)"
  | notDirectory => "Not a directory (os error 20)"
  | isDirectory => "Is a directory (os error 21)"
  | nameTooLong => "File name too long (os error 36)"
  | encoding => "stream did not contain valid UTF-8"
  | other text => text

inductive ConfigError where
  | unreadable (path : String) (why : ReadFault)
  | malformed
  | invalid (d : AbiDefect)
  | noInvoker (arch : Arch)
deriving DecidableEq

def ConfigError.message : ConfigError → String
  | unreadable path why => s!"failed to read {path}: {why.message}"
  | malformed => "failed to parse ABI configuration: TOML parse error"
  | invalid d => s!"invalid ABI configuration: {d.message}"
  | noInvoker arch => s!"no native invoker for {arch.name} on this host"

/-- The value of a signature that an error is about. -/
inductive Subject where
  | parameter (index : Nat)
  | result
deriving DecidableEq

def Subject.text : Subject → String
  | parameter index => s!"parameter {index}"
  | result => "return type"

inductive SignatureError where
  | unreadable (path : String) (why : ReadFault)
  | malformed
  | void (s : Subject)
  | unsized (s : Subject)
deriving DecidableEq

def SignatureError.message : SignatureError → String
  | unreadable path why => s!"failed to read {path}: {why.message}"
  | malformed => "failed to parse signature: TOML parse error"
  | void s => s!"{s.text} cannot be void"
  | unsized s => s!"{s.text} is an object without a size"

/-- Why an ABI cannot pass or return a composite by value. -/
inductive Objection where
  | empty
  | alignment
  | mixedMembers
deriving DecidableEq

def Objection.text : Objection → String
  | empty => "zero-sized objects cannot be passed by value"
  | alignment => "alignment must be a power of two"
  | mixedMembers =>
      "members mix register classes (integers with floats, or f32 with f64)"

/-- The two kinds of call target. -/
inductive TargetKind where
  | direct
  | virtualSlot
deriving DecidableEq

def TargetKind.text : TargetKind → String
  | direct => "a direct function address"
  | virtualSlot => "a virtual table slot"

inductive CallError where
  /-- The arguments do not fit into the stack slots. -/
  | tooManyArguments (arch : Arch) (needed limit : Nat)
  | unsupportedParameter (index : Nat) (arch : Arch) (why : Objection)
  | unsupportedReturn (arch : Arch) (why : Objection)
  | targetMismatch (convention : Convention) (target : TargetKind)
  /-- A plan for one ABI was given to a caller for another. -/
  | abiMismatch (planned configured : Arch)
  | config (e : ConfigError)
deriving DecidableEq

def CallError.message : CallError → String
  | tooManyArguments arch needed limit =>
      s!"argument list needs {needed} stack slots but {arch.name} allows at most {limit}"
  | unsupportedParameter index arch why =>
      s!"parameter {index} cannot be passed on {arch.name}: {why.text}"
  | unsupportedReturn arch why => s!"return type cannot be returned on {arch.name}: {why.text}"
  | targetMismatch convention target => s!"{convention.name} cannot call {target.text}"
  | abiMismatch planned configured =>
      s!"call plan was built for {planned.name} but the caller is configured for {configured.name}"
  | config e => e.message

/-- A promise of the caller that does not hold. -/
inductive Breach where
  | argumentCount
  | noObject (convention : Convention)
  | noSecondObject (convention : Convention)
  | nullObject
  | noReceiver
  | noDestination
  | outOfRange
deriving DecidableEq

/-- The text of a broken promise, where it has one. -/
def Breach.text? : Breach → Option String
  | argumentCount => some "argument buffer does not match the signature"
  | noObject convention => some s!"{convention.name} call without an object"
  | noSecondObject convention => some s!"{convention.name} call without a second object"
  | nullObject => some "by-value object argument is null"
  | noReceiver => some "virtual call without a receiver"
  | noDestination => some "no destination for a register return"
  | outOfRange => none

inductive Failure where
  | refused (e : CallError)
  | broken (b : Breach)
deriving DecidableEq

end ForeignCall
