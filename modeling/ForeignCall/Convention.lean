/-! # Calling conventions

A registered function is called as a free function, or with a receiver (the object the method is
invoked on), and some conventions pass one more object pointer ahead of or behind the declared
parameters. The predicates below say which pointers a convention passes and where; the virtual
conventions also take their target from the receiver's table. -/

namespace ForeignCall

inductive Convention where
  | cdecl
  | cdeclObjectFirst
  | cdeclObjectLast
  | thiscall
  | thiscallObjectFirst
  | thiscallObjectLast
  | virtualThiscall
  | virtualThiscallObjectFirst
  | virtualThiscallObjectLast
deriving DecidableEq

/-- The pointer passed behind the declared parameters. -/
inductive Trailing where
  | object
  | secondObject
deriving DecidableEq

def Trailing.name : Trailing → String
  | object => "object"
  | secondObject => "second-object"

namespace Convention

def all : List Convention :=
  [cdecl, cdeclObjectFirst, cdeclObjectLast, thiscall, thiscallObjectFirst, thiscallObjectLast,
    virtualThiscall, virtualThiscallObjectFirst, virtualThiscallObjectLast]

def name : Convention → String
  | cdecl => "cdecl"
  | cdeclObjectFirst => "cdecl-obj-first"
  | cdeclObjectLast => "cdecl-obj-last"
  | thiscall => "thiscall"
  | thiscallObjectFirst => "thiscall-obj-first"
  | thiscallObjectLast => "thiscall-obj-last"
  | virtualThiscall => "virtual-thiscall"
  | virtualThiscallObjectFirst => "virtual-thiscall-obj-first"
  | virtualThiscallObjectLast => "virtual-thiscall-obj-last"

def ofName? (s : String) : Option Convention := all.find? (·.name == s)

def isVirtual : Convention → Bool
  | virtualThiscall | virtualThiscallObjectFirst | virtualThiscallObjectLast => true
  | _ => false

/-- Member calls, where the receiver is `this`. -/
def isMethod : Convention → Bool
  | cdecl | cdeclObjectFirst | cdeclObjectLast => false
  | _ => true

/-- The receiver is passed ahead of the declared parameters. -/
def receiverFirst (c : Convention) : Bool := c.isMethod || c = cdeclObjectFirst

/-- The second object follows the receiver, ahead of the declared parameters. -/
def secondObjectFirst : Convention → Bool
  | thiscallObjectFirst | virtualThiscallObjectFirst => true
  | _ => false

def trailing : Convention → Option Trailing
  | cdeclObjectLast => some .object
  | thiscallObjectLast | virtualThiscallObjectLast => some .secondObject
  | _ => none

/-- The call has to supply a receiver. -/
def needsObject (c : Convention) : Bool := c ≠ cdecl

/-- The call has to supply a second object. -/
def needsSecondObject (c : Convention) : Bool :=
  c.secondObjectFirst || c.trailing = some .secondObject

theorem ofName?_name (c : Convention) : ofName? c.name = some c := by cases c <;> decide

end Convention

end ForeignCall
