import ForeignCall.Form
import ForeignCall.Plan

/-! # Plan reports

A `Report` shows a plan to people: as a table of text (`Report.render`) or as a form
(`Report.toForm`) that is printed as JSON. In the form a lowered parameter has its register class,
the fields of its pass and its buffer words in one record. -/

namespace ForeignCall

namespace Location

def toForm (l : Location) : Form :=
  .record
    [("array", .text l.bank.name), ("first", .ofNat l.first.toNat), ("count", .ofNat l.count.toNat)]

end Location

namespace Pass

def name : Pass → String
  | general _ => "general"
  | float32 => "float32"
  | float64 => "float64"
  | address => "address"
  | inlineWords .. => "inline-words"
  | floatMembers .. => "float-members"
  | stackImage .. => "stack-image"

/-- The fields of a pass besides its name. -/
def fields : Pass → List (String × Form)
  | general scalar => [("primitive", .text scalar.name)]
  | float32 | float64 | address => []
  | inlineWords words size align16 | stackImage words size align16 =>
      [("words", .ofNat words.toNat), ("size", .ofNat size.toNat), ("align16", .bool align16)]
  | floatMembers count width size =>
      [("count", .ofNat count.toNat), ("width", .ofNat width.toNat), ("size", .ofNat size.toNat)]

/-- What is passed, in a few words. -/
def summary : Pass → String
  | general scalar => scalar.name
  | float32 => "f32"
  | float64 => "f64"
  | address => "address"
  | inlineWords _ size _ => s!"{size.toNat}-byte object"
  | floatMembers count width _ => s!"{count.toNat} x {width.toNat}-byte floats"
  | stackImage _ size _ => s!"{size.toNat}-byte object on stack"

end Pass

def ParamPlan.toForm (p : ParamPlan) : Form :=
  .record <|
    [("class", .text p.registerClass.name), ("pass", .text p.pass.name)] ++ p.pass.fields ++
      [("words", .ofNat p.words)]

namespace Mechanism

def name : Mechanism → String
  | void => "void"
  | general => "general"
  | generalPair => "general-pair"
  | float32 => "float32"
  | float64 => "float64"
  | floatAggregate .. => "float-aggregate"
  | memory => "memory"

def fields : Mechanism → List (String × Form)
  | floatAggregate registerWidth registers =>
      [("register_width", .ofNat registerWidth.toNat), ("registers", .ofNat registers.toNat)]
  | _ => []

end Mechanism

namespace ResultPlan

def toForm (r : ResultPlan) : Form :=
  .record <|
    [("mechanism", .text r.mechanism.name)] ++ r.mechanism.fields ++ [("size", .ofNat r.size.toNat)]

/-- How the result comes back, in a few words. -/
def summary (r : ResultPlan) : String :=
  match r.mechanism with
  | .void => "void"
  | .general => s!"{r.size.toNat} bytes in gp register"
  | .generalPair => s!"{r.size.toNat} bytes in gp register pair"
  | .float32 => "f32 in float register"
  | .float64 => "f64 in float register"
  | .floatAggregate width registers =>
      s!"{r.size.toNat} bytes in {registers.toNat} float registers, {width.toNat} bytes each"
  | .memory => s!"{r.size.toNat} bytes through hidden pointer"

end ResultPlan

namespace Placement

def fields : Role → List (String × Form)
  | .hiddenReturn => [("role", .text "hidden-return")]
  | .object => [("role", .text "object")]
  | .secondObject => [("role", .text "second-object")]
  | .param index => [("role", .text "param"), ("index", .ofNat index)]

def toForm (p : Placement) : Form :=
  .record (fields p.role ++ [("location", p.location.toForm)])

end Placement

/-- The text of a call target. -/
def Target.text : Target → String
  | direct address => hex address
  | virtualSlot slot => s!"vtable[{slot.toNat}]"

structure Report where
  name : Option String
  arch : Arch
  convention : Convention
  target : String
  argWords : Nat
  variant : Variant
  returns : ResultPlan
  params : List ParamPlan
  layout : List Placement

namespace Report

def ofPlan (name : Option String) (p : Plan) : Report where
  name := name
  arch := p.abi.arch
  convention := p.convention
  target := p.target.text
  argWords := p.argWords
  variant := p.result.variant
  returns := p.result
  params := p.params
  layout := p.layout

def toForm (r : Report) : Form :=
  .record <|
    Form.entryOf? "name" Form.text r.name ++
      [("arch", .text r.arch.name), ("convention", .text r.convention.name),
        ("target", .text r.target), ("arg_words", .ofNat r.argWords),
        ("variant", .text r.variant.name), ("returns", r.returns.toForm),
        ("params", .list (r.params.map ParamPlan.toForm)),
        ("layout", .list (r.layout.map Placement.toForm))]

/-- What stands in front of a location. -/
def roleText (r : Report) : Role → String
  | .hiddenReturn => "hidden return"
  | .object => "object"
  | .secondObject => "second object"
  | .param index =>
      match r.params[index]? with
      | some p => s!"param {index} ({p.pass.summary})"
      | none => s!"param {index}"

/-- Text filled up with blanks to a width. -/
def padded (width : Nat) (s : String) : String :=
  s ++ String.ofList (List.replicate (width - s.length) ' ')

def layoutLine (r : Report) (p : Placement) : Except Breach String := do
  return "  " ++ padded 32 (r.roleText p.role) ++ " " ++ (← p.location.text) ++ "\n"

/-- The lines ahead of the layout. -/
def header (r : Report) : String :=
  (match r.name with
    | some name => "function    " ++ name ++ "\n"
    | none => "") ++
  "arch        " ++ r.arch.name ++ "\n" ++
  "convention  " ++ r.convention.name ++ "\n" ++
  "target      " ++ r.target ++ "\n" ++
  s!"buffer      {r.argWords} words\n" ++
  s!"return      {r.returns.summary} ({r.variant.name} invoker)\n"

/-- The report as text. -/
def render (r : Report) : Except Breach String := do
  let lines ← r.layout.mapM r.layoutLine
  return r.header ++ (if r.layout.isEmpty then "" else "\n") ++ String.join lines

end Report

end ForeignCall
