import ForeignCall.Proofs.Lowering
import ForeignCall.Report

/-! # Reading a report back

A report is written as records, and a reader finds a value in a record by its name; of two entries
with one name the later counts.  Each part of a report has a reader here, which takes every field
from the place where the part puts it, and the law of a part says what its reader makes of the
written form.

* Locations, placements and results come back as they were (`Location.read?_toForm`,
  `Placement.read?_toForm`, `ResultPlan.read?_toForm`).
* The record of a parameter holds the fields of its pass and then the buffer words of the parameter.
  A pass that copies an object word by word has a field of that name too
  (`ParamPlan.nodup_keys_iff`), and the reader is given the buffer words for it: `ParamPlan.reread`.
* Lists are read item by item (`Form.listOf?_map`), and so the law of a report follows from the laws
  of its parts (`Report.read?_toForm`).

`report_read_back` applies this to plans.  Every object takes two buffer words, so that of the
objects that are copied word by word those of two eightbytes come back as they were and no others
do.  The number that is hidden is that of the eightbytes of the size, which is written as well. -/

namespace ForeignCall

/-! ### Readers for single values -/

namespace Form

variable {α β : Type}

/-- A whole number that is not negative. -/
def nat? : Form → Option Nat
  | integer n => if 0 ≤ n then some n.toNat else none
  | _ => none

def uint8? (f : Form) : Option UInt8 := (f.below? UInt8.size).map UInt8.ofNat

/-- A choice among values that have names. -/
def named? (ofName? : String → Option α) (f : Form) : Option α := f.text?.bind ofName?

def record? : Form → Option (List (String × Form))
  | record es => some es
  | _ => none

/-- A list of which every item can be read. -/
def listOf? (read : Form → Option α) (f : Form) : Option (List α) :=
  f.list?.bind fun items => items.mapM read

@[simp] theorem record?_record (es : List (String × Form)) : (record es).record? = some es := rfl

@[simp] theorem text?_text (s : String) : (text s).text? = some s := rfl

@[simp] theorem bool?_bool (b : Bool) : (bool b).bool? = some b := rfl

@[simp] theorem named?_text (ofName? : String → Option α) (s : String) :
    (text s).named? ofName? = ofName? s := rfl

@[simp] theorem nat?_ofNat (n : Nat) : (ofNat n).nat? = some n := by simp [nat?, ofNat]

theorem below?_ofNat {bound n : Nat} (h : n < bound) : (ofNat n).below? bound = some n := by
  simp [below?, ofNat, h]

@[simp] theorem uint8?_ofNat (n : UInt8) : (ofNat n.toNat).uint8? = some n := by
  simp [uint8?, below?_ofNat n.toNat_lt_size]

@[simp] theorem uint32?_ofNat (n : UInt32) : (ofNat n.toNat).uint32? = some n := by
  simp [uint32?, below?_ofNat n.toNat_lt_size]

theorem uint32?_ofNat_of_lt {n : Nat} (h : n < UInt32.size) :
    (ofNat n).uint32? = some (UInt32.ofNat n) := by
  simp [uint32?, below?_ofNat h]

theorem field?_concat (es : List (String × Form)) (name : String) (f : Form) :
    field? name (es ++ [(name, f)]) = some f := by
  induction es with
  | nil => simp [field?]
  | cons e es ih => rw [List.cons_append, field?, ih]

/-- A required field is read from the entry that counts. -/
theorem required_eq {es : List (String × Form)} {name : String} {read : Form → Option α} {f : Form}
    (h : field? name es = some f) : required es name read = read f := by
  -- a rule of its own: with the definition unfolded the kernel would count up to the bound of `read`
  rw [required, h, Option.bind_some]

theorem listOf?_map {write : α → Form} {read : Form → Option β} {g : α → β} {xs : List α}
    (h : ∀ x ∈ xs, read (write x) = some (g x)) :
    (list (xs.map write)).listOf? read = some (xs.map g) := by
  show (xs.map write).mapM read = some (xs.map g)
  induction xs with
  | nil => rfl
  | cons x xs ih =>
      have hx := h x List.mem_cons_self
      have hxs := ih fun y hy => h y (List.mem_cons_of_mem x hy)
      rw [List.map_cons, List.mapM_cons, hx, hxs]
      rfl

/-- The names of a record's entries. -/
def keys : Form → List String
  | record es => es.map (·.1)
  | _ => []

end Form

/-! ### Locations, placements and results -/

def Bank.ofName? (s : String) : Option Bank := [general, float, stack].find? (·.name == s)

@[simp] theorem Bank.ofName?_name (b : Bank) : ofName? b.name = some b := by cases b <;> decide

def Location.read? (f : Form) : Option Location := do
  let es ← f.record?
  let bank ← Form.required es "array" (Form.named? Bank.ofName?)
  let first ← Form.required es "first" Form.uint8?
  let count ← Form.required es "count" Form.uint8?
  return ⟨bank, first, count⟩

theorem Location.read?_toForm (l : Location) : read? l.toForm = some l := by
  obtain ⟨bank, first, count⟩ := l
  simp [read?, toForm, Form.required_eq, Form.field?]

/-- The role that the fields of a record give. -/
def Role.read? (es : List (String × Form)) : Option Role := do
  match ← Form.required es "role" Form.text? with
  | "hidden-return" => return .hiddenReturn
  | "object" => return .object
  | "second-object" => return .secondObject
  | "param" => return .param (← Form.required es "index" Form.nat?)
  | _ => none

def Placement.read? (f : Form) : Option Placement := do
  let es ← f.record?
  let role ← Role.read? es
  let location ← Form.required es "location" Location.read?
  return ⟨role, location⟩

theorem Placement.read?_toForm (p : Placement) : read? p.toForm = some p := by
  obtain ⟨role, location⟩ := p
  cases role with
  | hiddenReturn | object | secondObject | param index =>
      simp [read?, toForm, fields, Role.read?, Form.required_eq, Form.field?,
        Location.read?_toForm]

/-- The mechanism that the fields of a record give. -/
def Mechanism.read? (es : List (String × Form)) : Option Mechanism := do
  match ← Form.required es "mechanism" Form.text? with
  | "void" => return .void
  | "general" => return .general
  | "general-pair" => return .generalPair
  | "float32" => return .float32
  | "float64" => return .float64
  | "float-aggregate" => do
      let registerWidth ← Form.required es "register_width" Form.uint8?
      let registers ← Form.required es "registers" Form.uint8?
      return .floatAggregate registerWidth registers
  | "memory" => return .memory
  | _ => none

def ResultPlan.read? (f : Form) : Option ResultPlan := do
  let es ← f.record?
  let mechanism ← Mechanism.read? es
  let size ← Form.required es "size" Form.uint32?
  return ⟨mechanism, size⟩

theorem Mechanism.read?_fields (m : Mechanism) (size : Form) :
    read? ([("mechanism", .text m.name)] ++ m.fields ++ [("size", size)]) = some m := by
  cases m with
  | void | general | generalPair | float32 | float64 | floatAggregate width registers | memory =>
      simp [read?, name, fields, Form.required_eq, Form.field?]

theorem ResultPlan.read?_toForm (r : ResultPlan) : read? r.toForm = some r := by
  simp only [read?, toForm, Form.record?_record, bind, Option.bind_some, Mechanism.read?_fields,
    Form.required_eq (Form.field?_concat _ _ _), Form.uint32?_ofNat, pure]

/-! ### Parameters -/

def RegisterClass.ofName? (s : String) : Option RegisterClass :=
  [general, float32, float64, memory].find? (·.name == s)

@[simp] theorem RegisterClass.ofName?_name (c : RegisterClass) : ofName? c.name = some c := by
  cases c <;> decide

namespace Pass

/-- The pass that the fields of a record give. -/
def read? (es : List (String × Form)) : Option Pass := do
  match ← Form.required es "pass" Form.text? with
  | "general" => return .general (← Form.required es "primitive" (Form.named? Scalar.ofName?))
  | "float32" => return .float32
  | "float64" => return .float64
  | "address" => return .address
  | "inline-words" => do
      let words ← Form.required es "words" Form.uint32?
      let size ← Form.required es "size" Form.uint32?
      let align16 ← Form.required es "align16" Form.bool?
      return .inlineWords words size align16
  | "float-members" => do
      let count ← Form.required es "count" Form.uint8?
      let width ← Form.required es "width" Form.uint8?
      let size ← Form.required es "size" Form.uint32?
      return .floatMembers count width size
  | "stack-image" => do
      let words ← Form.required es "words" Form.uint32?
      let size ← Form.required es "size" Form.uint32?
      let align16 ← Form.required es "align16" Form.bool?
      return .stackImage words size align16
  | _ => none

/-- The eightbytes of an object that is copied word by word. -/
def eightbytes? : Pass → Option UInt32
  | inlineWords words _ _ | stackImage words _ _ => some words
  | general _ | float32 | float64 | address | floatMembers .. => none

/-- The same pass with another number of eightbytes, where it has one. -/
def withEightbytes (words : UInt32) : Pass → Pass
  | inlineWords _ size align16 => inlineWords words size align16
  | stackImage _ size align16 => stackImage words size align16
  | general s => general s
  | float32 => float32
  | float64 => float64
  | address => address
  | floatMembers count width size => floatMembers count width size

end Pass

namespace ParamPlan

def read? (f : Form) : Option ParamPlan := do
  let es ← f.record?
  let registerClass ← Form.required es "class" (Form.named? RegisterClass.ofName?)
  let pass ← Pass.read? es
  let words ← Form.required es "words" Form.nat?
  return ⟨registerClass, pass, words⟩

/-- What the record of a parameter is read as: buffer words count as eightbytes. -/
def reread (q : ParamPlan) : ParamPlan :=
  { q with pass := q.pass.withEightbytes (UInt32.ofNat q.words) }

theorem read?_toForm (q : ParamPlan) (h : q.words < UInt32.size) :
    read? q.toForm = some q.reread := by
  obtain ⟨registerClass, pass, words⟩ := q
  cases pass with
  | general s | float32 | float64 | address | inlineWords n size align16
  | floatMembers count width size | stackImage n size align16 =>
      simp [read?, toForm, reread, Pass.name, Pass.fields, Pass.read?, Pass.withEightbytes,
        Form.required_eq, Form.field?, Form.uint32?_ofNat_of_lt h, Scalar.ofName?_name]

/-- The entries have names of their own unless the pass copies an object word by word. -/
theorem nodup_keys_iff (q : ParamPlan) : q.toForm.keys.Nodup ↔ q.pass.eightbytes? = none := by
  obtain ⟨registerClass, pass, words⟩ := q
  cases pass with
  | general s | float32 | float64 | address | inlineWords n size align16
  | floatMembers count width size | stackImage n size align16 =>
      simp [toForm, Form.keys, Pass.name, Pass.fields, Pass.eightbytes?]

/-- The record is true to a parameter unless it hides a number other than two. -/
theorem reread_eq_iff {abi : Abi} {q : ParamPlan} (h : q.Sound abi) :
    q.reread = q ↔ ∀ n, q.pass.eightbytes? = some n → n = 2 := by
  obtain ⟨registerClass, pass, words⟩ := q
  have hreads := h.reads
  cases pass with
  | general s | float32 | float64 | address | floatMembers count width size =>
      simp [reread, Pass.withEightbytes, Pass.eightbytes?]
  | inlineWords n size align16 | stackImage n size align16 =>
      simp only [Pass.Reads] at hreads
      subst hreads
      simp [reread, Pass.withEightbytes, Pass.eightbytes?, eq_comm]

/-- The eightbytes that the size has. -/
def recount (q : ParamPlan) : ParamPlan :=
  match q.pass with
  | .inlineWords _ size _ | .stackImage _ size _ =>
      { q with pass := q.pass.withEightbytes (UInt32.ofNat (unitsFor size.toNat 8)) }
  | .general _ | .float32 | .float64 | .address | .floatMembers .. => q

/-- The size tells what is hidden. -/
theorem recount_reread {abi : Abi} {q : ParamPlan} (h : q.Sound abi) : q.reread.recount = q := by
  obtain ⟨registerClass, pass, words⟩ := q
  have hbounded := h.bounded
  cases pass with
  | general s | float32 | float64 | address | floatMembers count width size => rfl
  | inlineWords n size align16 | stackImage n size align16 =>
      obtain ⟨-, hn⟩ := hbounded
      simp [reread, recount, Pass.withEightbytes, ← hn]

theorem Sound.words_lt {abi : Abi} {q : ParamPlan} (h : q.Sound abi) :
    q.words < UInt32.size := by
  have hreads := h.reads
  have hle : q.words ≤ 2 := by
    cases hp : q.pass <;> simp only [hp, Pass.Reads] at hreads <;> omega
  exact Nat.lt_of_le_of_lt hle (by decide)

end ParamPlan

/-! ### Reports -/

theorem Variant.ofName?_name (v : Variant) : ofName? v.name = some v := by cases v <;> decide

namespace Report

def read? (f : Form) : Option Report := do
  let es ← f.record?
  let name ← Form.optional es "name" Form.text?
  let arch ← Form.required es "arch" (Form.named? Arch.ofName?)
  let convention ← Form.required es "convention" (Form.named? Convention.ofName?)
  let target ← Form.required es "target" Form.text?
  let argWords ← Form.required es "arg_words" Form.nat?
  let variant ← Form.required es "variant" (Form.named? Variant.ofName?)
  let returns ← Form.required es "returns" ResultPlan.read?
  let params ← Form.required es "params" (Form.listOf? ParamPlan.read?)
  let layout ← Form.required es "layout" (Form.listOf? Placement.read?)
  return ⟨name, arch, convention, target, argWords, variant, returns, params, layout⟩

theorem read?_toForm (r : Report) (h : ∀ q ∈ r.params, q.words < UInt32.size) :
    read? r.toForm = some { r with params := r.params.map ParamPlan.reread } := by
  obtain ⟨name, arch, convention, target, argWords, variant, returns, params, layout⟩ := r
  have hparams : (Form.list (params.map ParamPlan.toForm)).listOf? ParamPlan.read? =
      some (params.map ParamPlan.reread) :=
    Form.listOf?_map fun q hq => q.read?_toForm (h q hq)
  have hlayout : (Form.list (layout.map Placement.toForm)).listOf? Placement.read? =
      some (layout.map id) :=
    Form.listOf?_map fun p _ => p.read?_toForm
  cases name with
  | none | some name =>
      simp [read?, toForm, Form.entryOf?, Form.optional, Form.required_eq, Form.field?,
        Arch.ofName?_name, Convention.ofName?_name, Variant.ofName?_name,
        ResultPlan.read?_toForm, hparams, hlayout]

end Report

/-- A function that takes an object of three eightbytes. -/
def Callable.bulky : Callable :=
  ⟨.direct 0, .cdecl, [.ofComposite (.plain 24 8 .integer)], .void⟩

namespace Plan

variable {f : Callable} {abi : Abi} {p : Plan}

theorem exists_make_bulky : ∃ p, make .bulky .systemV = .ok p ∧
    p.params = [⟨.memory, .stackImage 3 24 false, 2⟩] := ⟨_, rfl, rfl⟩

/-- The report of a plan, read back by the names of its fields, is the report, but for the objects
that are copied: their eightbytes come back as two.  A parameter is recovered as it was unless it
hides another number, and every parameter is once the number is counted again from the size. -/
theorem report_read_back (hv : abi.validate = .ok ()) (hp : make f abi = .ok p)
    (name : Option String) :
    Report.read? (Report.ofPlan name p).toForm =
        some { Report.ofPlan name p with params := p.params.map ParamPlan.reread } ∧
      (∀ q ∈ p.params, q.reread = q ↔ ∀ n, q.pass.eightbytes? = some n → n = 2) ∧
      ∀ q ∈ p.params, q.reread.recount = q := by
  have hsound := (make_eq_ok_iff.mp hp).sound (abi.validate_eq_ok_iff.mp hv)
  refine ⟨?_, ?_, ?_⟩
  · exact Report.read?_toForm _ fun q hq => (hsound q hq).words_lt
  · exact fun q hq => ParamPlan.reread_eq_iff (hsound q hq)
  · exact fun q hq => ParamPlan.recount_reread (hsound q hq)

theorem report_read_back_bulky : Abi.systemV.validate = .ok () ∧
    ∃ p, make .bulky .systemV = .ok p ∧
      Report.read? (Report.ofPlan none p).toForm =
        some { Report.ofPlan none p with params := [⟨.memory, .stackImage 2 24 false, 2⟩] } ∧
      ∀ q ∈ p.params, q.reread.recount = q := by
  have hv : Abi.systemV.validate = .ok () := rfl
  obtain ⟨p, hp, hparams⟩ := exists_make_bulky
  obtain ⟨hread, -, hrecount⟩ := report_read_back hv hp none
  rw [hparams] at hread
  exact ⟨hv, p, hp, hread, hrecount⟩

/-- Three eightbytes are read back as two. -/
theorem bulky_not_read_back : Abi.systemV.validate = .ok () ∧
    ∃ p, make .bulky .systemV = .ok p ∧ p.params = [⟨.memory, .stackImage 3 24 false, 2⟩] ∧
      ∃ r, Report.read? (Report.ofPlan none p).toForm = some r ∧
        r.params = [⟨.memory, .stackImage 2 24 false, 2⟩] ∧ r.params ≠ p.params := by
  obtain ⟨p, hp, hparams⟩ := exists_make_bulky
  have hread := Report.read?_toForm (Report.ofPlan none p) (by
    show ∀ q ∈ p.params, q.words < UInt32.size
    rw [hparams]
    decide)
  refine ⟨rfl, p, hp, hparams, _, hread, ?_⟩
  show p.params.map ParamPlan.reread = _ ∧ p.params.map ParamPlan.reread ≠ p.params
  rw [hparams]
  decide

end Plan

end ForeignCall
