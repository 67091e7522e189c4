import ForeignCall.Plan
import Mathlib.Data.List.Forall2

/-! # What lowering guarantees

On a valid ABI a lowered value keeps within fixed bounds: a pass that copies an object has room for
all of its bytes, needs at least one slot, and its 32-bit and 8-bit counts are the counts that were
computed (`Pass.Bounded`).  The words that a pass reads are those that the parameter has in the
argument buffer (`Pass.Reads`), and the registers of a result hold all of its bytes
(`ResultPlan.Bounded`).

* `Abi.valid_iff` spells out validity as inequalities.
* `unitsFor_le_iff` is the one fact about rounding up that the bounds need.
* `Abi.Passes` and `Abi.Returns` list the ways in which a by-value composite is passed and comes
  back, each with its guards, so that no proof has to open the two analyses again.
* `Abi.lowerResult_eq_ok_iff` says what a lowered result is made of.
* `Plan.make_eq_ok_iff` takes the making of a plan apart into its stages, and `Plan.Planned.sound`
  gives the bounds for every parameter of a plan. -/

namespace ForeignCall

/-! ### Results of checked steps, and lists made element by element -/

section

variable {ε ε' α β : Type}

theorem bind_eq_ok {x : Except ε α} {f : α → Except ε β} {b : β} :
    (x >>= f) = .ok b ↔ ∃ a, x = .ok a ∧ f a = .ok b := by
  cases x with
  | error e => simp [bind, Except.bind]
  | ok a => simp [bind, Except.bind]

theorem mapError_eq_ok {x : Except ε α} {g : ε → ε'} {a : α} :
    x.mapError g = .ok a ↔ x = .ok a := by
  cases x with
  | error e => simp [Except.mapError]
  | ok a => simp [Except.mapError]

theorem exists_getElem?_of_forall₂ {R : α → β → Prop} {xs : List α} {ys : List β}
    (h : List.Forall₂ R xs ys) {k : Nat} {x : α} (hx : xs[k]? = some x) :
    ∃ y, ys[k]? = some y ∧ R x y := by
  obtain ⟨hlt, rfl⟩ := List.getElem?_eq_some_iff.mp hx
  have hlt' : k < ys.length := by rwa [← h.length_eq]
  exact ⟨ys[k], List.getElem?_eq_getElem hlt', h.get hlt hlt'⟩

end

/-! ### Budgets -/

namespace Abi

/-- Slots of a bank that a call may use. -/
def budget (abi : Abi) : Bank → Nat
  | .general => abi.generalRegisters
  | .float => abi.floatRegisters
  | .stack => abi.stackSlots

theorem valid_iff (abi : Abi) : abi.Valid ↔
    (1 ≤ abi.generalRegisters ∧ abi.generalRegisters ≤ 8) ∧ abi.floatRegisters ≤ 8 ∧
      abi.stackSlots ≤ 64 ∧ (1 ≤ abi.floatReturnRegisters ∧ abi.floatReturnRegisters ≤ 4) ∧
      8 ≤ abi.registerBytes.toNat ∧ abi.registerBytes.toNat ≤ 16 := by
  simp [Valid, budgets, Budget.Holds, generalCapacity, floatCapacity, stackCapacity,
    floatResultCapacity, generalResultBytes]

theorem budget_le_capacity {abi : Abi} (hv : abi.Valid) (b : Bank) :
    abi.budget b ≤ b.capacity := by
  obtain ⟨hg, hf, hs, -⟩ := abi.valid_iff.mp hv
  cases b with
  | general => exact hg.2
  | float => exact hf
  | stack => exact hs

theorem budget_lt_256 {abi : Abi} (hv : abi.Valid) (b : Bank) : abi.budget b < 256 := by
  have h := budget_le_capacity hv b
  have hc : b.capacity < 256 := by cases b <;> decide
  omega

end Abi

/-! ### Rounding up to whole units -/

theorem unitsFor_le_iff {size unit n : Nat} (hu : 0 < unit) :
    unitsFor size unit ≤ n ↔ size ≤ unit * n := by
  unfold unitsFor
  rw [← Nat.lt_succ_iff, Nat.div_lt_iff_lt_mul hu, Nat.succ_mul, Nat.mul_comm n unit]
  omega

theorem le_mul_unitsFor {size unit : Nat} (hu : 0 < unit) : size ≤ unit * unitsFor size unit :=
  (unitsFor_le_iff hu).mp (Nat.le_refl _)

theorem unitsFor_pos {size unit : Nat} (hu : 0 < unit) (hs : 0 < size) :
    0 < unitsFor size unit := by
  by_contra h
  have hle : size ≤ unit * 0 := (unitsFor_le_iff hu).mp (by omega)
  omega

/-! ### Bounds on a lowered parameter -/

namespace Pass

/-- The counts of a pass that copies an object are those of its size, which is not zero. -/
def Bounded (abi : Abi) : Pass → Prop
  | general _ | float32 | float64 | address => True
  | inlineWords words size _ | stackImage words size _ =>
      0 < size.toNat ∧ words.toNat = unitsFor size.toNat 8
  | floatMembers count width size =>
      0 < size.toNat ∧ (width.toNat = 4 ∨ width.toNat = 8) ∧
        count.toNat = unitsFor size.toNat width.toNat ∧ count.toNat ≤ abi.floatReturnRegisters

/-- The pass takes a value from so many buffer words. -/
def Reads : Pass → Nat → Prop
  | general _, words => words = 1 ∨ words = 2
  | float32, words => words = 1
  | float64, words | address, words => words = 2
  | inlineWords .., words | floatMembers .., words | stackImage .., words => words = 2

end Pass

/-- A lowered parameter that keeps its bounds and reads the words it has. -/
structure ParamPlan.Sound (abi : Abi) (q : ParamPlan) : Prop where
  bounded : q.pass.Bounded abi
  reads : q.pass.Reads q.words

/-! ### Float aggregates -/

namespace Abi

variable {abi : Abi} {c : Composite}

theorem floatBudget_eq (hv : abi.Valid) : abi.floatBudget = abi.floatReturnRegisters := by
  obtain ⟨-, -, -, hf, -⟩ := abi.valid_iff.mp hv
  unfold floatBudget UInt32.size
  omega

/-- A valid ABI never leaves 32 bits, at the two widths that a float register can carry. -/
theorem fitsLanes_eq_ok (hv : abi.Valid) (c : Composite) {lane : Nat} (hl : lane ≤ 8) :
    abi.fitsLanes c lane = .ok (c.size.toNat ≤ lane * abi.floatReturnRegisters) := by
  obtain ⟨-, -, -, hf, -⟩ := abi.valid_iff.mp hv
  unfold fitsLanes UInt32.size
  rw [floatBudget_eq hv, if_neg]
  have hm : lane * abi.floatReturnRegisters ≤ 8 * 4 := Nat.mul_le_mul hl hf.2
  omega

theorem floatMembers_width {width count : Nat} (h : c.floatMembers = some (width, count)) :
    width = 4 ∨ width = 8 := by
  unfold Composite.floatMembers at h
  cases hm : c.members with
  | float32 n => simp [hm] at h; omega
  | float64 n => simp [hm] at h; omega
  | integer => simp [hm] at h
  | mixed => simp [hm] at h

/-- Bytes that each float register carries, computed without bounds. -/
def laneOf (abi : Abi) (c : Composite) : Option Nat :=
  match c.trivial, c.floatMembers with
  | true, some (width, count) =>
      match abi.packing with
      | .perMember =>
          if count ≠ 0 ∧ count ≤ abi.floatReturnRegisters ∧
              c.size.toNat ≤ width * abi.floatReturnRegisters then some width
          else none
      | .eightbyte =>
          if count ≠ 0 ∧ c.size.toNat ≤ 8 * abi.floatReturnRegisters then some 8 else none
  | _, _ => none

theorem lane?_eq_ok (hv : abi.Valid) (c : Composite) : abi.lane? c = .ok (abi.laneOf c) := by
  unfold lane? isFloatAggregate laneOf
  cases ht : c.trivial with
  | false => simp
  | true =>
      cases hm : c.floatMembers with
      | none => simp
      | some m =>
          obtain ⟨width, count⟩ := m
          have hw : width ≤ 8 := by
            have := floatMembers_width hm
            omega
          cases hp : abi.packing with
          | perMember =>
              simp only [floatBudget_eq hv, fitsLanes_eq_ok hv c hw]
              by_cases h0 : count = 0
              · simp [h0]
              by_cases hb : abi.floatReturnRegisters < count
              · simp [h0, hb, Nat.not_le_of_lt hb]
              by_cases hs : c.size.toNat ≤ width * abi.floatReturnRegisters
              · simp [h0, hb, hs, Nat.le_of_not_lt hb]
              · simp [h0, hb, hs]
          | eightbyte =>
              simp only [fitsLanes_eq_ok hv c (Nat.le_refl 8)]
              by_cases h0 : count = 0
              · simp [h0]
              by_cases hs : c.size.toNat ≤ 8 * abi.floatReturnRegisters
              · simp [h0, hs]
              · simp [h0, hs]

/-- A float aggregate fits the float return registers at four or eight bytes to a register. -/
theorem laneOf_eq_some {lane : Nat} (h : abi.laneOf c = some lane) :
    (lane = 4 ∨ lane = 8) ∧ c.size.toNat ≤ lane * abi.floatReturnRegisters ∧
      (abi.packing = .eightbyte → lane = 8) := by
  unfold laneOf at h
  cases ht : c.trivial with
  | false => simp [ht] at h
  | true =>
      cases hm : c.floatMembers with
      | none => simp [ht, hm] at h
      | some m =>
          obtain ⟨width, count⟩ := m
          cases hp : abi.packing with
          | perMember =>
              simp only [ht, hm, hp, Option.ite_none_right_eq_some, Option.some.injEq] at h
              obtain ⟨⟨-, -, hs⟩, rfl⟩ := h
              exact ⟨floatMembers_width hm, hs, by simp⟩
          | eightbyte =>
              simp only [ht, hm, hp, Option.ite_none_right_eq_some, Option.some.injEq] at h
              obtain ⟨⟨-, hs⟩, rfl⟩ := h
              exact ⟨Or.inr rfl, hs, fun _ => rfl⟩

/-- A lane is a byte. -/
theorem toNat_ofNat_lane {lane : Nat} (h : lane = 4 ∨ lane = 8) :
    (UInt8.ofNat lane).toNat = lane := by
  rw [UInt8.toNat_ofNat']
  omega

/-- Lane and register count of a float aggregate lose nothing by becoming bytes. -/
theorem lane_bounds (hv : abi.Valid) {lane : Nat} (h : abi.laneOf c = some lane) :
    ((UInt8.ofNat lane).toNat = 4 ∨ (UInt8.ofNat lane).toNat = 8) ∧
      (laneCount c lane).toNat = unitsFor c.size.toNat (UInt8.ofNat lane).toNat ∧
      (laneCount c lane).toNat ≤ abi.floatReturnRegisters := by
  obtain ⟨-, -, -, hf, -⟩ := abi.valid_iff.mp hv
  obtain ⟨hl, hs, -⟩ := laneOf_eq_some h
  have hle : unitsFor c.size.toNat lane ≤ abi.floatReturnRegisters :=
    (unitsFor_le_iff (by omega)).mpr hs
  have hcount : (laneCount c lane).toNat = unitsFor c.size.toNat lane := by
    rw [laneCount, UInt8.toNat_ofNat']
    exact Nat.mod_eq_of_lt (by omega)
  rw [toNat_ofNat_lane hl, hcount]
  exact ⟨hl, rfl, hle⟩

/-! ### Passes -/

theorem toNat_words (c : Composite) : (UInt32.ofNat c.words).toNat = unitsFor c.size.toNat 8 := by
  have hs : c.size.toNat < 2 ^ 32 := c.size.toNat_lt
  have hw : c.words < 2 ^ 32 := by
    unfold Composite.words unitsFor
    omega
  rw [UInt32.toNat_ofNat', Nat.mod_eq_of_lt hw]
  rfl

theorem size_pos_of_objection? (h : c.objection? = none) : 0 < c.size.toNat := by
  unfold Composite.objection? at h
  by_cases h0 : c.size = 0
  · simp [h0] at h
  · have hne : c.size.toNat ≠ 0 := fun hz => h0 (UInt32.toNat_inj.mp hz)
    omega

/-- The ways to pass a by-value composite, each with what leads to it. -/
inductive Passes (abi : Abi) (c : Composite) : Pass → Prop
  | nontrivial : c.trivial = false → Passes abi c .address
  | floats {lane : Nat} : c.trivial = true → abi.lane? c = .ok (some lane) →
      Passes abi c (.floatMembers (laneCount c lane) (UInt8.ofNat lane) c.size)
  | words : c.trivial = true → abi.lane? c = .ok none → c.size ≤ abi.registerBytes →
      ¬ (c.members = .mixed ∧ abi.packing = .eightbyte) →
      Passes abi c (.inlineWords (UInt32.ofNat c.words) c.size (16 ≤ c.align))
  | large : c.trivial = true → abi.lane? c = .ok none → ¬ c.size ≤ abi.registerBytes →
      abi.largeByAddress = true → Passes abi c .address
  | image : c.trivial = true → abi.lane? c = .ok none → ¬ c.size ≤ abi.registerBytes →
      abi.largeByAddress = false →
      Passes abi c (.stackImage (UInt32.ofNat c.words) c.size (16 ≤ c.align))

theorem passes_of_passComposite {pass : Pass} (h : abi.passComposite c = .ok pass) :
    c.objection? = none ∧ abi.Passes c pass := by
  unfold passComposite at h
  split at h
  · cases h
  rename_i hobjection
  refine ⟨hobjection, ?_⟩
  split at h
  · rename_i htrivial
    cases h
    exact .nontrivial htrivial
  rename_i htrivial
  have htrivial : c.trivial = true := by simpa using htrivial
  split at h
  · cases h
  · rename_i hlane
    cases h
    exact .floats htrivial hlane
  rename_i hlane
  split at h
  · rename_i hsize
    split at h
    · cases h
    · rename_i hmixed
      cases h
      exact .words htrivial hlane hsize hmixed
  rename_i hsize
  split at h
  · rename_i hlarge
    cases h
    exact .large htrivial hlane hsize hlarge
  · rename_i hlarge
    cases h
    exact .image htrivial hlane hsize (by simpa using hlarge)

theorem bounded_passComposite (hv : abi.Valid) {pass : Pass} (h : abi.passComposite c = .ok pass) :
    pass.Bounded abi := by
  obtain ⟨hobjection, hpasses⟩ := passes_of_passComposite h
  have hs := size_pos_of_objection? hobjection
  cases hpasses with
  | nontrivial | large => trivial
  | floats _ hlane =>
      rw [lane?_eq_ok hv] at hlane
      exact ⟨hs, lane_bounds hv (Except.ok.inj hlane)⟩
  | words | image => exact ⟨hs, toNat_words c⟩

/-- Every composite is in the buffer as an address of two words. -/
theorem reads_passComposite {pass : Pass} (h : abi.passComposite c = .ok pass) :
    pass.Reads 2 := by
  cases (passes_of_passComposite h).2 <;> rfl

theorem bounded_pass (hv : abi.Valid) {t : ValueType} {pass : Pass} (h : abi.pass t = .ok pass) :
    pass.Bounded abi := by
  unfold Abi.pass at h
  split at h
  · cases h
    trivial
  split at h
  case h_5 c _ => exact bounded_passComposite hv h
  all_goals
    cases h
    trivial

theorem reads_pass {t : ValueType} {pass : Pass} (h : abi.pass t = .ok pass) :
    pass.Reads t.bufferWords := by
  obtain ⟨kind, byRef⟩ := t
  unfold Abi.pass at h
  unfold ValueType.bufferWords
  cases byRef with
  | true =>
      cases h
      exact Or.inr rfl
  | false =>
      cases kind with
      | scalar s =>
          cases s <;> cases h <;> simp [Pass.Reads, Scalar.size]
      | handle =>
          cases h
          exact Or.inr rfl
      | composite c => exact reads_passComposite h

end Abi

/-! ### Parameter lists -/

namespace Abi

/-- The parameter plan of one type. -/
structure Lowers (abi : Abi) (t : ValueType) (q : ParamPlan) : Prop where
  pass : abi.pass t = .ok q.pass
  registerClass : q.registerClass = t.registerClass
  words : q.words = t.bufferWords

variable {abi : Abi}

theorem Lowers.sound {t : ValueType} {q : ParamPlan} (hv : abi.Valid) (h : abi.Lowers t q) :
    q.Sound abi where
  bounded := bounded_pass hv h.pass
  reads := by
    rw [h.words]
    exact reads_pass h.pass

theorem lowerParams_forall₂ {index : Nat} {ts : List ValueType} {qs : List ParamPlan}
    (h : abi.lowerParams index ts = .ok qs) : List.Forall₂ abi.Lowers ts qs := by
  induction ts generalizing index qs with
  | nil =>
      cases h
      exact .nil
  | cons t ts ih =>
      simp only [lowerParams, bind_eq_ok, mapError_eq_ok] at h
      obtain ⟨pass, hpass, rest, hrest, hqs⟩ := h
      cases hqs
      exact .cons ⟨hpass, rfl, rfl⟩ (ih hrest)

theorem sound_of_forall₂ (hv : abi.Valid) {ts : List ValueType} {qs : List ParamPlan}
    (h : List.Forall₂ abi.Lowers ts qs) : ∀ q ∈ qs, q.Sound abi := by
  induction h with
  | nil => simp
  | cons hq _ ih =>
      intro q hmem
      rcases List.mem_cons.mp hmem with rfl | hmem
      · exact hq.sound hv
      · exact ih q hmem

end Abi

/-! ### Results -/

/-- The registers that a result comes back in hold all of its bytes. -/
def ResultPlan.Bounded (abi : Abi) (r : ResultPlan) : Prop :=
  match r.mechanism with
  | .void | .memory => True
  | .general | .float32 | .float64 => r.size.toNat ≤ 8
  | .generalPair => r.size.toNat ≤ 16
  | .floatAggregate width registers =>
      (width.toNat = 4 ∨ width.toNat = 8) ∧ r.size.toNat ≤ width.toNat * registers.toNat ∧
        registers.toNat ≤ abi.floatReturnRegisters

namespace Abi

variable {abi : Abi} {mechanism : Mechanism}

/-- The ways in which a by-value composite comes back, each with what leads to it. -/
inductive Returns (abi : Abi) (c : Composite) : Mechanism → Prop
  | nontrivial : c.trivial = false → Returns abi c .memory
  | floats {lane : Nat} : c.trivial = true → abi.lane? c = .ok (some lane) →
      Returns abi c (.floatAggregate (UInt8.ofNat lane) (laneCount c lane))
  | large : c.trivial = true → abi.lane? c = .ok none → abi.registerBytes < c.size →
      Returns abi c .memory
  | word : c.trivial = true → abi.lane? c = .ok none → ¬ abi.registerBytes < c.size →
      ¬ (abi.packing = .eightbyte ∧ c.members ≠ .integer) → c.size ≤ 8 → Returns abi c .general
  | pair : c.trivial = true → abi.lane? c = .ok none → ¬ abi.registerBytes < c.size →
      ¬ (abi.packing = .eightbyte ∧ c.members ≠ .integer) → ¬ c.size ≤ 8 →
      Returns abi c .generalPair

theorem returns_of_returnComposite {c : Composite} (h : abi.returnComposite c = .ok mechanism) :
    c.objection? = none ∧ abi.Returns c mechanism := by
  unfold returnComposite at h
  split at h
  · cases h
  rename_i hobjection
  refine ⟨hobjection, ?_⟩
  split at h
  · rename_i htrivial
    cases h
    exact .nontrivial htrivial
  rename_i htrivial
  have htrivial : c.trivial = true := by simpa using htrivial
  split at h
  · cases h
  · rename_i hlane
    cases h
    exact .floats htrivial hlane
  rename_i hlane
  split at h
  · rename_i hsize
    cases h
    exact .large htrivial hlane hsize
  rename_i hsize
  split at h
  · cases h
  rename_i hmixed
  split at h
  · rename_i h8
    cases h
    exact .word htrivial hlane hsize hmixed h8
  · rename_i h8
    cases h
    exact .pair htrivial hlane hsize hmixed h8

theorem bounded_returnComposite (hv : abi.Valid) {c : Composite}
    (h : abi.returnComposite c = .ok mechanism) : ResultPlan.Bounded abi ⟨mechanism, c.size⟩ := by
  obtain ⟨-, -, -, -, -, hbytes⟩ := abi.valid_iff.mp hv
  cases (returns_of_returnComposite h).2 with
  | nontrivial | large => trivial
  | floats _ hlane =>
      rw [lane?_eq_ok hv] at hlane
      obtain ⟨hw, hcount, hle⟩ := lane_bounds hv (Except.ok.inj hlane)
      refine ⟨hw, ?_, hle⟩
      rw [hcount]
      exact le_mul_unitsFor (by omega)
  | word _ _ _ _ h8 => exact UInt32.le_iff_toNat_le.mp h8
  | pair _ _ hsize =>
      rw [UInt32.lt_iff_toNat_lt] at hsize
      exact Nat.le_trans (Nat.le_of_not_lt hsize) hbytes

theorem bounded_mechanism (hv : abi.Valid) {r : ResultType}
    (h : abi.mechanism r = .ok mechanism) : ResultPlan.Bounded abi ⟨mechanism, r.size⟩ := by
  cases r with
  | void =>
      cases h
      trivial
  | value t =>
      obtain ⟨kind, byRef⟩ := t
      cases byRef with
      | true =>
          cases h
          exact Nat.le_refl 8
      | false =>
          cases kind with
          | scalar s =>
              have hs : (UInt32.ofNat s.size).toNat ≤ 8 := by cases s <;> decide
              cases s <;> cases h <;> exact hs
          | handle =>
              cases h
              exact Nat.le_refl 8
          | composite c => exact bounded_returnComposite hv h

theorem lowerResult_eq_ok_iff {r : ResultType} {p : ResultPlan} :
    abi.lowerResult r = .ok p ↔ abi.mechanism r = .ok p.mechanism ∧ p.size = r.size := by
  simp only [lowerResult, bind_eq_ok, mapError_eq_ok]
  constructor
  · rintro ⟨mechanism, hm, hp⟩
    cases hp
    exact ⟨hm, rfl⟩
  · rintro ⟨hm, hs⟩
    refine ⟨p.mechanism, hm, ?_⟩
    rw [← hs]
    rfl

theorem bounded_lowerResult (hv : abi.Valid) {r : ResultType} {p : ResultPlan}
    (h : abi.lowerResult r = .ok p) : p.Bounded abi := by
  obtain ⟨hm, hs⟩ := lowerResult_eq_ok_iff.mp h
  have hb := bounded_mechanism hv hm
  rwa [← hs] at hb

end Abi

/-! ### Plans -/

theorem Callable.lower_eq_ok_iff {f : Callable} {abi : Abi} {l : Lowering} : f.lower abi = .ok l ↔
    f.targetMatches = true ∧ ∃ params result, abi.lowerParams 0 f.params = .ok params ∧
      abi.lowerResult f.result = .ok result ∧
      l = ⟨abi, f.target, f.convention, params, result⟩ := by
  unfold lower
  split
  · rename_i ht
    simp only [bind_eq_ok]
    constructor
    · rintro ⟨params, hparams, result, hresult, he⟩
      cases he
      exact ⟨ht, params, result, hparams, hresult, rfl⟩
    · rintro ⟨-, params, result, hparams, hresult, rfl⟩
      exact ⟨params, hparams, result, hresult, rfl⟩
  · rename_i ht
    constructor
    · intro h
      cases h
    · intro h
      exact absurd h.1 ht

namespace Plan

/-- The stages of making a plan, each with its outcome. -/
structure Planned (p : Plan) (f : Callable) (abi : Abi) : Prop where
  targetMatches : f.targetMatches = true
  abi_eq : p.abi = abi
  target_eq : p.target = f.target
  convention_eq : p.convention = f.convention
  params : abi.lowerParams 0 f.params = .ok p.params
  result : abi.lowerResult f.result = .ok p.result
  layout : ∃ c, abi.seat .start p.passengers = .ok (p.layout, c)

theorem make_eq_ok_iff {f : Callable} {abi : Abi} {p : Plan} :
    make f abi = .ok p ↔ p.Planned f abi := by
  obtain ⟨⟨pabi, target, convention, params, result⟩, layout⟩ := p
  simp only [make, bind_eq_ok, mapError_eq_ok, Callable.lower_eq_ok_iff]
  constructor
  · rintro ⟨l, ⟨ht, qs, r, hqs, hr, rfl⟩, ⟨places, c⟩, hseat, hp⟩
    cases hp
    exact ⟨ht, rfl, rfl, rfl, hqs, hr, c, hseat⟩
  · rintro ⟨ht, habi, htarget, hconv, hparams, hresult, c, hseat⟩
    simp only at habi htarget hconv hparams hresult
    subst habi htarget hconv
    exact ⟨_, ⟨ht, params, result, hparams, hresult, rfl⟩, (layout, c), hseat, rfl⟩

variable {p : Plan} {f : Callable} {abi : Abi}

theorem Planned.forall₂ (h : p.Planned f abi) : List.Forall₂ p.abi.Lowers f.params p.params := by
  rw [h.abi_eq]
  exact Abi.lowerParams_forall₂ h.params

theorem Planned.length_params (h : p.Planned f abi) : p.params.length = f.params.length :=
  h.forall₂.length_eq.symm

/-- Parameter `k` of a plan is what its type is lowered to. -/
theorem Planned.exists_lowers (h : p.Planned f abi) {k : Nat} {t : ValueType}
    (hk : f.params[k]? = some t) : ∃ q, p.params[k]? = some q ∧ p.abi.Lowers t q :=
  exists_getElem?_of_forall₂ h.forall₂ hk

/-- Every parameter of a plan has a type that it is lowered from. -/
theorem Planned.exists_type (h : p.Planned f abi) {k : Nat} {q : ParamPlan}
    (hk : p.params[k]? = some q) : ∃ t, f.params[k]? = some t ∧ p.abi.Lowers t q :=
  exists_getElem?_of_forall₂ h.forall₂.flip hk

theorem Planned.sound (hv : abi.Valid) (h : p.Planned f abi) : ∀ q ∈ p.params, q.Sound p.abi :=
  Abi.sound_of_forall₂ (by rwa [h.abi_eq]) h.forall₂

end Plan

end ForeignCall
