import ForeignCall.Proofs.Lowering

/-! # Parameters and results of one type

A composite is looked at twice: as a parameter (`Abi.passComposite`) and as a result
(`Abi.returnComposite`).  Where both analyses succeed they send it the same way (`Corresponds`):
general registers there and back, float registers there and back with the same numbers, or memory.

Whether they succeed is decided by conditions that are written differently.  Both refuse what no ABI
can take by value, and both refuse members of several classes in eightbyte lanes.  But the parameter
analysis asks whether the members are `mixed`, and the result analysis whether they are not
`integer`.  The floats of one precision in between come here only if they did not fit the float
return registers: such a composite (`Abi.Stranded`) may be passed and not returned.

`analyses_agree_iff` says that the analyses fail together exactly for all other composites;
`float_pair_not_returned` is a pair of doubles that is passed in general registers and refused as a
result. -/

namespace ForeignCall

/-- The way of a parameter and the way of a result are the same way. -/
inductive Corresponds : Pass → Mechanism → Prop
  | word {words size : UInt32} {align16 : Bool} :
      Corresponds (.inlineWords words size align16) .general
  | pair {words size : UInt32} {align16 : Bool} :
      Corresponds (.inlineWords words size align16) .generalPair
  | floats {count width : UInt8} {size : UInt32} :
      Corresponds (.floatMembers count width size) (.floatAggregate width count)
  | address : Corresponds .address .memory
  | image {words size : UInt32} {align16 : Bool} :
      Corresponds (.stackImage words size align16) .memory

namespace Abi

variable {abi : Abi} {c : Composite} {pass : Pass} {mechanism : Mechanism}

/-! ### Two successes -/

/-- The guards that the two analyses share leave one way back for every way there. -/
theorem Passes.corresponds (hp : abi.Passes c pass) (hr : abi.Returns c mechanism) :
    Corresponds pass mechanism := by
  cases hp with
  | nontrivial ht =>
      cases hr with
      | nontrivial => exact .address
      | floats ht' | large ht' | word ht' | pair ht' => simp [ht] at ht'
  | floats ht hl =>
      cases hr with
      | nontrivial ht' => simp [ht] at ht'
      | floats _ hl' =>
          rw [hl] at hl'
          cases hl'
          exact .floats
      | large _ hl' | word _ hl' | pair _ hl' => simp [hl] at hl'
  | words ht hl hs =>
      cases hr with
      | nontrivial ht' => simp [ht] at ht'
      | floats _ hl' => simp [hl] at hl'
      | large _ _ hs' => exact absurd hs (UInt32.not_le.mpr hs')
      | word => exact .word
      | pair => exact .pair
  | large ht hl hs =>
      cases hr with
      | nontrivial ht' => simp [ht] at ht'
      | floats _ hl' => simp [hl] at hl'
      | large => exact .address
      | word _ _ hs' | pair _ _ hs' => exact absurd (UInt32.not_le.mp hs) hs'
  | image ht hl hs =>
      cases hr with
      | nontrivial ht' => simp [ht] at ht'
      | floats _ hl' => simp [hl] at hl'
      | large => exact .image
      | word _ _ hs' | pair _ _ hs' => exact absurd (UInt32.not_le.mp hs) hs'

theorem corresponds_of_eq_ok (hp : abi.passComposite c = .ok pass)
    (hr : abi.returnComposite c = .ok mechanism) : Corresponds pass mechanism :=
  (passes_of_passComposite hp).2.corresponds (returns_of_returnComposite hr).2

/-! ### Failures -/

/-- Neither memory nor float registers: the composite is left for general registers. -/
structure LeftForGeneral (abi : Abi) (c : Composite) : Prop where
  objection : c.objection? = none
  trivial : c.trivial = true
  lane : abi.laneOf c = none
  size : c.size ≤ abi.registerBytes

theorem composite_eq_error_of_objection (abi : Abi) {o : Objection} (h : c.objection? = some o) :
    abi.passComposite c = .error (.objection o) ∧ abi.returnComposite c = .error (.objection o) := by
  unfold passComposite returnComposite
  rw [h]
  exact ⟨rfl, rfl⟩

theorem exists_eq_ok_of_not_left (hv : abi.Valid) (ho : c.objection? = none)
    (h : ¬ abi.LeftForGeneral c) :
    (∃ pass, abi.passComposite c = .ok pass) ∧
      ∃ mechanism, abi.returnComposite c = .ok mechanism := by
  unfold passComposite returnComposite
  rw [lane?_eq_ok hv]
  simp only [ho]
  cases ht : c.trivial with
  | false => exact ⟨⟨_, rfl⟩, _, rfl⟩
  | true =>
      cases hl : abi.laneOf c with
      | some lane => exact ⟨⟨_, rfl⟩, _, rfl⟩
      | none =>
          have hs : ¬ c.size ≤ abi.registerBytes := fun hs => h ⟨ho, ht, hl, hs⟩
          have hs' : abi.registerBytes < c.size := UInt32.not_le.mp hs
          simp only [if_neg hs, if_pos hs']
          refine ⟨?_, _, rfl⟩
          cases abi.largeByAddress with
          | false => exact ⟨_, rfl⟩
          | true => exact ⟨_, rfl⟩

theorem LeftForGeneral.passComposite_eq (hv : abi.Valid) (h : abi.LeftForGeneral c) :
    abi.passComposite c =
      if c.members = .mixed ∧ abi.packing = .eightbyte then .error (.objection .mixedMembers)
      else .ok (.inlineWords (UInt32.ofNat c.words) c.size (16 ≤ c.align)) := by
  unfold passComposite
  rw [lane?_eq_ok hv]
  simp only [h.objection, h.trivial, h.lane, if_pos h.size]
  rfl

theorem LeftForGeneral.returnComposite_eq (hv : abi.Valid) (h : abi.LeftForGeneral c) :
    abi.returnComposite c =
      if abi.packing = .eightbyte ∧ c.members ≠ .integer then .error (.objection .mixedMembers)
      else if c.size ≤ 8 then .ok .general
      else .ok .generalPair := by
  have hs : ¬ abi.registerBytes < c.size := UInt32.not_lt.mpr h.size
  unfold returnComposite
  rw [lane?_eq_ok hv]
  simp only [h.objection, h.trivial, h.lane, if_neg hs]
  rfl

/-- Members of one class that is not the class of integers are floats of one precision. -/
theorem exists_floatMembers_iff :
    (∃ m, c.floatMembers = some m) ↔ c.members ≠ .integer ∧ c.members ≠ .mixed := by
  unfold Composite.floatMembers
  cases c.members with
  | float32 n | float64 n => simp
  | integer | mixed => simp

/-- Floats of one precision that eightbytes cannot return, because there are too many bytes of them
or because there is no float at all, but that would fit general registers. -/
structure Stranded (abi : Abi) (c : Composite) : Prop where
  objection : c.objection? = none
  trivial : c.trivial = true
  packing : abi.packing = .eightbyte
  floats : ∃ width count, c.floatMembers = some (width, count) ∧
    (count = 0 ∨ 8 * abi.floatReturnRegisters < c.size.toNat)
  size : c.size ≤ abi.registerBytes

theorem stranded_iff : abi.Stranded c ↔
    abi.LeftForGeneral c ∧ abi.packing = .eightbyte ∧ c.members ≠ .integer ∧
      c.members ≠ .mixed := by
  rw [← exists_floatMembers_iff]
  constructor
  · rintro ⟨ho, ht, hp, ⟨width, count, hm, hn⟩, hs⟩
    refine ⟨⟨ho, ht, ?_, hs⟩, hp, _, hm⟩
    unfold laneOf
    simp only [ht, hm, hp]
    exact if_neg (by omega)
  · rintro ⟨⟨ho, ht, hl, hs⟩, hp, ⟨width, count⟩, hm⟩
    refine ⟨ho, ht, hp, ⟨width, count, hm, ?_⟩, hs⟩
    unfold laneOf at hl
    simp only [ht, hm, hp, ite_eq_right_iff, reduceCtorEq, imp_false] at hl
    omega

theorem returnComposite_eq_error_iff (hv : abi.Valid) {o : Obstacle} :
    abi.returnComposite c = .error o ↔
      abi.passComposite c = .error o ∨ abi.Stranded c ∧ o = .objection .mixedMembers := by
  cases ho : c.objection? with
  | some j =>
      obtain ⟨hpass, hreturn⟩ := abi.composite_eq_error_of_objection ho
      have hn : ¬ abi.Stranded c := fun h => by simp [h.objection] at ho
      simp [hpass, hreturn, hn]
  | none =>
      rw [stranded_iff]
      by_cases h : abi.LeftForGeneral c
      · rw [h.passComposite_eq hv, h.returnComposite_eq hv]
        cases hp : abi.packing with
        | perMember =>
            simp only [reduceCtorEq, and_false, false_and, if_false, or_false]
            split <;> simp
        | eightbyte =>
            cases hm : c.members with
            | float32 n | float64 n => simp [h, eq_comm]
            | mixed => simp [eq_comm]
            | integer =>
                simp only [reduceCtorEq, ne_eq, not_true, and_false, false_and, if_false, or_false]
                split <;> simp
      · obtain ⟨⟨pass, hpass⟩, mechanism, hreturn⟩ := exists_eq_ok_of_not_left hv ho h
        simp [hpass, hreturn, h]

theorem Stranded.passComposite_eq_ok (hv : abi.Valid) (h : abi.Stranded c) :
    abi.passComposite c =
      .ok (.inlineWords (UInt32.ofNat c.words) c.size (16 ≤ c.align)) := by
  obtain ⟨hleft, -, -, hmixed⟩ := stranded_iff.mp h
  rw [hleft.passComposite_eq hv, if_neg (fun hm => hmixed hm.1)]

theorem exists_objection_of_eq_error (hv : abi.Valid) {o : Obstacle}
    (h : abi.returnComposite c = .error o) : ∃ j, o = .objection j := by
  cases ho : c.objection? with
  | some j =>
      rw [(abi.composite_eq_error_of_objection ho).2] at h
      cases h
      exact ⟨j, rfl⟩
  | none =>
      by_cases hleft : abi.LeftForGeneral c
      · rw [hleft.returnComposite_eq hv] at h
        split at h
        · cases h
          exact ⟨_, rfl⟩
        · split at h <;> cases h
      · obtain ⟨-, mechanism, hok⟩ := exists_eq_ok_of_not_left hv ho hleft
        rw [hok] at h
        cases h

/-- A composite that is refused as a parameter is refused as a result, with the same objection.  The
converse holds for all composites but the stranded ones, which are passed in general registers and
refused as a result for members of several classes that they do not have.  A composite that neither
analysis refuses goes back the way it came. -/
theorem analyses_agree_iff (hv : abi.validate = .ok ()) (c : Composite) :
    (((∃ o, abi.passComposite c = .error o) ↔ ∃ o, abi.returnComposite c = .error o) ↔
        ¬ abi.Stranded c) ∧
      (∀ o, abi.passComposite c = .error o →
        abi.returnComposite c = .error o ∧ ∃ j, o = .objection j) ∧
      (abi.Stranded c →
        abi.passComposite c =
            .ok (.inlineWords (UInt32.ofNat c.words) c.size (16 ≤ c.align)) ∧
          abi.returnComposite c = .error (.objection .mixedMembers)) ∧
      ∀ pass mechanism, abi.passComposite c = .ok pass →
        abi.returnComposite c = .ok mechanism → Corresponds pass mechanism := by
  have hv := abi.validate_eq_ok_iff.mp hv
  have hstranded : abi.Stranded c → abi.returnComposite c = .error (.objection .mixedMembers) :=
    fun h => (returnComposite_eq_error_iff hv).mpr (Or.inr ⟨h, rfl⟩)
  refine ⟨?_, ?_, fun h => ⟨h.passComposite_eq_ok hv, hstranded h⟩,
    fun pass mechanism => corresponds_of_eq_ok⟩
  · constructor
    · intro hiff h
      obtain ⟨o, ho⟩ := hiff.mpr ⟨_, hstranded h⟩
      rw [h.passComposite_eq_ok hv] at ho
      cases ho
    · intro hn
      refine exists_congr fun o => ?_
      rw [returnComposite_eq_error_iff hv]
      simp [hn]
  · intro o ho
    have hreturn := (returnComposite_eq_error_iff hv).mpr (Or.inl ho)
    exact ⟨hreturn, exists_objection_of_eq_error hv hreturn⟩

/-- A composite of floats without a float is stranded on System V. -/
theorem analyses_agree_iff_floatless : Abi.systemV.validate = .ok () ∧
    Abi.systemV.Stranded (.plain 8 4 (.float32 0)) ∧
    ¬ ((∃ o, Abi.systemV.passComposite (.plain 8 4 (.float32 0)) = .error o) ↔
      ∃ o, Abi.systemV.returnComposite (.plain 8 4 (.float32 0)) = .error o) := by
  have h : Abi.systemV.Stranded (.plain 8 4 (.float32 0)) :=
    ⟨by decide, rfl, rfl, ⟨4, 0, rfl, Or.inl rfl⟩, by decide⟩
  have hv : Abi.systemV.validate = .ok () := rfl
  obtain ⟨hagree, -⟩ := analyses_agree_iff hv (.plain 8 4 (.float32 0))
  exact ⟨hv, h, fun hiff => hagree.mp hiff h⟩

/-- System V with one float register for results. -/
def narrow : Abi := { systemV with floatReturnRegisters := 1 }

/-- With one float register for results a pair of doubles is passed and not returned. -/
theorem float_pair_not_returned : narrow.validate = .ok () ∧
    narrow.passComposite (.plain 16 8 (.float64 2)) = .ok (.inlineWords 2 16 false) ∧
    narrow.returnComposite (.plain 16 8 (.float64 2)) = .error (.objection .mixedMembers) :=
  ⟨rfl, by decide, by decide⟩

end Abi

end ForeignCall
