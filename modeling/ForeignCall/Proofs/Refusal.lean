import ForeignCall.Proofs.Agreement
import Mathlib.Order.WellFounded

/-! # Composites that an ABI refuses

Three things can be said against a composite: that it is empty, that its alignment is no power of
two, and that its members are of several classes.  `Composite.Draws` says when each of them applies;
more than one may.  They are looked for in this order, and the first that applies is reported
(`Composite.DrawsFirst`).

The first two are the same for parameters and results.  The third is not: `Abi.MixesParameter` asks
for mixed members, `Abi.MixesResult` for members that are not all integers and no float aggregate.
Either analysis fails exactly with the first objection in its sense
(`Abi.passComposite_eq_error_iff`, `Abi.returnComposite_eq_error_iff_drawsFirst`). -/

namespace ForeignCall

/-! ### Objections to a composite -/

theorem isPowerOfTwo_iff {n : UInt32} : isPowerOfTwo n = true ↔ n.toNat.isPowerOfTwo := by
  unfold isPowerOfTwo Nat.isPowerOfTwo
  simp only [List.any_eq_true, List.mem_range, beq_iff_eq, Nat.one_shiftLeft]
  constructor
  · rintro ⟨k, -, hk⟩
    exact ⟨k, hk⟩
  · rintro ⟨k, hk⟩
    have hn : n.toNat < 2 ^ 32 := n.toNat_lt
    rw [hk] at hn
    exact ⟨k, (Nat.pow_lt_pow_iff_right (by decide)).mp hn, hk⟩

/-- The order in which objections are looked for. -/
def Objection.rank : Objection → Nat
  | empty => 0
  | alignment => 1
  | mixedMembers => 2

theorem Objection.rank_injective : Function.Injective rank := by
  intro o o' h
  cases o <;> cases o' <;> first | rfl | cases h

theorem Objection.forall_iff {P : Objection → Prop} :
    (∀ o, P o) ↔ P .empty ∧ P .alignment ∧ P .mixedMembers := by
  constructor
  · intro h
    exact ⟨h _, h _, h _⟩
  · rintro ⟨he, ha, hm⟩ o
    cases o with
    | empty => exact he
    | alignment => exact ha
    | mixedMembers => exact hm

namespace Composite

variable {c : Composite} {mixes : Prop} {o : Objection}

/-- The objection applies.  Whether the members are of too many classes is for the ABI to say. -/
def Draws (c : Composite) (mixes : Prop) : Objection → Prop
  | .empty => c.size = 0
  | .alignment => ¬ c.align.toNat.isPowerOfTwo
  | .mixedMembers => mixes

/-- The objection applies, and none that is looked for earlier does. -/
def DrawsFirst (c : Composite) (mixes : Prop) (o : Objection) : Prop :=
  c.Draws mixes o ∧ ∀ i : Objection, i.rank < o.rank → ¬ c.Draws mixes i

/-- The first objection is one to the composite by itself, or there is none and its members mix. -/
theorem drawsFirst_iff : c.DrawsFirst mixes o ↔
    c.objection? = some o ∨ c.objection? = none ∧ mixes ∧ o = .mixedMembers := by
  unfold DrawsFirst objection?
  rw [Objection.forall_iff]
  by_cases hs : c.size = 0
  · cases o with
    | empty | alignment | mixedMembers => simp [Draws, Objection.rank, hs]
  · by_cases ha : isPowerOfTwo c.align = true
    · cases o with
      | empty | alignment | mixedMembers =>
          simp [Draws, Objection.rank, ← isPowerOfTwo_iff, hs, ha]
    · cases o with
      | empty | alignment | mixedMembers =>
          simp [Draws, Objection.rank, ← isPowerOfTwo_iff, hs, ha]

theorem exists_drawsFirst (h : c.Draws mixes o) : ∃ j, c.DrawsFirst mixes j := by
  obtain ⟨j, hj, hmin⟩ :=
    WellFounded.has_min (measure Objection.rank).wf {o | c.Draws mixes o} ⟨o, h⟩
  exact ⟨j, hj, fun i hi hd => hmin i hd hi⟩

end Composite

/-! ### Composites that an ABI refuses -/

namespace Abi

variable {abi : Abi} {c : Composite} {o : Obstacle}

/-- Mixed members would have to share the eightbytes of general registers. -/
def MixesParameter (abi : Abi) (c : Composite) : Prop :=
  abi.packing = .eightbyte ∧ c.trivial = true ∧ c.members = .mixed ∧ c.size ≤ abi.registerBytes

/-- Members that are not integers would have to come back in general registers, eightbyte by
eightbyte. -/
def MixesResult (abi : Abi) (c : Composite) : Prop :=
  abi.packing = .eightbyte ∧ c.trivial = true ∧ c.members ≠ .integer ∧
    abi.isFloatAggregate c = .ok false ∧ c.size ≤ abi.registerBytes

theorem isFloatAggregate_eq_ok_false_iff (hv : abi.Valid) :
    abi.isFloatAggregate c = .ok false ↔ abi.laneOf c = none := by
  have hlane := lane?_eq_ok hv c
  unfold lane? at hlane
  cases ha : abi.isFloatAggregate c with
  | error b => simp [ha] at hlane
  | ok b =>
      cases b with
      | false => simpa [ha, eq_comm] using hlane
      | true =>
          have hm : c.floatMembers ≠ none := by
            intro hm
            simp [isFloatAggregate, hm] at ha
          cases hp : abi.packing with
          | perMember =>
              simp only [ha, hp, Except.ok.injEq] at hlane
              simp [← hlane, hm]
          | eightbyte =>
              simp only [ha, hp, Except.ok.injEq] at hlane
              simp [← hlane]

theorem laneOf_eq_none_of_mixed (hm : c.members = .mixed) : abi.laneOf c = none := by
  unfold laneOf Composite.floatMembers
  simp [hm]

theorem mixesParameter_iff (ho : c.objection? = none) : abi.MixesParameter c ↔
    abi.LeftForGeneral c ∧ c.members = .mixed ∧ abi.packing = .eightbyte := by
  constructor
  · rintro ⟨hp, ht, hm, hs⟩
    exact ⟨⟨ho, ht, laneOf_eq_none_of_mixed hm, hs⟩, hm, hp⟩
  · rintro ⟨hleft, hm, hp⟩
    exact ⟨hp, hleft.trivial, hm, hleft.size⟩

theorem mixesResult_iff (hv : abi.Valid) (ho : c.objection? = none) : abi.MixesResult c ↔
    abi.LeftForGeneral c ∧ abi.packing = .eightbyte ∧ c.members ≠ .integer := by
  unfold MixesResult
  rw [isFloatAggregate_eq_ok_false_iff hv]
  constructor
  · rintro ⟨hp, ht, hm, hl, hs⟩
    exact ⟨⟨ho, ht, hl, hs⟩, hp, hm⟩
  · rintro ⟨hleft, hp, hm⟩
    exact ⟨hp, hleft.trivial, hm, hleft.lane, hleft.size⟩

theorem passComposite_eq_error_iff (hv : abi.Valid) : abi.passComposite c = .error o ↔
    ∃ j, o = .objection j ∧ c.DrawsFirst (abi.MixesParameter c) j := by
  simp only [Composite.drawsFirst_iff]
  cases ho : c.objection? with
  | some i =>
      rw [(abi.composite_eq_error_of_objection ho).1]
      simp [eq_comm]
  | none =>
      rw [mixesParameter_iff ho]
      by_cases hleft : abi.LeftForGeneral c
      · rw [hleft.passComposite_eq hv]
        split
        · rename_i hm
          simp [hleft, hm, eq_comm]
        · rename_i hm
          simp [hm]
      · obtain ⟨⟨pass, hpass⟩, -⟩ := exists_eq_ok_of_not_left hv ho hleft
        simp [hpass, hleft]

theorem returnComposite_eq_error_iff_drawsFirst (hv : abi.Valid) :
    abi.returnComposite c = .error o ↔
      ∃ j, o = .objection j ∧ c.DrawsFirst (abi.MixesResult c) j := by
  simp only [Composite.drawsFirst_iff]
  cases ho : c.objection? with
  | some i =>
      rw [(abi.composite_eq_error_of_objection ho).2]
      simp [eq_comm]
  | none =>
      rw [mixesResult_iff hv ho]
      by_cases hleft : abi.LeftForGeneral c
      · rw [hleft.returnComposite_eq hv]
        split
        · rename_i hm
          simp [hleft, hm, eq_comm]
        · rename_i hm
          split <;> simp [hm]
      · obtain ⟨-, mechanism, hreturn⟩ := exists_eq_ok_of_not_left hv ho hleft
        simp [hreturn, hleft]

end Abi

end ForeignCall
