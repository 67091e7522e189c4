import ForeignCall.Proofs.Agreement

/-! # Float composites beyond the float budget

A composite of floats of one precision comes back in float registers if its members and its bytes fit
them (`Abi.HoldsFloats`).  One that does not fit is meant to come back through memory, but nothing in
the analysis asks for that: it goes the way of any other composite, which leads to memory only beyond
the bytes of a register aggregate.  That limit is configured apart from the float registers.  Below
it, an ABI that packs by members returns the floats in general registers, and one with eightbytes
refuses them for members of several classes that they do not have
(`Composite.Floats.returnComposite_eq`).

So memory is the rule for all excess floats exactly on those ABIs whose float registers, at the
narrowest lane, hold at least a register aggregate (`returnsExcessInMemory_iff`).  Both presets are
of this kind (`returnsExcessInMemory_preset`); `padded_floats_in_general_pair` is a composite of an
ABI that is not.  `excess_floats_in_memory_iff` is the whole statement. -/

namespace ForeignCall

/-- A trivial composite of floats of one width, at least one and all inside of it, that an ABI can
take by value. -/
structure Composite.Floats (c : Composite) (width count : Nat) : Prop where
  trivial : c.trivial = true
  align : isPowerOfTwo c.align = true
  members : c.floatMembers = some (width, count)
  count_pos : 0 < count
  inside : width * count ≤ c.size.toNat

namespace Abi

/-- Bytes that a float register carries, for members of a width. -/
def laneFor (abi : Abi) (width : Nat) : Nat :=
  match abi.packing with
  | .perMember => width
  | .eightbyte => 8

theorem laneFor_of_perMember {abi : Abi} (h : abi.packing = .perMember) (width : Nat) :
    abi.laneFor width = width := by
  simp [laneFor, h]

theorem laneFor_of_eightbyte {abi : Abi} (h : abi.packing = .eightbyte) (width : Nat) :
    abi.laneFor width = 8 := by
  simp [laneFor, h]

theorem perMember_or_eightbyte (abi : Abi) :
    abi.packing = .perMember ∨ abi.packing = .eightbyte := by
  cases abi.packing with
  | perMember => exact Or.inl rfl
  | eightbyte => exact Or.inr rfl

/-- The floats fit the float return registers: by their bytes, and by their number where every
member takes a register. -/
def HoldsFloats (abi : Abi) (c : Composite) (width count : Nat) : Prop :=
  c.size.toNat ≤ abi.laneFor width * abi.floatReturnRegisters ∧
    (abi.packing = .perMember → count ≤ abi.floatReturnRegisters)

instance (abi : Abi) (c : Composite) (width count : Nat) :
    Decidable (abi.HoldsFloats c width count) := inferInstanceAs (Decidable (_ ∧ _))

/-- Floats that do not fit the float return registers come back through memory. -/
def ReturnsExcessInMemory (abi : Abi) : Prop :=
  ∀ c width count, c.Floats width count → ¬ abi.HoldsFloats c width count →
    abi.returnComposite c = .ok .memory

end Abi

/-! ### The way of every composite of floats -/

namespace Composite.Floats

variable {abi : Abi} {c : Composite} {width count : Nat}

theorem width_eq (h : c.Floats width count) : width = 4 ∨ width = 8 :=
  Abi.floatMembers_width h.members

theorem objection?_eq_none (h : c.Floats width count) : c.objection? = none := by
  have hsize : c.size ≠ 0 := by
    intro h0
    have hw := h.width_eq
    have hinside := h.inside
    rw [h0] at hinside
    have hpos : 0 < width * count := Nat.mul_pos (by omega) h.count_pos
    exact absurd hinside (Nat.not_le.mpr hpos)
  unfold objection?
  rw [if_neg hsize, if_pos h.align]

theorem laneOf_eq (h : c.Floats width count) :
    abi.laneOf c = if abi.HoldsFloats c width count then some (abi.laneFor width) else none := by
  have hcount : count ≠ 0 := Nat.ne_of_gt h.count_pos
  unfold Abi.laneOf Abi.HoldsFloats
  rcases abi.perMember_or_eightbyte with hp | hp
  · simp [h.trivial, h.members, hp, hcount, Abi.laneFor_of_perMember hp, and_comm]
  · simp [h.trivial, h.members, hp, hcount, Abi.laneFor_of_eightbyte hp]

theorem returnComposite_eq (hv : abi.Valid) (h : c.Floats width count) :
    abi.returnComposite c =
      if abi.HoldsFloats c width count then
        .ok (.floatAggregate (UInt8.ofNat (abi.laneFor width))
          (Abi.laneCount c (abi.laneFor width)))
      else if abi.registerBytes < c.size then .ok .memory
      else if abi.packing = .eightbyte then .error (.objection .mixedMembers)
      else if c.size ≤ 8 then .ok .general
      else .ok .generalPair := by
  have hinteger : c.members ≠ .integer :=
    (Abi.exists_floatMembers_iff.mp ⟨_, h.members⟩).1
  unfold Abi.returnComposite
  rw [Abi.lane?_eq_ok hv, h.laneOf_eq]
  simp only [h.objection?_eq_none, h.trivial]
  by_cases hfits : abi.HoldsFloats c width count
  · simp only [if_pos hfits]
    rfl
  · simp only [if_neg hfits]
    simp [hinteger]

theorem exists_floatAggregate (hv : abi.Valid) (h : c.Floats width count)
    (hfits : abi.HoldsFloats c width count) :
    ∃ lane registers : UInt8, abi.returnComposite c = .ok (.floatAggregate lane registers) ∧
      lane.toNat = abi.laneFor width ∧
      registers.toNat = unitsFor c.size.toNat (abi.laneFor width) ∧
      registers.toNat ≤ abi.floatReturnRegisters := by
  have hlane : abi.laneOf c = some (abi.laneFor width) := by
    rw [h.laneOf_eq, if_pos hfits]
  obtain ⟨-, hcount, hle⟩ := Abi.lane_bounds hv hlane
  have hwidth := Abi.toNat_ofNat_lane (Abi.laneOf_eq_some hlane).1
  rw [hwidth] at hcount
  refine ⟨_, _, ?_, hwidth, hcount, hle⟩
  rw [h.returnComposite_eq hv, if_pos hfits]

/-- Floats that do not fit come back through memory only if a register aggregate is smaller. -/
theorem returnComposite_eq_memory_iff (hv : abi.Valid) (h : c.Floats width count)
    (hexcess : ¬ abi.HoldsFloats c width count) :
    abi.returnComposite c = .ok .memory ↔ abi.registerBytes < c.size := by
  rw [h.returnComposite_eq hv, if_neg hexcess]
  by_cases hlarge : abi.registerBytes < c.size
  · rw [if_pos hlarge]
    exact iff_of_true rfl hlarge
  · rw [if_neg hlarge]
    refine iff_of_false ?_ hlarge
    split
    · exact nofun
    · split <;> exact nofun

theorem returnComposite_of_le (hv : abi.Valid) (h : c.Floats width count)
    (hexcess : ¬ abi.HoldsFloats c width count) (hsize : c.size ≤ abi.registerBytes) :
    abi.returnComposite c =
      match abi.packing with
      | .eightbyte => .error (.objection .mixedMembers)
      | .perMember => .ok (if c.size ≤ 8 then .general else .generalPair) := by
  rw [h.returnComposite_eq hv, if_neg hexcess, if_neg (UInt32.not_lt.mpr hsize)]
  cases abi.packing with
  | eightbyte => rfl
  | perMember =>
      simp only [reduceCtorEq, if_false]
      split <;> rfl

/-- Floats within the lanes of the narrowest member are never excess: a member takes four bytes, so
that there are no more members than lanes. -/
theorem holdsFloats_of_size_le (h : c.Floats width count)
    (hsize : c.size.toNat ≤ abi.laneFor 4 * abi.floatReturnRegisters) :
    abi.HoldsFloats c width count := by
  have hinside := h.inside
  unfold Abi.HoldsFloats
  rcases abi.perMember_or_eightbyte with hp | hp
  · rw [Abi.laneFor_of_perMember hp] at hsize ⊢
    rcases h.width_eq with rfl | rfl
    · exact ⟨hsize, fun _ => by omega⟩
    · exact ⟨by omega, fun _ => by omega⟩
  · rw [Abi.laneFor_of_eightbyte hp] at hsize ⊢
    refine ⟨hsize, fun hper => ?_⟩
    rw [hp] at hper
    cases hper

end Composite.Floats

/-! ### The ABIs on which memory is the rule -/

/-- One float in so many bytes, without a demand on its place. -/
def Composite.loneFloat (size : UInt32) : Composite := .plain size 1 (.float32 1)

theorem Composite.floats_loneFloat {size : UInt32} (h : 4 ≤ size.toNat) :
    (loneFloat size).Floats 4 1 where
  trivial := rfl
  align := rfl
  members := rfl
  count_pos := Nat.one_pos
  inside := h

namespace Abi

variable {abi : Abi}

theorem holdsFloats_loneFloat_iff (hv : abi.Valid) (size : UInt32) :
    abi.HoldsFloats (.loneFloat size) 4 1 ↔
      size.toNat ≤ abi.laneFor 4 * abi.floatReturnRegisters := by
  obtain ⟨-, -, -, hf, -⟩ := abi.valid_iff.mp hv
  exact and_iff_left fun _ => hf.1

/-- Memory is the rule if excess floats are larger than any register aggregate.  Otherwise there is a
float with the bytes of a register aggregate that breaks it. -/
theorem returnsExcessInMemory_iff (hv : abi.Valid) : abi.ReturnsExcessInMemory ↔
    abi.registerBytes.toNat ≤ abi.laneFor 4 * abi.floatReturnRegisters := by
  obtain ⟨-, -, -, -, hbytes, -⟩ := abi.valid_iff.mp hv
  constructor
  · intro hrule
    by_contra hsize
    have hlone : (Composite.loneFloat abi.registerBytes).Floats 4 1 :=
      Composite.floats_loneFloat (by omega)
    have hexcess := fun h => hsize ((holdsFloats_loneFloat_iff hv _).mp h)
    have hlarge := (hlone.returnComposite_eq_memory_iff hv hexcess).mp
      (hrule _ _ _ hlone hexcess)
    exact UInt32.lt_irrefl _ hlarge
  · intro hsize c width count h hexcess
    rw [h.returnComposite_eq_memory_iff hv hexcess]
    by_contra hle
    have hle := UInt32.le_iff_toNat_le.mp (UInt32.not_lt.mp hle)
    exact hexcess (h.holdsFloats_of_size_le (Nat.le_trans hle hsize))

theorem returnsExcessInMemory_preset (a : Arch) : (preset a).ReturnsExcessInMemory := by
  rw [returnsExcessInMemory_iff (valid_preset a)]
  cases a <;> decide

/-- A trivial composite of floats of one precision comes back in float registers if it fits them.  If
it does not, it comes back through memory exactly if it is larger than a register aggregate; smaller
ones are returned in general registers by ABIs that pack by members and refused by those with
eightbytes.  All excess floats of an ABI come back through memory exactly if its float registers
hold a register aggregate at the narrowest lane. -/
theorem excess_floats_in_memory_iff (hv : abi.validate = .ok ()) :
    (∀ c width count, c.Floats width count →
      (abi.HoldsFloats c width count → ∃ lane registers : UInt8,
        abi.returnComposite c = .ok (.floatAggregate lane registers) ∧
          lane.toNat = abi.laneFor width ∧
          registers.toNat = unitsFor c.size.toNat (abi.laneFor width) ∧
          registers.toNat ≤ abi.floatReturnRegisters) ∧
      (¬ abi.HoldsFloats c width count →
        (abi.returnComposite c = .ok .memory ↔ abi.registerBytes < c.size) ∧
        (c.size ≤ abi.registerBytes → abi.returnComposite c =
          match abi.packing with
          | .eightbyte => .error (.objection .mixedMembers)
          | .perMember => .ok (if c.size ≤ 8 then .general else .generalPair)))) ∧
      (abi.ReturnsExcessInMemory ↔
        abi.registerBytes.toNat ≤ abi.laneFor 4 * abi.floatReturnRegisters) := by
  have hv := abi.validate_eq_ok_iff.mp hv
  refine ⟨?_, returnsExcessInMemory_iff hv⟩
  intro c width count h
  refine ⟨h.exists_floatAggregate hv, ?_⟩
  intro hexcess
  exact ⟨h.returnComposite_eq_memory_iff hv hexcess, h.returnComposite_of_le hv hexcess⟩

/-- AArch64 with three float registers for results. -/
def threeFloat : Abi := { aarch64 with floatReturnRegisters := 3 }

/-- With three float registers five floats come back through memory, but memory is not the rule. -/
theorem excess_floats_in_memory_iff_threeFloat : threeFloat.validate = .ok () ∧
    threeFloat.returnComposite (.plain 20 4 (.float32 5)) = .ok .memory ∧
    ¬ threeFloat.ReturnsExcessInMemory := by
  have hv : threeFloat.validate = .ok () := rfl
  have hfloats : (Composite.plain 20 4 (.float32 5)).Floats 4 5 :=
    ⟨rfl, rfl, rfl, by decide, by decide⟩
  obtain ⟨hway, hrule⟩ := excess_floats_in_memory_iff hv
  obtain ⟨hmemory, -⟩ := (hway _ _ _ hfloats).2 (by decide)
  refine ⟨hv, hmemory.mpr (by decide), ?_⟩
  rw [hrule]
  decide

/-- Three floats with padding up to 16 bytes are one float register too large, and come back in a
general pair. -/
theorem padded_floats_in_general_pair : threeFloat.validate = .ok () ∧
    (Composite.plain 16 16 (.float32 3)).Floats 4 3 ∧
    ¬ threeFloat.HoldsFloats (.plain 16 16 (.float32 3)) 4 3 ∧
    threeFloat.returnComposite (.plain 16 16 (.float32 3)) = .ok .generalPair :=
  ⟨rfl, ⟨rfl, rfl, rfl, by decide, by decide⟩, by decide, by decide⟩

end Abi

end ForeignCall
