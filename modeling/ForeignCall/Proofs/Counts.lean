import ForeignCall.Proofs.Refusal

/-! # The numbers of a lowered composite

Lowering turns the 32-bit size of a composite into counts of registers and slots, some of them a
single byte wide.  `Abi.KeepsWidths` lists every number on the way that is given a width: the float
budget, its product with a register width, the words of the composite, and width and number of its
float registers.  On a valid ABI each of them is the number that was meant (`Abi.keepsWidths`).

A count of units is right for a size if the units hold all of its bytes and less than one unit is
left over (`Snug`), as for every size divided up with the remainder rounded up (`snug_unitsFor`).
`Pass.Exact` and `Mechanism.Exact` say this of each way to pass and to return a composite, next to
the bounds of its numbers, and `lowering_exact` is the statement for both analyses. -/

namespace ForeignCall

/-! ### Units that hold a size -/

/-- The units hold so many bytes and leave over less than a unit. -/
def Snug (size unit count : Nat) : Prop := size ≤ unit * count ∧ unit * count < size + unit

theorem snug_unitsFor {unit : Nat} (hu : 0 < unit) (size : Nat) :
    Snug size unit (unitsFor size unit) := by
  refine ⟨le_mul_unitsFor hu, ?_⟩
  have hfloor : unit * unitsFor size unit ≤ size + unit - 1 := Nat.mul_div_le _ _
  omega

/-- One unit less would not do. -/
theorem Snug.mul_pred_lt {size unit count : Nat} (h : Snug size unit count) (hc : 0 < count) :
    unit * (count - 1) < size := by
  obtain ⟨-, hlt⟩ := h
  obtain ⟨n, rfl⟩ : ∃ n, count = n + 1 := ⟨count - 1, by omega⟩
  rw [Nat.mul_succ] at hlt
  rw [Nat.add_sub_cancel]
  omega

/-! ### Exact passes and mechanisms -/

/-- The numbers of a pass are those of the composite, within the bounds of the ABI. -/
def Pass.Exact (abi : Abi) (c : Composite) : Pass → Prop
  | general _ | float32 | float64 => False
  | address => True
  | inlineWords words size _ =>
      size = c.size ∧ (words.toNat = 1 ∨ words.toNat = 2) ∧ size ≤ abi.registerBytes ∧
        Snug size.toNat 8 words.toNat
  | floatMembers count width size =>
      size = c.size ∧ (width.toNat = 4 ∨ width.toNat = 8) ∧
        (1 ≤ count.toNat ∧ count.toNat ≤ abi.floatReturnRegisters) ∧
        Snug size.toNat width.toNat count.toNat
  | stackImage words size _ => size = c.size ∧ Snug size.toNat 8 words.toNat

/-- The registers of a mechanism are those that the composite takes. -/
def Mechanism.Exact (c : Composite) : Mechanism → Prop
  | void | float32 | float64 => False
  | memory => True
  | general => 1 ≤ c.size.toNat ∧ c.size.toNat ≤ 8
  | generalPair => 9 ≤ c.size.toNat ∧ c.size.toNat ≤ 16
  | floatAggregate width registers =>
      (width.toNat = 4 ∨ width.toNat = 8) ∧ (1 ≤ registers.toNat ∧ registers.toNat ≤ 4) ∧
        width.toNat * (registers.toNat - 1) < c.size.toNat ∧
        c.size.toNat ≤ width.toNat * registers.toNat

namespace Abi

variable {abi : Abi} {c : Composite} {pass : Pass} {mechanism : Mechanism}

/-! ### Numbers of a given width -/

/-- No number that lowering computes leaves its width. -/
structure KeepsWidths (abi : Abi) (c : Composite) : Prop where
  budget : abi.floatBudget = abi.floatReturnRegisters
  product : ∀ width, width ≤ 8 → width * abi.floatBudget < UInt32.size
  words : (UInt32.ofNat c.words).toNat = c.words
  lane : ∀ lane, abi.lane? c = .ok (some lane) → 0 < lane ∧ (UInt8.ofNat lane).toNat = lane
  laneCount : ∀ lane, abi.lane? c = .ok (some lane) →
    (laneCount c lane).toNat = unitsFor c.size.toNat lane

theorem keepsWidths (hv : abi.Valid) (c : Composite) : abi.KeepsWidths c where
  budget := floatBudget_eq hv
  product := by
    intro width hw
    obtain ⟨-, -, -, hf, -⟩ := abi.valid_iff.mp hv
    have hm : width * abi.floatReturnRegisters ≤ 8 * 4 := Nat.mul_le_mul hw hf.2
    rw [floatBudget_eq hv]
    unfold UInt32.size
    omega
  words := toNat_words c
  lane := by
    intro lane h
    rw [lane?_eq_ok hv] at h
    obtain ⟨hl, -⟩ := laneOf_eq_some (Except.ok.inj h)
    exact ⟨by omega, toNat_ofNat_lane hl⟩
  laneCount := by
    intro lane h
    rw [lane?_eq_ok hv] at h
    obtain ⟨hl, -⟩ := laneOf_eq_some (Except.ok.inj h)
    obtain ⟨-, hcount, -⟩ := lane_bounds hv (Except.ok.inj h)
    rwa [toNat_ofNat_lane hl] at hcount

/-! ### Both analyses -/

theorem passComposite_ne_breach (hv : abi.Valid) (c : Composite) (b : Breach) :
    abi.passComposite c ≠ .error (.breach b) := by
  intro h
  obtain ⟨j, hj, -⟩ := (passComposite_eq_error_iff hv).mp h
  cases hj

/-- Without validation the product of width and budget may leave 32 bits. -/
example : ({ aarch64 with floatReturnRegisters := 1 <<< 30 } : Abi).passComposite
    (.plain 8 4 (.float32 2)) = .error (.breach .outOfRange) := by decide

theorem returnComposite_ne_breach (hv : abi.Valid) (c : Composite) (b : Breach) :
    abi.returnComposite c ≠ .error (.breach b) := by
  intro h
  obtain ⟨j, hj⟩ := exists_objection_of_eq_error hv h
  cases hj

theorem snug_laneCount (hv : abi.Valid) {lane : Nat} (h : abi.laneOf c = some lane) :
    Snug c.size.toNat (UInt8.ofNat lane).toNat (laneCount c lane).toNat := by
  obtain ⟨hl, hcount, -⟩ := lane_bounds hv h
  rw [hcount]
  exact snug_unitsFor (by omega) _

theorem laneCount_pos (hv : abi.Valid) {lane : Nat} (h : abi.laneOf c = some lane)
    (hs : 0 < c.size.toNat) : 0 < (laneCount c lane).toNat := by
  obtain ⟨hl, hcount, -⟩ := lane_bounds hv h
  rw [hcount]
  exact unitsFor_pos (by omega) hs

theorem exact_passComposite (hv : abi.Valid) (h : abi.passComposite c = .ok pass) :
    pass.Exact abi c := by
  obtain ⟨-, -, -, -, -, hbytes⟩ := abi.valid_iff.mp hv
  obtain ⟨hobjection, hpasses⟩ := passes_of_passComposite h
  have hs := size_pos_of_objection? hobjection
  have hwords : Snug c.size.toNat 8 (UInt32.ofNat c.words).toNat := by
    rw [toNat_words]
    exact snug_unitsFor (by decide) _
  cases hpasses with
  | nontrivial | large => trivial
  | floats _ hlane =>
      rw [lane?_eq_ok hv] at hlane
      have hlane := Except.ok.inj hlane
      obtain ⟨hl, -, hle⟩ := lane_bounds hv hlane
      exact ⟨rfl, hl, ⟨laneCount_pos hv hlane hs, hle⟩, snug_laneCount hv hlane⟩
  | words _ _ hsize =>
      have h16 : c.size.toNat ≤ 16 := Nat.le_trans (UInt32.le_iff_toNat_le.mp hsize) hbytes
      obtain ⟨hle, hlt⟩ := hwords
      exact ⟨rfl, by omega, hsize, hle, hlt⟩
  | image => exact ⟨rfl, hwords⟩

theorem exact_returnComposite (hv : abi.Valid) (h : abi.returnComposite c = .ok mechanism) :
    mechanism.Exact c := by
  obtain ⟨-, -, -, ⟨-, hregisters⟩, -, hbytes⟩ := abi.valid_iff.mp hv
  obtain ⟨hobjection, hreturns⟩ := returns_of_returnComposite h
  have hs := size_pos_of_objection? hobjection
  cases hreturns with
  | nontrivial | large => trivial
  | floats _ hlane =>
      rw [lane?_eq_ok hv] at hlane
      have hlane := Except.ok.inj hlane
      obtain ⟨hl, -, hle⟩ := lane_bounds hv hlane
      have hpos := laneCount_pos hv hlane hs
      have hsnug := snug_laneCount hv hlane
      exact ⟨hl, ⟨hpos, Nat.le_trans hle hregisters⟩, hsnug.mul_pred_lt hpos, hsnug.1⟩
  | word _ _ _ _ h8 => exact ⟨hs, UInt32.le_iff_toNat_le.mp h8⟩
  | pair _ _ hsize _ h8 =>
      have h8 := UInt32.lt_iff_toNat_lt.mp (UInt32.not_le.mp h8)
      have hsize := UInt32.le_iff_toNat_le.mp (UInt32.not_lt.mp hsize)
      exact ⟨h8, Nat.le_trans hsize hbytes⟩

/-- On a valid ABI no number that lowering computes leaves its width, neither analysis breaks off,
and what they answer has the numbers of the composite: the units that copy it hold all of its bytes
and leave over less than one, and they are within the registers that there are. -/
theorem lowering_exact (hv : abi.validate = .ok ()) (c : Composite) :
    abi.KeepsWidths c ∧ (∀ b, abi.passComposite c ≠ .error (.breach b)) ∧
      (∀ b, abi.returnComposite c ≠ .error (.breach b)) ∧
      (∀ pass, abi.passComposite c = .ok pass → pass.Exact abi c) ∧
      ∀ mechanism, abi.returnComposite c = .ok mechanism → mechanism.Exact c := by
  have hv := abi.validate_eq_ok_iff.mp hv
  exact ⟨keepsWidths hv c, passComposite_ne_breach hv c, returnComposite_ne_breach hv c,
    fun _ => exact_passComposite hv, fun _ => exact_returnComposite hv⟩

/-- Fifteen bytes of floats take four registers of four bytes on AArch64, there and back, and one
byte of the last register is left over. -/
theorem lowering_exact_padded : aarch64.validate = .ok () ∧
    aarch64.passComposite (.plain 15 1 (.float32 3)) = .ok (.floatMembers 4 4 15) ∧
    (Pass.floatMembers 4 4 15).Exact aarch64 (.plain 15 1 (.float32 3)) ∧
    aarch64.returnComposite (.plain 15 1 (.float32 3)) = .ok (.floatAggregate 4 4) ∧
    (Mechanism.floatAggregate 4 4).Exact (.plain 15 1 (.float32 3)) := by
  have hv : aarch64.validate = .ok () := rfl
  obtain ⟨-, -, -, hpass, hreturn⟩ := lowering_exact hv (.plain 15 1 (.float32 3))
  have hp : aarch64.passComposite (.plain 15 1 (.float32 3)) = .ok (.floatMembers 4 4 15) := by
    decide
  have hr : aarch64.returnComposite (.plain 15 1 (.float32 3)) = .ok (.floatAggregate 4 4) := by
    decide
  exact ⟨hv, hp, hpass _ hp, hr, hreturn _ hr⟩

end Abi

end ForeignCall
