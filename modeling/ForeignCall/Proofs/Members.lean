import ForeignCall.Proofs.Agreement
import ForeignCall.Proofs.Alignment

/-! # Float aggregates, one member to a register

An ABI that packs by members decides on the number of members whether a composite is a float
aggregate, and computes from the number of bytes how many registers it takes.  The two numbers are
the same if the members make up the whole composite.  Padding behind the last member, which a large
alignment leaves there, counts as further members (`unitsFor_eq_iff`): the aggregate takes registers
that none of its members is in, there and back.

The next value in a float register starts right behind the registers of the aggregate
(`Planned.first_eq_stop`), so with padding it is not behind the last member.

`registers_eq_members_iff` is the whole statement; `three_floats_take_four_registers` is an aggregate
with padding, and the float that it moves. -/

namespace ForeignCall

/-! ### Rounding up -/

/-- So many units that fit in whole are counted. -/
theorem le_unitsFor {size unit n : Nat} (hu : 0 < unit) (h : unit * n ≤ size) :
    n ≤ unitsFor size unit := by
  have hle : unit * n ≤ unit * unitsFor size unit := Nat.le_trans h (le_mul_unitsFor hu)
  exact Nat.le_of_mul_le_mul_left hle hu

/-- Nothing else is counted only if nothing is left over. -/
theorem unitsFor_eq_iff {size unit n : Nat} (hu : 0 < unit) (h : unit * n ≤ size) :
    unitsFor size unit = n ↔ size = unit * n := by
  have hge := le_unitsFor hu h
  constructor
  · intro he
    have hle : size ≤ unit * n := (unitsFor_le_iff hu).mp (Nat.le_of_eq he)
    exact Nat.le_antisymm hle h
  · intro he
    have hle : unitsFor size unit ≤ n := (unitsFor_le_iff hu).mpr (Nat.le_of_eq he)
    exact Nat.le_antisymm hle hge

/-! ### Both analyses -/

namespace Abi

/-- A float aggregate of an ABI that packs by members, with room for all of its members. -/
structure Spreads (abi : Abi) (c : Composite) (width count : Nat) : Prop where
  packing : abi.packing = .perMember
  members : c.floatMembers = some (width, count)
  aggregate : abi.isFloatAggregate c = .ok true
  fits : width * count ≤ c.size.toNat

namespace Spreads

variable {abi : Abi} {c : Composite} {width count : Nat}

theorem lane? (h : abi.Spreads c width count) : abi.lane? c = .ok (some width) := by
  simp [Abi.lane?, h.aggregate, h.packing, h.members]

theorem trivial (h : abi.Spreads c width count) : c.trivial = true := by
  have ha := h.aggregate
  unfold isFloatAggregate at ha
  cases ht : c.trivial with
  | true => rfl
  | false => simp [ht] at ha

theorem count_pos (h : abi.Spreads c width count) : 0 < count := by
  have ha := h.aggregate
  unfold isFloatAggregate at ha
  simp only [h.trivial, h.members] at ha
  by_contra h0
  rw [if_pos (Nat.eq_zero_of_not_pos h0)] at ha
  cases ha

theorem width_pos (h : abi.Spreads c width count) : 0 < width := by
  have hw := floatMembers_width h.members
  omega

theorem objection?_eq (h : abi.Spreads c width count) :
    c.objection? = if isPowerOfTwo c.align then none else some .alignment := by
  have hsize : c.size ≠ 0 := by
    intro h0
    have hfits := h.fits
    rw [h0] at hfits
    exact absurd (Nat.mul_pos h.width_pos h.count_pos) (Nat.not_lt.mpr hfits)
  unfold Composite.objection?
  rw [if_neg hsize]

/-- The registers of the two analyses, which lose nothing by being bytes. -/
theorem toNat_lane (h : abi.Spreads c width count) (hv : abi.Valid) :
    (UInt8.ofNat width).toNat = width ∧ (laneCount c width).toNat = unitsFor c.size.toNat width := by
  have hl := h.lane?
  rw [lane?_eq_ok hv] at hl
  have hwidth := toNat_ofNat_lane (floatMembers_width h.members)
  obtain ⟨-, hcount, -⟩ := lane_bounds hv (Except.ok.inj hl)
  rw [hwidth] at hcount
  exact ⟨hwidth, hcount⟩

theorem passComposite_eq (h : abi.Spreads c width count) (ha : isPowerOfTwo c.align = true) :
    abi.passComposite c =
      .ok (.floatMembers (laneCount c width) (UInt8.ofNat width) c.size) := by
  unfold passComposite
  rw [h.objection?_eq, if_pos ha]
  simp [h.trivial, h.lane?]

theorem returnComposite_eq (h : abi.Spreads c width count) (ha : isPowerOfTwo c.align = true) :
    abi.returnComposite c = .ok (.floatAggregate (UInt8.ofNat width) (laneCount c width)) := by
  unfold returnComposite
  rw [h.objection?_eq, if_pos ha]
  simp [h.trivial, h.lane?]

end Spreads

end Abi

/-! ### Neighbours in the float registers -/

theorem lastStop_of_forall_ne {b : Bank} {x : Placement} (hx : x.location.bank = b)
    (xs : List Placement) {ys : List Placement} (h : ∀ y ∈ ys, y.location.bank ≠ b) :
    lastStop b (xs ++ x :: ys) = x.location.stop := by
  induction ys using List.reverseRecOn with
  | nil => rw [lastStop_concat, if_pos hx]
  | append_singleton ys y ih =>
      have hy : y.location.bank ≠ b := h y (by simp)
      have hys : ∀ z ∈ ys, z.location.bank ≠ b := fun z hz => h z (by simp [hz])
      rw [← List.cons_append, ← List.append_assoc, lastStop_concat, if_neg hy, ih hys]

theorem Lowering.startAfter_of_float {l : Lowering} {r : Role} (h : (l.passOf r).bank = .float)
    (n : Nat) : l.startAfter r n = n := by
  unfold startAfter
  cases hp : l.passOf r with
  | general scalar | address | inlineWords words size align16 | stackImage words size align16 =>
      rw [hp] at h
      cases h
  | float32 | float64 | floatMembers count width size => rfl

namespace Plan

variable {p : Plan} {f : Callable} {abi : Abi} {xs ys zs : List Placement} {x y : Placement}

theorem Planned.first_eq_stop (hv : abi.Valid) (hp : p.Planned f abi)
    (hsplit : p.layout = xs ++ x :: (ys ++ y :: zs)) (hx : x.location.bank = .float)
    (hy : y.location.bank = .float) (hys : ∀ z ∈ ys, z.location.bank ≠ .float) :
    y.location.first.toNat = x.location.stop := by
  have hsplit' : p.layout = (xs ++ x :: ys) ++ y :: zs := by
    rw [hsplit, List.append_assoc, List.cons_append]
  have hbank : (p.passOf y.role).bank = .float := by
    rw [← hp.bank_eq_of_ne_stack hv (by simp [hsplit']) (by simp [hy]), hy]
  have hfirst := hp.first_eq hv hsplit' (by simp [hbank]) (hy.trans hbank.symm)
  rw [p.startAfter_of_float hbank, hbank, lastStop_of_forall_ne hx xs hys] at hfirst
  exact hfirst

/-- A float aggregate of an ABI that packs by members takes as many registers as its bytes fill, at
the width of a member, as a parameter and as a result.  These are never fewer than its members, and
they are as many exactly if it ends with its last member.  So the next value in a float register is
right behind the last member in that case and in no other one.  An aggregate whose alignment is not
a power of two is refused both ways. -/
theorem registers_eq_members_iff (hv : abi.validate = .ok ()) {c : Composite} {width count : Nat}
    (h : abi.Spreads c width count) :
    (isPowerOfTwo c.align = false →
        abi.passComposite c = .error (.objection .alignment) ∧
          abi.returnComposite c = .error (.objection .alignment)) ∧
      (isPowerOfTwo c.align = true → ∃ registers lane : UInt8,
        abi.passComposite c = .ok (.floatMembers registers lane c.size) ∧
          abi.returnComposite c = .ok (.floatAggregate lane registers) ∧
          lane.toNat = width ∧ registers.toNat = unitsFor c.size.toNat width ∧
          count ≤ registers.toNat ∧
          (registers.toNat = count ↔ c.size.toNat = width * count)) ∧
      ∀ {f p k xs x ys y zs}, make f abi = .ok p → f.params[k]? = some (.ofComposite c) →
        p.layout = xs ++ x :: (ys ++ y :: zs) → x.role = .param k →
        x.location.bank = .float → y.location.bank = .float →
        (∀ z ∈ ys, z.location.bank ≠ .float) →
        y.location.first.toNat = x.location.first.toNat + unitsFor c.size.toNat width ∧
          (y.location.first.toNat = x.location.first.toNat + count ↔
            c.size.toNat = width * count) := by
  have hv := abi.validate_eq_ok_iff.mp hv
  obtain ⟨hwidth, hregisters⟩ := h.toNat_lane hv
  have hle := le_unitsFor h.width_pos h.fits
  have hiff := unitsFor_eq_iff h.width_pos h.fits
  refine ⟨?_, ?_, ?_⟩
  · intro halign
    have ho := h.objection?_eq
    rw [halign] at ho
    exact abi.composite_eq_error_of_objection ho
  · intro halign
    refine ⟨_, _, h.passComposite_eq halign, h.returnComposite_eq halign, hwidth, hregisters, ?_⟩
    rw [hregisters]
    exact ⟨hle, hiff⟩
  · intro f p k xs x ys y zs hp hk hsplit hrole hx hy hys
    have hp := make_eq_ok_iff.mp hp
    have hpass := hp.passComposite_eq_ok hk
    have halign : isPowerOfTwo c.align = true := by
      by_contra halign
      have ho := h.objection?_eq
      rw [if_neg halign] at ho
      rw [(abi.composite_eq_error_of_objection ho).1] at hpass
      cases hpass
    have hcount := (hp.proper hv x (by simp [hsplit])).count
    rw [h.passComposite_eq halign] at hpass
    rw [hrole, ← Except.ok.inj hpass, hx, Pass.slots, hregisters] at hcount
    have hfirst : y.location.first.toNat =
        x.location.first.toNat + unitsFor c.size.toNat width := by
      rw [hp.first_eq_stop hv hsplit hx hy hys, Location.stop, hcount]
    refine ⟨hfirst, ?_⟩
    rw [hfirst, ← hiff]
    omega

/-- Four doubles fill four registers, and the next four follow them. -/
theorem registers_eq_members_iff_spilling : Abi.aarch64.validate = .ok () ∧
    Abi.aarch64.Spreads (.plain 32 8 (.float64 4)) 8 4 ∧
    ∃ p xs x ys y zs, make .spilling .aarch64 = .ok p ∧
      p.layout = xs ++ x :: (ys ++ y :: zs) ∧ x.role = .param 0 ∧ y.role = .param 1 ∧
      y.location.first.toNat = x.location.first.toNat + 4 := by
  have h : Abi.aarch64.Spreads (.plain 32 8 (.float64 4)) 8 4 := ⟨rfl, rfl, rfl, by decide⟩
  have hp : ∃ p x y zs, make .spilling .aarch64 = .ok p ∧ x.role = .param 0 ∧
      y.role = .param 1 ∧ x.location.bank = .float ∧ y.location.bank = .float ∧
      p.layout = [] ++ x :: ([] ++ y :: zs) :=
    ⟨_, _, _, _, rfl, rfl, rfl, rfl, rfl, rfl⟩
  obtain ⟨p, x, y, zs, hp, hx, hy, hxb, hyb, hsplit⟩ := hp
  obtain ⟨-, -, hnext⟩ := registers_eq_members_iff rfl h
  obtain ⟨-, hiff⟩ := hnext (k := 0) hp rfl hsplit hx hxb hyb nofun
  exact ⟨rfl, h, p, [], x, [], y, zs, hp, hsplit, hx, hy, hiff.mpr (by decide)⟩

end Plan

/-- Three floats with an alignment of 16 bytes, and another float. -/
def Callable.padded : Callable where
  target := .direct 0x1000
  convention := .cdecl
  params := [.ofComposite (.plain 16 16 (.float32 3)), .ofScalar .f32]
  result := .void

/-- On AArch64 the padding of three floats is passed and returned in a fourth register, and a float
behind them is in the fifth one. -/
theorem Plan.three_floats_take_four_registers : Abi.aarch64.validate = .ok () ∧
    Abi.aarch64.Spreads (.plain 16 16 (.float32 3)) 4 3 ∧
    Abi.aarch64.passComposite (.plain 16 16 (.float32 3)) = .ok (.floatMembers 4 4 16) ∧
    Abi.aarch64.returnComposite (.plain 16 16 (.float32 3)) = .ok (.floatAggregate 4 4) ∧
    ∃ p, make .padded .aarch64 = .ok p ∧
      p.layout = [⟨.param 0, ⟨.float, 0, 4⟩⟩, ⟨.param 1, ⟨.float, 4, 1⟩⟩] :=
  ⟨rfl, ⟨rfl, rfl, rfl, by decide⟩, by decide, by decide, _, rfl, rfl⟩

end ForeignCall
