import ForeignCall.Proofs.Outcome

/-! # Accepted ABIs fit their trampoline

A trampoline is wired for fixed registers, and a caller is made only for an ABI that assigns exactly
those.  The comparison is made once, on five numbers and names; the fields that it leaves open
(stack slots, aggregate limit, closing, alignment, passing by address) may be anything valid.  That
is enough for every plan: places end within the budgets, which are the wired registers, and a float
aggregate takes its width from the packing alone (`Abi.floatAggregate_eq_ok`).

`prepared_fits_wiring` is the whole statement, for the making of a caller and for what it
prepares. -/

namespace ForeignCall

theorem Wiring.ofAbi_eq_iff {abi : Abi} {w : Wiring} : ofAbi abi = w ↔
    abi.generalRegisters = w.generalRegisters ∧ abi.floatRegisters = w.floatRegisters ∧
      abi.floatReturnRegisters = w.floatReturnRegisters ∧ abi.packing = w.packing ∧
      abi.hiddenPointer = w.hiddenPointer := by
  obtain ⟨g, f, r, p, h⟩ := w
  simp only [ofAbi, Wiring.mk.injEq]

/-! ### Float aggregates that come back -/

namespace Abi

variable {abi : Abi}

theorem floatMembers_of_laneOf {c : Composite} {lane : Nat} (h : abi.laneOf c = some lane)
    (hp : abi.packing = .perMember) : ∃ count, c.floatMembers = some (lane, count) := by
  unfold laneOf at h
  cases ht : c.trivial with
  | false => simp [ht] at h
  | true =>
      cases hm : c.floatMembers with
      | none => simp [ht, hm] at h
      | some m =>
          obtain ⟨width, count⟩ := m
          simp only [ht, hm, hp, Option.ite_none_right_eq_some, Option.some.injEq] at h
          exact ⟨count, by rw [h.2]⟩

theorem laneOf_of_returnComposite (hv : abi.Valid) {c : Composite} {width registers : UInt8}
    (h : abi.returnComposite c = .ok (.floatAggregate width registers)) :
    abi.laneOf c = some width.toNat := by
  cases (returns_of_returnComposite h).2 with
  | @floats lane _ hlane =>
      rw [lane?_eq_ok hv] at hlane
      have hl := Except.ok.inj hlane
      rw [toNat_ofNat_lane (laneOf_eq_some hl).1]
      exact hl

theorem floatAggregate_eq_ok (hv : abi.Valid) {r : ResultType} {width registers : UInt8}
    (h : abi.mechanism r = .ok (.floatAggregate width registers)) :
    ∃ c, r = .value (.ofComposite c) ∧ abi.laneOf c = some width.toNat := by
  cases r with
  | void => cases h
  | value t =>
      obtain ⟨kind, byRef⟩ := t
      cases byRef with
      | true => cases h
      | false =>
          cases kind with
          | scalar s => cases s <;> cases h
          | handle => cases h
          | composite c => exact ⟨c, rfl, laneOf_of_returnComposite hv h⟩

end Abi

/-! ### Plans of a caller -/

namespace Plan

variable {p : Plan} {f : Callable} {abi : Abi}

theorem Planned.mechanism (hp : p.Planned f abi) :
    abi.mechanism f.result = .ok p.result.mechanism :=
  (Abi.lowerResult_eq_ok_iff.mp hp.result).1

theorem Planned.stop_le (hv : abi.Valid) (hp : p.Planned f abi) {x : Placement}
    (hx : x ∈ p.layout) {b : Bank} (hb : x.location.bank = b) :
    x.location.first.toNat < abi.budget b ∧ x.location.stop ≤ abi.budget b := by
  have hstop := (hp.proper hv x hx).stop_le
  have hpos := hp.count_pos hv x hx
  rw [hp.abi_eq, hb] at hstop
  refine ⟨?_, hstop⟩
  unfold Location.stop at hstop
  omega

theorem Planned.hiddenPointerIsArgument_iff (hp : p.Planned f abi)
    (hm : p.result.mechanism = .memory) :
    p.hiddenPointerIsArgument = true ↔ abi.hiddenPointer = .firstArgument := by
  rw [hp.hiddenPointerIsArgument_eq_true_iff]
  exact and_iff_right hm

theorem Planned.exists_hiddenReturn_iff (hv : abi.Valid) (hp : p.Planned f abi)
    (hm : p.result.mechanism = .memory) :
    (∃ x ∈ p.layout, x.role = .hiddenReturn ∧ x.location = ⟨.general, 0, 1⟩) ↔
      abi.hiddenPointer = .firstArgument := by
  rw [← hp.hiddenPointerIsArgument_iff hm, ← hp.hiddenReturn_mem_iff]
  constructor
  · rintro ⟨x, hx, hr, -⟩
    exact ⟨x, hx, hr⟩
  · rintro ⟨x, hx, hr⟩
    exact ⟨x, hx, hr, hp.location_hiddenReturn hv hx hr⟩

end Plan

namespace Caller

theorem exists_make_iff {abi : Abi} {trace : Bool} {invoker : Invoker} :
    (∃ c, make abi trace invoker = .ok c) ↔
      abi.validate = .ok () ∧ invoker.arch = abi.arch ∧ Wiring.ofAbi abi = invoker.wiring := by
  constructor
  · rintro ⟨c, hc⟩
    obtain ⟨hvalid, harch, hwiring, -⟩ := make_eq_ok_iff.mp hc
    exact ⟨hvalid, harch, hwiring⟩
  · rintro ⟨hvalid, harch, hwiring⟩
    exact ⟨_, make_eq_ok_iff.mpr ⟨hvalid, harch, hwiring, rfl⟩⟩

/-- A caller is made exactly for a valid ABI of the invoker's architecture that agrees with its
wiring in all five fields.  Whatever it prepares then stays within the wired registers: arguments by
their places, float aggregates that come back by their number and width, and the address for a
result in memory by the slot that the wiring expects it in. -/
theorem prepared_fits_wiring (abi : Abi) (trace : Bool) (invoker : Invoker) :
    ((∃ c, make abi trace invoker = .ok c) ↔
      abi.validate = .ok () ∧ invoker.arch = abi.arch ∧
        abi.generalRegisters = invoker.wiring.generalRegisters ∧
        abi.floatRegisters = invoker.wiring.floatRegisters ∧
        abi.floatReturnRegisters = invoker.wiring.floatReturnRegisters ∧
        abi.packing = invoker.wiring.packing ∧
        abi.hiddenPointer = invoker.wiring.hiddenPointer) ∧
      ∀ c f p, make abi trace invoker = .ok c → c.prepare f = .ok p →
        (∀ x ∈ p.layout, x.location.bank = .general →
          x.location.first.toNat < invoker.wiring.generalRegisters ∧
            x.location.stop ≤ invoker.wiring.generalRegisters) ∧
          (∀ x ∈ p.layout, x.location.bank = .float →
            x.location.first.toNat < invoker.wiring.floatRegisters ∧
              x.location.stop ≤ invoker.wiring.floatRegisters) ∧
          (∀ width registers, p.result.mechanism = .floatAggregate width registers →
            registers.toNat ≤ invoker.wiring.floatReturnRegisters ∧
              (invoker.wiring.packing = .eightbyte → width.toNat = 8) ∧
              (invoker.wiring.packing = .perMember → ∃ composite count,
                f.result = .value (.ofComposite composite) ∧
                  composite.floatMembers = some (width.toNat, count))) ∧
          (p.result.mechanism = .memory →
            ((∃ x ∈ p.layout, x.role = .hiddenReturn ∧ x.location = ⟨.general, 0, 1⟩) ↔
              invoker.wiring.hiddenPointer = .firstArgument) ∧
            ∀ args m frame, p.marshal args m = .ok frame →
              frame.returnSlot =
                if invoker.wiring.hiddenPointer = .firstArgument then some 0 else none) := by
  rw [← Wiring.ofAbi_eq_iff]
  refine ⟨exists_make_iff, ?_⟩
  intro c f p hc hp
  obtain ⟨hvalid, -, hwiring, rfl⟩ := make_eq_ok_iff.mp hc
  have hv := abi.validate_eq_ok_iff.mp hvalid
  have hp := Plan.make_eq_ok_iff.mp hp
  obtain ⟨hgeneral, hfloat, hreturn, hpacking, hpointer⟩ := Wiring.ofAbi_eq_iff.mp hwiring
  rw [← hgeneral, ← hfloat, ← hreturn, ← hpacking, ← hpointer]
  refine ⟨fun x hx => hp.stop_le hv hx, fun x hx => hp.stop_le hv hx, ?_, ?_⟩
  · intro width registers hm
    have hbounded := Abi.bounded_lowerResult hv hp.result
    unfold ResultPlan.Bounded at hbounded
    rw [hm] at hbounded
    have hmechanism := hp.mechanism
    rw [hm] at hmechanism
    obtain ⟨composite, hresult, hlane⟩ := Abi.floatAggregate_eq_ok hv hmechanism
    refine ⟨hbounded.2.2, (Abi.laneOf_eq_some hlane).2.2, ?_⟩
    intro hper
    obtain ⟨count, hmembers⟩ := Abi.floatMembers_of_laneOf hlane hper
    exact ⟨composite, count, hresult, hmembers⟩
  · intro hm
    refine ⟨hp.exists_hiddenReturn_iff hv hm, ?_⟩
    intro args m frame hmarshal
    obtain ⟨-, hframe⟩ := hp.realizes_of_marshal hv hmarshal
    rw [hp.returnSlot_eq hv hframe]
    exact if_congr (hp.hiddenPointerIsArgument_iff hm) rfl rfl

theorem prepared_fits_wiring_crowded :
    ∃ c, make .systemV false (.preset .x86_64) = .ok c ∧
      ∃ p, c.prepare .crowded = .ok p ∧
        (∀ x ∈ p.layout, x.location.bank = .general → x.location.stop ≤ 6) ∧
        ∃ x ∈ p.layout, x.role = .hiddenReturn ∧ x.location = ⟨.general, 0, 1⟩ := by
  have hc : ∃ c, make .systemV false (.preset .x86_64) = .ok c ∧
      ∃ p, c.prepare .crowded = .ok p ∧ p.result.mechanism = .memory := ⟨_, rfl, _, rfl, rfl⟩
  obtain ⟨c, hc, p, hp, hm⟩ := hc
  obtain ⟨-, hfits⟩ := prepared_fits_wiring .systemV false (.preset .x86_64)
  obtain ⟨hgeneral, -, -, hmemory⟩ := hfits c .crowded p hc hp
  exact ⟨c, hc, p, hp, fun x hx hb => (hgeneral x hx hb).2, (hmemory hm).1.mpr rfl⟩

end Caller

end ForeignCall
