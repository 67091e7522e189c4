import ForeignCall.Proofs.Outcome

/-! # The address for a result in memory

A result in memory has its address passed along with the call.  Four stages decide where, each from
what it has at hand, and none of them looks at what another one decided:

* the result plan asks the trampoline for its hidden-pointer variant;
* the layout keeps a place for the pointer, if the ABI passes it as an argument;
* filling a frame notes the slot of that place, and would note nothing if the place were not in
  general registers;
* the block puts the address into the noted slot, or into the indirect field if none is noted.

They agree because the hidden pointer is routed ahead of everything else and a valid ABI has a
general register (`Planned.layout_of_hiddenPointer`).  So the place is always the first general slot,
whatever is returned and however the function is called.  `Planned.ofEntry_eq` says what block comes
out, and `result_address_consistent` puts the stages together. -/

namespace ForeignCall

namespace Plan

variable {p : Plan} {f : Callable} {abi : Abi}

/-! ### The layout -/

theorem Planned.layout_of_receiverFirst (hv : abi.Valid) (hp : p.Planned f abi)
    (hh : p.hiddenPointerIsArgument = true) (hr : p.convention.receiverFirst = true) :
    ∃ xs, p.layout = ⟨.hiddenReturn, ⟨.general, 0, 1⟩⟩ ::
      ⟨.object, if 2 ≤ abi.generalRegisters then ⟨.general, 1, 1⟩ else ⟨.stack, 0, 1⟩⟩ :: xs := by
  obtain ⟨hg, -⟩ := abi.valid_iff.mp hv
  obtain ⟨c, hs⟩ := hp.seated
  obtain ⟨ps, hps⟩ : ∃ ps, p.passengers = .hiddenReturn :: .object :: ps := by
    simp [Lowering.passengers, hh, hr]
  have hfirst : abi.assign .start (.general 1 false) = (⟨.general, 0, 1⟩, ⟨1, 0, 0⟩) := by
    simp [Abi.assign, Cursor.start, hg.1, Location.ofNat]
  have hsecond : (abi.assign ⟨1, 0, 0⟩ (.general 1 false)).1 =
      if 2 ≤ abi.generalRegisters then ⟨.general, 1, 1⟩ else ⟨.stack, 0, 1⟩ := by
    by_cases h2 : 2 ≤ abi.generalRegisters
    · simp [Abi.assign, h2, Location.ofNat]
    · simp [Abi.assign, h2, Location.ofNat, Cursor.onStack]
  rw [hps, hp.abi_eq] at hs
  generalize p.layout = layout at hs
  cases hs with
  | cons _ hs =>
      simp only [Passenger.demand, hfirst] at hs ⊢
      cases hs with
      | @cons _ _ _ _ xs _ _ =>
          simp only [Passenger.demand, hsecond]
          exact ⟨xs, rfl⟩

/-! ### The block -/

/-- The variant asks for the address exactly where memory is the way of the result; the noted slot is
where an argument carries it. -/
theorem Planned.ofEntry_eq (hv : abi.Valid) (hp : p.Planned f abi) {args : Arguments} {m : Memory}
    {frame : Frame} (h : p.Realizes args m frame) (target result : UInt64) :
    Block.ofEntry ⟨frame, target, p.result.variant, result⟩ =
      .ok (if p.result.mechanism = .memory then
          match abi.hiddenPointer with
          | .firstArgument => (frame.block target).withResult (some 0) result
          | .register => (frame.block target).withResult none result
        else frame.block target) := by
  have hslot := hp.returnSlot_eq hv h
  rw [Block.ofEntry_eq (h.stack_le hv hp) fun _ _ => h.returnSlot_lt hv hp]
  simp only [variant_eq_hiddenPointer_iff]
  by_cases hm : p.result.mechanism = .memory
  · rw [if_pos hm, if_pos hm, hslot]
    cases hpointer : abi.hiddenPointer with
    | firstArgument =>
        rw [if_pos (hp.hiddenPointerIsArgument_eq_true_iff.mpr ⟨hm, hpointer⟩)]
    | register =>
        have hnot : ¬ p.hiddenPointerIsArgument = true := by
          rw [hp.hiddenPointerIsArgument_eq_true_iff, hpointer]
          simp
        rw [if_neg hnot]
  · rw [if_neg hm, if_neg hm]

/-- The stages agree on the address for a result.  The variant asks for it exactly if the result comes
back through memory.  It is an argument exactly if the ABI wants it there in addition, and then it
stands first in the layout, in the first general slot, with a receiver right behind it.  Every
marshaled frame notes that slot in exactly this case and no slot otherwise.  The block shows the
address in the noted slot and nowhere else, or in the indirect field and nowhere else; everything
else in it is the frame's, and a variant that does not ask for the address never gets it. -/
theorem result_address_consistent (hv : abi.validate = .ok ()) (hp : make f abi = .ok p) :
    (p.result.variant = .hiddenPointer ↔ p.result.mechanism = .memory) ∧
      ((∃ x ∈ p.layout, x.role = .hiddenReturn) ↔
        p.result.mechanism = .memory ∧ abi.hiddenPointer = .firstArgument) ∧
      (p.result.mechanism = .memory ∧ abi.hiddenPointer = .firstArgument →
        ∃ xs, p.layout = ⟨.hiddenReturn, ⟨.general, 0, 1⟩⟩ :: xs ∧
          (p.convention.receiverFirst = true → ∃ ys, xs =
            ⟨.object,
              if 2 ≤ abi.generalRegisters then ⟨.general, 1, 1⟩ else ⟨.stack, 0, 1⟩⟩ :: ys)) ∧
      ∀ args m frame, p.marshal args m = .ok frame →
        frame.returnSlot =
            (if p.result.mechanism = .memory ∧ abi.hiddenPointer = .firstArgument then some 0
            else none) ∧
          ∀ target result,
            Block.ofEntry ⟨frame, target, p.result.variant, result⟩ =
                .ok (if p.result.mechanism = .memory then
                    match abi.hiddenPointer with
                    | .firstArgument => (frame.block target).withResult (some 0) result
                    | .register => (frame.block target).withResult none result
                  else frame.block target) ∧
              ∀ variant, variant ≠ .hiddenPointer →
                Block.ofEntry ⟨frame, target, variant, result⟩ = .ok (frame.block target) := by
  have hv := abi.validate_eq_ok_iff.mp hv
  have hp := make_eq_ok_iff.mp hp
  have hargument := hp.hiddenPointerIsArgument_eq_true_iff
  refine ⟨variant_eq_hiddenPointer_iff p.result, ?_, ?_, ?_⟩
  · rw [hp.hiddenReturn_mem_iff, hargument]
  · intro h
    have hh := hargument.mpr h
    obtain ⟨xs, hxs⟩ := hp.layout_of_hiddenPointer hv hh
    refine ⟨xs, hxs, ?_⟩
    intro hr
    obtain ⟨ys, hys⟩ := hp.layout_of_receiverFirst hv hh hr
    rw [hxs, List.cons.injEq] at hys
    exact ⟨ys, hys.2⟩
  · intro args m frame hmarshal
    obtain ⟨-, hframe⟩ := hp.realizes_of_marshal hv hmarshal
    refine ⟨?_, ?_⟩
    · rw [hp.returnSlot_eq hv hframe]
      exact if_congr hargument rfl rfl
    · intro target result
      refine ⟨hp.ofEntry_eq hv hframe target result, ?_⟩
      intro variant hvariant
      rw [Block.ofEntry_eq (hframe.stack_le hv hp) fun h => absurd h hvariant, if_neg hvariant]

/-- The crowded method returns through memory.  On System V its result address is in the first general
slot, which the trampoline loads into `rdi`. -/
theorem result_address_consistent_crowded : Abi.systemV.validate = .ok () ∧
    ∃ p, make .crowded .systemV = .ok p ∧ p.result.variant = .hiddenPointer ∧
      ∃ frame, p.marshal .crowded .crowded = .ok frame ∧ frame.returnSlot = some 0 ∧
        ∀ target result,
          Block.ofEntry ⟨frame, target, .hiddenPointer, result⟩ =
            .ok ((frame.block target).withResult (some 0) result) := by
  have hp : ∃ p, make .crowded .systemV = .ok p ∧ p.result.mechanism = .memory ∧
      ∃ frame, p.marshal .crowded .crowded = .ok frame := ⟨_, rfl, rfl, _, rfl⟩
  obtain ⟨p, hp, hm, frame, hmarshal⟩ := hp
  obtain ⟨hvariant, -, -, hframe⟩ := result_address_consistent rfl hp
  obtain ⟨hslot, hblock⟩ := hframe .crowded .crowded frame hmarshal
  rw [if_pos ⟨hm, rfl⟩] at hslot
  refine ⟨rfl, p, hp, hvariant.mpr hm, frame, hmarshal, hslot, ?_⟩
  intro target result
  obtain ⟨hentry, -⟩ := hblock target result
  rw [hvariant.mpr hm, if_pos hm] at hentry
  exact hentry

end Plan

end ForeignCall
