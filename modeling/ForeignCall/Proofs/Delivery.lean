import ForeignCall.Caller
import ForeignCall.Proofs.Marshal

/-! # Delivery on System V

From the description of a function to what its machine code finds in registers and on the stack,
and back from the result registers to memory.

The trampoline loads six general and eight float slots and captures four result registers.  Nothing
in it checks that this is enough.  It is because the caller was made for the trampoline's wiring:
the budgets of its ABI are the loaded slots, every place ends within its budget, and no result
needs more float registers than are captured.

* `ResultPlan.deliver_eq_ok` and `ResultPlan.deliver_congr` are about the way back: a result that has
  a destination is delivered, and read from the captured registers alone.
* `SystemV.getElem?_bank_arrival` says which slots a callee finds, and `SystemV.captures_capture`
  where the registers are that it leaves.
* `call_delivers` is the whole call. -/

namespace ForeignCall

/-! ### The way back -/

namespace ResultRegisters

/-- `rax`, `rdx`, `xmm0` and `xmm1` are the same. -/
structure AgreeCaptured (r r' : ResultRegisters) : Prop where
  general : r.general = r'.general
  xmm0 : r.float[0] = r'.float[0]
  xmm1 : r.float[1] = r'.float[1]

/-- The registers that a callee has left are in their places; the other two may hold anything. -/
structure Captures (r : ResultRegisters) (d : SystemV.Departure) : Prop where
  general : r.general = #v[d.rax, d.rdx]
  xmm0 : r.float[0] = d.xmm0
  xmm1 : r.float[1] = d.xmm1

variable {r r' : ResultRegisters} {d : SystemV.Departure}

theorem Captures.agree (h : r.Captures d) (h' : r'.Captures d) : r.AgreeCaptured r' where
  general := h.general.trans h'.general.symm
  xmm0 := h.xmm0.trans h'.xmm0.symm
  xmm1 := h.xmm1.trans h'.xmm1.symm

theorem AgreeCaptured.take_float (h : AgreeCaptured r r') {n : Nat} (hn : n ≤ 2) :
    r.float.toList.take n = r'.float.toList.take n := by
  apply List.ext_getElem?
  intro i
  rw [List.getElem?_take, List.getElem?_take]
  split
  · -- the two registers that may be read are the two that agree
    have hi : i = 0 ∨ i = 1 := by omega
    rcases hi with rfl | rfl
    · simp [h.xmm0]
    · simp [h.xmm1]
  · rfl

theorem consecutive_eq_ok {regs : List UInt64} {size : Nat} (h : size ≤ 8 * regs.length) :
    consecutive regs size = .ok (unpackWords 8 regs size) :=
  if_pos h

end ResultRegisters

namespace ResultPlan

variable {abi : Abi} {p : ResultPlan}

theorem bytes_eq_ok (hv : abi.Valid) (hb : p.Bounded abi) (r : ResultRegisters) :
    ∃ bytes, p.bytes r = .ok bytes := by
  obtain ⟨-, -, -, ⟨-, hfloat⟩, -⟩ := abi.valid_iff.mp hv
  obtain ⟨mechanism, size⟩ := p
  cases mechanism with
  | void | memory => exact ⟨_, rfl⟩
  | general =>
      have hsize : size.toNat ≤ 8 := hb
      exact ⟨_, ResultRegisters.consecutive_eq_ok (by simp; omega)⟩
  | generalPair =>
      have hsize : size.toNat ≤ 16 := hb
      exact ⟨_, ResultRegisters.consecutive_eq_ok (by simp; omega)⟩
  | float32 | float64 =>
      have hsize : size.toNat ≤ 8 := hb
      exact ⟨_, ResultRegisters.consecutive_eq_ok (by simp; omega)⟩
  | floatAggregate width registers =>
      obtain ⟨hw, hsize, hregisters⟩ := hb
      have hwidth : width = 4 ∨ width = 8 := by
        rcases hw with h | h
        · exact Or.inl (UInt8.toNat_inj.mp h)
        · exact Or.inr (UInt8.toNat_inj.mp h)
      exact ⟨_, if_pos ⟨hwidth, hsize, Nat.le_trans hregisters hfloat⟩⟩

theorem deliver_eq_ok (hv : abi.Valid) (hb : p.Bounded abi) {destination : UInt64}
    (hd : p.writesNothing = false → destination ≠ 0) (r : ResultRegisters) (m : Memory) :
    ∃ m', p.deliver r destination m = .ok m' := by
  unfold deliver
  by_cases hw : p.writesNothing = true
  · exact ⟨m, if_pos hw⟩
  · obtain ⟨bytes, hbytes⟩ := bytes_eq_ok hv hb r
    rw [if_neg hw, if_neg (hd (by simpa using hw)), hbytes]
    exact ⟨_, rfl⟩

/-- With two float return registers a result is read from the captured registers alone. -/
theorem bytes_congr (hb : p.Bounded abi) (hr : abi.floatReturnRegisters ≤ 2)
    {r r' : ResultRegisters} (h : r.AgreeCaptured r') : p.bytes r = p.bytes r' := by
  obtain ⟨mechanism, size⟩ := p
  cases mechanism with
  | void | memory => rfl
  | general | generalPair => simp only [bytes, h.general]
  | float32 | float64 => simp only [bytes, h.take_float (show 1 ≤ 2 by decide)]
  | floatAggregate width registers =>
      obtain ⟨-, -, hregisters⟩ := hb
      simp only [bytes, ResultRegisters.floatAggregate, h.take_float (Nat.le_trans hregisters hr)]

theorem deliver_congr (hb : p.Bounded abi) (hr : abi.floatReturnRegisters ≤ 2)
    {r r' : ResultRegisters} (h : r.AgreeCaptured r') (destination : UInt64) (m : Memory) :
    p.deliver r destination m = p.deliver r' destination m := by
  unfold deliver
  rw [bytes_congr hb hr h]

end ResultPlan

/-! ### The way in -/

/-- The block of a frame, without an address for the result. -/
def Frame.block (f : Frame) (target : UInt64) : Block where
  general := f.slots .general
  float := f.slots .float
  stack := f.used .stack
  target := target
  indirect := 0

/-- The block with the result address in a general slot, or in the indirect field without one. -/
def Block.withResult (b : Block) (slot : Option Nat) (result : UInt64) : Block :=
  match slot with
  | some slot => { b with general := fun i => if i = slot then result else b.general i }
  | none => { b with indirect := result }

/-- A block is made from every frame that keeps its stack and its result pointer in range. -/
theorem Block.ofEntry_eq {e : Entry} (hstack : e.frame.filled.stack ≤ stackCapacity)
    (hslot : e.variant = .hiddenPointer →
      ∀ slot, e.frame.returnSlot = some slot → slot < generalCapacity) :
    ofEntry e = .ok
      (if e.variant = .hiddenPointer then
        (e.frame.block e.target).withResult e.frame.returnSlot e.result
      else e.frame.block e.target) := by
  have hview : e.frame.view .stack = .ok (e.frame.used .stack) := if_pos hstack
  unfold ofEntry
  rw [hview]
  by_cases hvar : e.variant = .hiddenPointer
  · simp only [hvar, if_true]
    cases hr : e.frame.returnSlot with
    | none => rfl
    | some slot =>
        simp only [hslot hvar slot hr, if_true]
        rfl
  · simp only [hvar, if_false]
    rfl

theorem Block.ofEntry_eq_ok {e : Entry} (hstack : e.frame.filled.stack ≤ stackCapacity)
    (hslot : e.variant = .hiddenPointer → e.frame.returnSlot = some 0) :
    ofEntry e = .ok
      { general := fun i =>
          if e.variant = .hiddenPointer ∧ i = 0 then e.result else e.frame.slots .general i
        float := e.frame.slots .float
        stack := e.frame.used .stack
        target := e.target
        indirect := 0 } := by
  rw [ofEntry_eq hstack]
  · by_cases hvar : e.variant = .hiddenPointer
    · simp only [hvar, if_true, hslot hvar, true_and]
      rfl
    · simp only [hvar, if_false, false_and]
      rfl
  · intro hvar slot hr
    rw [hslot hvar] at hr
    cases hr
    decide

namespace SystemV

/-- What a callee finds for a bank. -/
def Arrival.bank (a : Arrival) : Bank → List UInt64
  | .general => a.general
  | .float => a.float
  | .stack => a.stack

theorem general_arrival (b : Block) : (arrival b).general = (List.range 6).map b.general := rfl

theorem float_arrival (b : Block) : (arrival b).float = (List.range 8).map b.float := rfl

/-- Every slot that a frame on the System V wiring uses is loaded. -/
theorem getElem?_bank_arrival {b : Block} {frame : Frame} {abi : Abi}
    (hw : Wiring.ofAbi abi = .systemV) (hfloat : b.float = frame.slots .float)
    (hstack : b.stack = frame.used .stack) (hin : frame.filled.Within abi) {k : Nat} {bank : Bank}
    (hk : k < frame.filled.used bank) :
    ((arrival b).bank bank)[k]? =
      some (if bank = .general then b.general k else frame.slots bank k) := by
  have hle := hin bank
  cases bank with
  | general =>
      have hsix : abi.budget .general = 6 := congrArg Wiring.generalRegisters hw
      simp only [Arrival.bank, general_arrival, List.getElem?_map]
      rw [List.getElem?_range (by omega)]
      rfl
  | float =>
      have height : abi.budget .float = 8 := congrArg Wiring.floatRegisters hw
      simp only [Arrival.bank, float_arrival, List.getElem?_map, hfloat]
      rw [List.getElem?_range (by omega)]
      rfl
  | stack =>
      simp only [Arrival.bank, arrival, hstack, Frame.used, List.getElem?_map]
      rw [List.getElem?_range hk]
      rfl

theorem captures_capture (d : Departure) : (capture d).Captures d := ⟨rfl, rfl, rfl⟩

theorem enter_eq_ok {callee : Arrival → Memory → Departure × Memory} {e : Entry} {b : Block}
    (h : Block.ofEntry e = .ok b) (m : Memory) :
    enter callee e m = .ok (capture (callee (arrival b) m).1, (callee (arrival b) m).2) := by
  unfold enter
  rw [h]
  rfl

end SystemV

/-! ### One call -/

namespace Plan

variable {p : Plan} {f : Callable} {abi : Abi}

theorem Planned.exists_virtualSlot_iff (hp : p.Planned f abi) :
    (∃ slot, p.target = .virtualSlot slot) ↔ p.convention.isVirtual = true := by
  have hmatch := hp.targetMatches
  unfold Callable.targetMatches at hmatch
  rw [← hp.target_eq, ← hp.convention_eq, beq_iff_eq] at hmatch
  rw [hmatch]
  cases p.target with
  | direct address => simp [Target.kind]
  | virtualSlot slot => simp [Target.kind]

/-- A target that matches its convention resolves: only virtual conventions look at the receiver,
and they have one. -/
theorem Planned.resolve_eq_ok (hp : p.Planned f abi) {args : Arguments} (ha : p.Accepts args)
    (m : Memory) : ∃ target, p.target.resolve args.object m = .ok target := by
  cases ht : p.target with
  | direct address => exact ⟨address, rfl⟩
  | virtualSlot slot =>
      have hvirtual := hp.exists_virtualSlot_iff.mp ⟨slot, ht⟩
      have hneeds : p.convention.needsObject = true := by
        cases hc : p.convention <;> simp [hc, Convention.isVirtual] at hvirtual ⊢ <;> rfl
      exact ⟨_, if_neg (ha.object hneeds)⟩

end Plan

namespace Caller

theorem make_eq_ok_iff {abi : Abi} {trace : Bool} {invoker : Invoker} {c : Caller} :
    make abi trace invoker = .ok c ↔
      abi.validate = .ok () ∧ invoker.arch = abi.arch ∧ Wiring.ofAbi abi = invoker.wiring ∧
        c = ⟨abi, trace, invoker⟩ := by
  rw [← Wiring.check_eq_ok_iff]
  simp only [make, bind_eq_ok, mapError_eq_ok]
  constructor
  · rintro ⟨_, hvalid, h⟩
    split at h
    · cases h
    · rename_i harch
      simp only [bind_eq_ok, mapError_eq_ok] at h
      obtain ⟨_, hcheck, h⟩ := h
      cases h
      exact ⟨hvalid, not_not.mp harch, hcheck, rfl⟩
  · rintro ⟨hvalid, harch, hcheck, rfl⟩
    refine ⟨(), hvalid, ?_⟩
    rw [if_neg (not_not.mpr harch)]
    simp only [bind_eq_ok, mapError_eq_ok]
    exact ⟨(), hcheck, rfl⟩

theorem call_eq {c : Caller} {p : Plan} {args : Arguments} {destination target : UInt64}
    {run : Behaviour} {m m₁ m₂ : Memory} {frame : Frame} {registers : ResultRegisters}
    (habi : p.abi = c.abi) (hmarshal : p.marshal args m = .ok frame)
    (htarget : p.target.resolve args.object m = .ok target)
    (hrun : run ⟨frame, target, p.result.variant, destination⟩ m = .ok (registers, m₁))
    (hdeliver : p.result.deliver registers destination m₁ = .ok m₂) :
    c.call p args destination run m =
      ⟨[⟨frame, target, p.result.variant, destination⟩], m₂,
        [Event.ofFrame p.convention frame,
          c.callEvent p ⟨frame, target, p.result.variant, destination⟩],
        .ok ()⟩ := by
  unfold call
  rw [if_neg (not_not.mpr habi), hmarshal]
  simp only [htarget, hrun, hdeliver]

end Caller

namespace Plan

variable {p : Plan} {f : Callable} {abi : Abi}

theorem variant_eq_hiddenPointer_iff (r : ResultPlan) :
    r.variant = .hiddenPointer ↔ r.mechanism = .memory := by
  obtain ⟨mechanism, size⟩ := r
  cases mechanism <;> simp [ResultPlan.variant]

theorem Planned.inMemory_iff (hp : p.Planned f abi) (hw : Wiring.ofAbi abi = .systemV) :
    p.result.mechanism = .memory ↔ p.hiddenPointerIsArgument = true := by
  have hfirst : abi.hiddenPointer = .firstArgument := congrArg Wiring.hiddenPointer hw
  rw [hp.hiddenPointerIsArgument_eq_true_iff, hfirst]
  exact (and_iff_left rfl).symm

theorem Planned.hiddenReturn_iff_of_covers (hv : abi.Valid) (hp : p.Planned f abi)
    (hh : p.hiddenPointerIsArgument = true) {x : Placement} (hx : x ∈ p.layout) {k : Nat}
    (hk : x.location.Covers .general k) : x.role = .hiddenReturn ↔ k = 0 := by
  obtain ⟨hbank, hfirst, hstop⟩ := hk
  constructor
  · intro hr
    rw [hp.location_hiddenReturn hv hx hr] at hstop
    exact Nat.lt_one_iff.mp hstop
  · intro h0
    obtain ⟨xs, hxs⟩ := hp.layout_of_hiddenPointer hv hh
    have hruns := hp.pairwise hv
    rw [hxs, List.pairwise_cons] at hruns
    rw [hxs] at hx
    rcases List.mem_cons.mp hx with rfl | hx
    · rfl
    · have hle : 1 ≤ x.location.first.toNat := hruns.1 x hx hbank.symm
      omega

/-- Behind the trampoline every slot of every place is in the register or stack word of its number,
and the result address is in place of the hidden pointer. -/
theorem Planned.exists_block (hv : abi.Valid) (hp : p.Planned f abi)
    (hw : Wiring.ofAbi abi = .systemV) {args : Arguments} {m : Memory} {frame : Frame}
    (h : p.Realizes args m frame) (target destination : UInt64) :
    ∃ b, Block.ofEntry ⟨frame, target, p.result.variant, destination⟩ = .ok b ∧
      ∀ x ∈ p.layout, ∀ bank k, x.location.Covers bank k →
        ((SystemV.arrival b).bank bank)[k]? =
          some (if x.role = .hiddenReturn then destination else frame.slots bank k) := by
  have hwithin := h.within
  rw [hp.abi_eq] at hwithin
  have hslot : p.result.variant = .hiddenPointer → frame.returnSlot = some 0 := by
    intro hvar
    rw [variant_eq_hiddenPointer_iff, hp.inMemory_iff hw] at hvar
    rw [hp.returnSlot_eq hv h, if_pos hvar]
  refine ⟨_, Block.ofEntry_eq_ok
    (Nat.le_trans (hwithin .stack) (abi.budget_le_capacity hv .stack)) hslot, ?_⟩
  intro x hx bank k hk
  have hused : k < frame.filled.used bank := by
    have hstop := h.stop_le x hx
    rw [hk.1] at hstop
    exact Nat.lt_of_lt_of_le hk.2.2 hstop
  rw [SystemV.getElem?_bank_arrival hw rfl rfl hwithin hused]
  congr 1
  -- only the first general slot is changed by the block, and only for a hidden pointer
  by_cases hbank : bank = .general
  · subst hbank
    have hrole : p.result.variant = .hiddenPointer ∧ k = 0 ↔ x.role = .hiddenReturn := by
      rw [variant_eq_hiddenPointer_iff, hp.inMemory_iff hw]
      constructor
      · rintro ⟨hh, h0⟩
        exact (hp.hiddenReturn_iff_of_covers hv hh hx hk).mpr h0
      · intro hr
        have hh := hp.hiddenReturn_mem_iff.mp ⟨x, hx, hr⟩
        exact ⟨hh, (hp.hiddenReturn_iff_of_covers hv hh hx hk).mp hr⟩
    rw [if_pos rfl]
    exact if_congr hrole rfl rfl
  · have hr : x.role ≠ .hiddenReturn := by
      intro hr
      rw [hp.location_hiddenReturn hv hx hr] at hk
      exact hbank hk.1.symm
    rw [if_neg hbank, if_neg hr]

end Plan

namespace Caller

/-- On System V a call of any plan that its caller prepared goes through, whatever code is called,
and enters it once.  The callee finds every slot of every place in the register or stack word of its
number, with the contents that belong there and the result address in place of the hidden pointer,
which is passed in `rdi` exactly for results in memory.  The result is then what the callee left in
`rax`, `rdx`, `xmm0` and `xmm1`: it is read from nothing but the registers that were captured, and
these hold just that. -/
theorem call_delivers {abi : Abi} {trace : Bool} {c : Caller} {f : Callable} {p : Plan}
    {args : Arguments} {destination : UInt64}
    (hc : make abi trace ⟨.x86_64, .systemV⟩ = .ok c) (hp : c.prepare f = .ok p)
    (ha : p.Accepts args) (hd : p.result.writesNothing = false → destination ≠ 0) (m : Memory) :
    ∃ e a, p.marshal args m = .ok e.frame ∧ p.target.resolve args.object m = .ok e.target ∧
      (∀ callee,
        (c.call p args destination (SystemV.enter callee) m).entries = [e] ∧
          (c.call p args destination (SystemV.enter callee) m).result = .ok () ∧
          p.result.deliver (SystemV.capture (callee a m).1) destination (callee a m).2 =
            .ok (c.call p args destination (SystemV.enter callee) m).memory ∧
          ∀ r : ResultRegisters, r.Captures (callee a m).1 →
            p.result.deliver r destination (callee a m).2 =
              .ok (c.call p args destination (SystemV.enter callee) m).memory) ∧
      (∀ departure, (SystemV.capture departure).Captures departure) ∧
      (∀ x ∈ p.layout, e.frame.read x.location = p.contents args m x) ∧
      (∀ x ∈ p.layout, ∀ bank k, x.location.Covers bank k →
        (a.bank bank)[k]? =
          some (if x.role = .hiddenReturn then destination else e.frame.slots bank k)) ∧
      ((∃ x ∈ p.layout, x.role = .hiddenReturn) ↔ p.result.mechanism = .memory) ∧
      (∀ x ∈ p.layout, x.role = .hiddenReturn →
        x.location = ⟨.general, 0, 1⟩ ∧ a.general[0]? = some destination) ∧
      ∀ r r' : ResultRegisters, r.AgreeCaptured r' → ∀ m,
        p.result.deliver r destination m = p.result.deliver r' destination m := by
  obtain ⟨hv, -, hw, rfl⟩ := make_eq_ok_iff.mp hc
  have hv := abi.validate_eq_ok_iff.mp hv
  have hp := Plan.make_eq_ok_iff.mp hp
  have hbounded := Abi.bounded_lowerResult hv hp.result
  have hreturn : abi.floatReturnRegisters = 2 := congrArg Wiring.floatReturnRegisters hw
  have hcaptured : ∀ r r' : ResultRegisters, r.AgreeCaptured r' → ∀ m,
      p.result.deliver r destination m = p.result.deliver r' destination m :=
    fun r r' hr m => ResultPlan.deliver_congr hbounded (Nat.le_of_eq hreturn) hr destination m
  obtain ⟨frame, hmarshal, hframe⟩ := hp.marshal_eq_ok hv ha m
  obtain ⟨target, htarget⟩ := hp.resolve_eq_ok ha m
  obtain ⟨b, hblock, hfound⟩ := hp.exists_block hv hw hframe target destination
  refine ⟨⟨frame, target, p.result.variant, destination⟩, SystemV.arrival b, hmarshal, htarget, ?_,
    SystemV.captures_capture, hframe.carries.reads, hfound, ?_, ?_, hcaptured⟩
  · intro callee
    obtain ⟨m', hm'⟩ := ResultPlan.deliver_eq_ok hv hbounded hd
      (SystemV.capture (callee (SystemV.arrival b) m).1) (callee (SystemV.arrival b) m).2
    have hcall := call_eq hp.abi_eq hmarshal htarget (SystemV.enter_eq_ok hblock m) hm'
    rw [hcall]
    refine ⟨rfl, rfl, hm', fun r hr => ?_⟩
    rw [hcaptured r _ (hr.agree (SystemV.captures_capture _))]
    exact hm'
  · rw [hp.hiddenReturn_mem_iff, hp.inMemory_iff hw]
  · intro x hx hr
    have hloc := hp.location_hiddenReturn hv hx hr
    have hcovers : x.location.Covers .general 0 := by
      rw [hloc]
      exact ⟨rfl, Nat.le_refl 0, Nat.one_pos⟩
    have hrdi := hfound x hx .general 0 hcovers
    rw [if_pos hr] at hrdi
    exact ⟨hloc, hrdi⟩

/-- The crowded method with three floats for a result. -/
def crowdedFloats : Callable :=
  { Callable.crowded with result := .value (.ofComposite (.plain 12 4 (.float32 3))) }

/-- Of the crowded method all slots are found, and its result is in memory.  Three floats come back
in `xmm0` and half of `xmm1`. -/
theorem call_delivers_crowded :
    ∃ c, make .systemV false ⟨.x86_64, .systemV⟩ = .ok c ∧
      (∃ p, c.prepare .crowded = .ok p ∧ p.Accepts .crowded ∧
        ∃ (e : Entry) (a : SystemV.Arrival), (∀ callee,
            (c.call p .crowded 0x9000 (SystemV.enter callee) .crowded).entries = [e] ∧
              (c.call p .crowded 0x9000 (SystemV.enter callee) .crowded).result = .ok () ∧
              (c.call p .crowded 0x9000 (SystemV.enter callee) .crowded).memory =
                (callee a .crowded).2) ∧
          ∀ x ∈ p.layout, ∀ bank k, x.location.Covers bank k →
            (a.bank bank)[k]? =
              some (if x.role = .hiddenReturn then 0x9000 else e.frame.slots bank k)) ∧
      ∃ p, c.prepare crowdedFloats = .ok p ∧ p.Accepts .crowded ∧
        ∃ (e : Entry) (a : SystemV.Arrival), ∀ callee,
          (c.call p .crowded 0x9000 (SystemV.enter callee) .crowded).entries = [e] ∧
            (c.call p .crowded 0x9000 (SystemV.enter callee) .crowded).result = .ok () ∧
            (c.call p .crowded 0x9000 (SystemV.enter callee) .crowded).memory =
              (callee a .crowded).2.store 0x9000
                (unpackWords 8 [(callee a .crowded).1.xmm0, (callee a .crowded).1.xmm1] 12) := by
  have hc : ∃ c, make .systemV false ⟨.x86_64, .systemV⟩ = .ok c ∧
      (∃ p, c.prepare .crowded = .ok p ∧ p.Accepts .crowded ∧ p.result = ⟨.memory, 40⟩) ∧
      ∃ p, c.prepare crowdedFloats = .ok p ∧ p.Accepts .crowded ∧
        p.result = ⟨.floatAggregate 8 2, 12⟩ :=
    ⟨_, rfl, ⟨_, rfl, by decide, rfl⟩, _, rfl, by decide, rfl⟩
  obtain ⟨c, hc, ⟨p, hp, ha, hresult⟩, q, hq, haq, hfloats⟩ := hc
  have hd : ∀ {r : ResultPlan}, r.writesNothing = false → (0x9000 : UInt64) ≠ 0 :=
    fun _ => by decide
  refine ⟨c, hc, ⟨p, hp, ha, ?_⟩, q, hq, haq, ?_⟩
  · obtain ⟨e, a, -, -, hcall, -, -, hfound, -⟩ :=
      call_delivers hc hp ha hd .crowded
    refine ⟨e, a, fun callee => ?_, hfound⟩
    obtain ⟨hentries, hok, -, hdeliver⟩ := hcall callee
    have hmemory := hdeliver (SystemV.capture (callee a .crowded).1) ⟨rfl, rfl, rfl⟩
    rw [hresult] at hmemory
    exact ⟨hentries, hok, (Except.ok.inj hmemory).symm⟩
  · obtain ⟨e, a, -, -, hcall, -⟩ :=
      call_delivers hc hq haq hd .crowded
    refine ⟨e, a, fun callee => ?_⟩
    obtain ⟨hentries, hok, -, hdeliver⟩ := hcall callee
    have hmemory := hdeliver (SystemV.capture (callee a .crowded).1) ⟨rfl, rfl, rfl⟩
    rw [hfloats] at hmemory
    exact ⟨hentries, hok, (Except.ok.inj hmemory).symm⟩

end Caller

end ForeignCall
