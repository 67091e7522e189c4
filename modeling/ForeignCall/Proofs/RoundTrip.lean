import ForeignCall.Proofs.Agreement
import ForeignCall.Proofs.Alignment
import ForeignCall.Proofs.Result

/-! # Objects that are passed and returned

A callee that gets an object in registers may hand it back in the same registers: the words that it
found, in order, in the first result registers of the class.  Filling the registers and emptying
them again are two pieces of code that share nothing, and still the object is the same byte by byte.

* `unpackWords_packWords` is the inverse, for every unit and for registers that are partly used.
* `Pass.unit` is the number of bytes that an object has in each of its registers.  The numbers of a
  pass leave room for the object (`Pass.Bounded`), and a composite comes back the way it went
  (`corresponds_of_eq_ok`), so the same unit and the same registers are used both ways.
* `Plan.Planned.read_eq_packWords` says what a frame has in the registers of an object.

`object_round_trip` puts these together. -/

namespace ForeignCall

/-! ### Packing and unpacking -/

theorem take_littleEndian {k w : Nat} (h : k ≤ w) (n : Nat) :
    (littleEndian w n).take k = littleEndian k n := by
  induction k generalizing w n with
  | zero => rfl
  | succ k ih =>
      cases w with
      | zero => omega
      | succ w => rw [littleEndian, littleEndian, List.take_succ_cons, ih (Nat.le_of_succ_le_succ h)]

theorem take_wordBytes_wordOfBytes {bs : List UInt8} (h : bs.length ≤ 8) :
    (wordBytes (wordOfBytes bs)).take bs.length = bs := by
  have hlt : ofLittleEndian bs < 2 ^ 64 := by
    have hpow : 2 ^ (8 * bs.length) ≤ 2 ^ 64 := Nat.pow_le_pow_right (by decide) (by omega)
    have hbs := ofLittleEndian_lt bs
    rw [Nat.one_shiftLeft] at hbs
    exact Nat.lt_of_lt_of_le hbs hpow
  have hword : (wordOfBytes bs).toNat = ofLittleEndian bs := by
    rw [wordOfBytes, UInt64.toNat_ofNat', Nat.mod_eq_of_lt hlt]
  rw [wordBytes, hword, take_littleEndian h, littleEndian_ofLittleEndian]

theorem unpackWords_packWords {unit count : Nat} (hu : unit ≤ 8) {bs : List UInt8}
    (h : bs.length ≤ unit * count) : unpackWords unit (packWords unit count bs) bs.length = bs := by
  induction count generalizing bs with
  | zero =>
      have hnil : bs = [] := List.eq_nil_of_length_eq_zero (by omega)
      rw [hnil]
      rfl
  | succ count ih =>
      rw [Nat.mul_succ] at h
      have hfirst : (bs.take unit).length ≤ 8 := by
        rw [List.length_take]
        omega
      have hrest : (bs.drop unit).length ≤ unit * count := by
        rw [List.length_drop]
        omega
      have hword := take_wordBytes_wordOfBytes hfirst
      have hwords := ih hrest
      rw [List.length_take] at hword
      rw [List.length_drop] at hwords
      rw [packWords, unpackWords, hword, hwords, List.take_append_drop]

/-- Registers that start with the words of an object have the object at the front of their image. -/
theorem take_wordsImage_of_prefix {unit count : Nat} (hu : unit ≤ 8) {bs : List UInt8}
    (h : bs.length ≤ unit * count) {regs : List UInt64}
    (hregs : packWords unit count bs <+: regs) : (wordsImage unit regs).take bs.length = bs := by
  obtain ⟨rest, rfl⟩ := hregs
  have hlen : bs.length ≤ (wordsImage unit (packWords unit count bs)).length := by
    rwa [length_wordsImage hu, length_packWords]
  unfold wordsImage at hlen ⊢
  rw [List.flatMap_append, List.take_append_of_le_length hlen]
  exact (unpackWords_eq_take hu _ _).symm.trans (unpackWords_packWords hu h)

/-! ### There and back -/

/-- Bytes that an object has in each of its registers. -/
def Pass.unit : Pass → Nat
  | floatMembers _ width _ => width.toNat
  | general _ | float32 | float64 | address | inlineWords .. | stackImage .. => 8

theorem Pass.Bounded.unit_le {abi : Abi} {pass : Pass} (h : pass.Bounded abi) : pass.unit ≤ 8 := by
  cases pass with
  | floatMembers count width size =>
      obtain ⟨-, hw, -⟩ := h
      show width.toNat ≤ 8
      omega
  | general scalar | float32 | float64 | address | inlineWords words size align16
  | stackImage words size align16 => exact Nat.le_refl 8

/-- The result registers of a class. -/
def ResultRegisters.bank (r : ResultRegisters) : Bank → List UInt64
  | .general => r.general.toList
  | .float => r.float.toList
  | .stack => []

theorem Corresponds.take_image {pass : Pass} {mechanism : Mechanism}
    (h : Corresponds pass mechanism) (hcopies : pass.copies = true) (hb : pass.bank ≠ .stack)
    (hu : pass.unit ≤ 8) {bs : List UInt8} (hlen : bs.length ≤ pass.unit * pass.slots pass.bank)
    {r : ResultRegisters}
    (hr : packWords pass.unit (pass.slots pass.bank) bs <+: r.bank pass.bank) :
    (r.image mechanism).take bs.length = bs := by
  have htake := take_wordsImage_of_prefix hu hlen hr
  cases h with
  | word | pair =>
      show (r.general.toList.flatMap wordBytes).take bs.length = bs
      rwa [← wordsImage_eight]
  | @floats count width size =>
      -- the image has the registers of the aggregate alone
      have hregs : packWords width.toNat count.toNat bs = r.float.toList.take count.toNat := by
        have hr := List.prefix_iff_eq_take.mp hr
        rwa [length_packWords] at hr
      show (wordsImage width.toNat (r.float.toList.take count.toNat)).take bs.length = bs
      rw [← hregs]
      exact take_wordsImage_of_prefix hu hlen List.prefix_rfl
  | address => cases hcopies
  | image => exact absurd rfl hb

/-- What went through registers does not come back through memory. -/
theorem Corresponds.inRegisters {pass : Pass} {mechanism : Mechanism}
    (h : Corresponds pass mechanism) (hcopies : pass.copies = true) (hb : pass.bank ≠ .stack) :
    ¬ (mechanism = .void ∨ mechanism = .memory) := by
  cases h with
  | word | pair | floats => rintro (h | h) <;> cases h
  | address => cases hcopies
  | image => exact absurd rfl hb

theorem Corresponds.exists_deliver {abi : Abi} {pass : Pass} {q : ResultPlan} (hv : abi.Valid)
    (h : Corresponds pass q.mechanism) (hb : pass.Bounded abi) (hq : q.Bounded abi)
    (hw : q.writesNothing = false) (hcopies : pass.copies = true) (hreg : pass.bank ≠ .stack)
    {bs : List UInt8} (hsize : q.size.toNat = bs.length)
    (hlen : bs.length ≤ pass.unit * pass.slots pass.bank) {r : ResultRegisters}
    (hr : packWords pass.unit (pass.slots pass.bank) bs <+: r.bank pass.bank)
    {destination : UInt64} (hd : destination ≠ 0) (before : Memory) :
    ∃ after, q.deliver r destination before = .ok after ∧
      after.load destination bs.length = bs ∧
      ∀ a, bs.length ≤ (a - destination).toNat → after.byte a = before.byte a := by
  obtain ⟨after, hdeliver, hload, hbeyond⟩ := ResultPlan.exists_deliver hv hq hw hd r before
  rw [hsize] at hload hbeyond
  refine ⟨after, hdeliver, ?_, hbeyond⟩
  rw [hload, h.take_image hcopies hreg hb.unit_le hlen hr]

theorem Abi.Passes.numbers_eq {abi : Abi} {c : Composite} {pass : Pass} {mechanism : Mechanism}
    (h : abi.Passes c pass) (hc : Corresponds pass mechanism) :
    (∀ words size align16, pass = .inlineWords words size align16 →
        size = c.size ∧ (mechanism = .general ∨ mechanism = .generalPair)) ∧
      ∀ count width size, pass = .floatMembers count width size →
        size = c.size ∧ mechanism = .floatAggregate width count := by
  refine ⟨?_, ?_⟩
  · rintro words size align16 rfl
    cases h
    cases hc with
    | word => exact ⟨rfl, Or.inl rfl⟩
    | pair => exact ⟨rfl, Or.inr rfl⟩
  · rintro count width size rfl
    cases h
    cases hc
    exact ⟨rfl, rfl⟩

/-! ### Objects in the registers of a frame -/

theorem Abi.Passes.size_le {abi : Abi} {c : Composite} {pass : Pass} (h : abi.Passes c pass)
    (hb : pass.Bounded abi) (hcopies : pass.copies = true) :
    c.size.toNat ≤ pass.unit * pass.slots pass.bank := by
  cases h with
  | nontrivial | large => cases hcopies
  | floats =>
      obtain ⟨-, hw, hcount, -⟩ := hb
      simp only [Pass.unit, Pass.bank, Pass.slots, hcount]
      exact le_mul_unitsFor (by omega)
  | words | image =>
      simp only [Pass.unit, Pass.slots, hb.2]
      exact le_mul_unitsFor (by omega)

/-- Into registers a composite is packed in the units of its pass. -/
theorem ParamPlan.contents_eq_packWords {abi : Abi} {c : Composite} {q : ParamPlan}
    (h : abi.Passes c q.pass) (hcopies : q.pass.copies = true) {l : Location}
    (hl : l.bank = q.pass.bank) (hreg : l.bank ≠ .stack) (b : ArgumentBuffer) (m : Memory)
    (offset : Nat) :
    q.contents b m offset l =
      packWords q.pass.unit l.count.toNat (m.load (b.value offset 2) c.size.toNat) := by
  rw [packWords_load]
  unfold contents
  generalize q.pass = pass at h hcopies hl ⊢
  cases h with
  | nontrivial | large => cases hcopies
  | floats => simp only [hl, Pass.bank, Pass.unit, if_true]
  | words => rfl
  | image => exact absurd hl hreg

namespace Plan

variable {p : Plan} {f : Callable} {abi : Abi} {args : Arguments} {m : Memory} {frame : Frame}
  {k : Nat} {c : Composite}

theorem Planned.read_eq_packWords (hv : abi.Valid) (hp : p.Planned f abi)
    (hframe : p.Realizes args m frame) (hk : f.params[k]? = some (.ofComposite c))
    (hcopies : (p.passOf (.param k)).copies = true) {x : Placement} (hx : x ∈ p.layout)
    (hrole : x.role = .param k) (hreg : x.location.bank ≠ .stack) :
    x.location.bank = (p.passOf (.param k)).bank ∧
      frame.read x.location =
        packWords (p.passOf (.param k)).unit ((p.passOf (.param k)).slots x.location.bank)
          (m.load (args.buffer.value (p.offset k) 2) c.size.toNat) := by
  have hbank := hp.bank_eq_of_ne_stack hv hx hreg
  have hcount := (hp.proper hv x hx).count
  have hread := hframe.carries.reads x hx
  have hpasses := (Abi.passes_of_passComposite (hp.passComposite_eq_ok hk)).2
  obtain ⟨q, hq, -⟩ := hp.exists_lowers hk
  rw [hrole] at hbank hcount
  rw [Lowering.contents, hrole] at hread
  simp only [hq] at hread
  refine ⟨hbank, ?_⟩
  rw [p.passOf_param hq] at hpasses hcopies hbank hcount ⊢
  rw [hread, ParamPlan.contents_eq_packWords hpasses hcopies hbank hreg, hcount]

/-- A composite whose bytes go into registers comes back in as many registers of the same class,
with the same size and the same number of bytes in each.  So if the callee leaves the words that it
found in the first result registers, the object is at the destination again, from its first byte to
its last one and nothing else: whatever is in the other registers, and even if the memory that the
object was read from has changed in between. -/
theorem object_round_trip (hv : abi.validate = .ok ()) {pass : Pass} {q : ResultPlan}
    (hpass : abi.passComposite c = .ok pass)
    (hresult : abi.lowerResult (.value (.ofComposite c)) = .ok q) :
    q.size = c.size ∧
      (∀ words size align16, pass = .inlineWords words size align16 →
        size = q.size ∧ (q.mechanism = .general ∨ q.mechanism = .generalPair)) ∧
      (∀ count width size, pass = .floatMembers count width size →
        size = q.size ∧ q.mechanism = .floatAggregate width count) ∧
      ∀ {f p k args m frame x}, make f abi = .ok p → f.params[k]? = some (.ofComposite c) →
        p.marshal args m = .ok frame → pass.copies = true →
        x ∈ p.layout → x.role = .param k → x.location.bank ≠ .stack →
        ∀ r : ResultRegisters, frame.read x.location <+: r.bank x.location.bank →
        ∀ destination, destination ≠ 0 → ∀ before : Memory,
          ∃ after, q.deliver r destination before = .ok after ∧
            after.load destination c.size.toNat =
              m.load (args.buffer.value (p.offset k) 2) c.size.toNat ∧
            ∀ a, c.size.toNat ≤ (a - destination).toNat → after.byte a = before.byte a := by
  have hv := abi.validate_eq_ok_iff.mp hv
  obtain ⟨hmechanism, hsize⟩ := Abi.lowerResult_eq_ok_iff.mp hresult
  have hsize : q.size = c.size := hsize
  have hpasses := (Abi.passes_of_passComposite hpass).2
  have hcorresponds : Corresponds pass q.mechanism := Abi.corresponds_of_eq_ok hpass hmechanism
  obtain ⟨hwords, hfloats⟩ := hpasses.numbers_eq hcorresponds
  rw [hsize]
  refine ⟨rfl, hwords, hfloats, ?_⟩
  intro f p k args m frame x hp hk hmarshal hcopies hx hrole hreg r hr destination hd before
  have hp := make_eq_ok_iff.mp hp
  obtain ⟨-, hframe⟩ := hp.realizes_of_marshal hv hmarshal
  have hpassOf : p.passOf (.param k) = pass :=
    Except.ok.inj ((hp.passComposite_eq_ok hk).symm.trans hpass)
  obtain ⟨hbank, hread⟩ :=
    hp.read_eq_packWords hv hframe hk (by rwa [hpassOf]) hx hrole hreg
  rw [hpassOf] at hbank hread
  rw [hbank] at hreg hr hread
  rw [hread] at hr
  have hbounded := Abi.bounded_passComposite hv hpass
  have hw : q.writesNothing = false := by
    rw [← Bool.not_eq_true, Abi.writesNothing_iff hresult]
    exact hcorresponds.inRegisters hcopies hreg
  have hlen := m.length_load (args.buffer.value (p.offset k) 2) c.size.toNat
  have hroom := hpasses.size_le hbounded hcopies
  rw [← hlen] at hroom
  have hsize' : q.size.toNat = (m.load (args.buffer.value (p.offset k) 2) c.size.toNat).length := by
    rw [hlen, hsize]
  obtain ⟨after, hdeliver, hload, hbeyond⟩ :=
    hcorresponds.exists_deliver hv hbounded (Abi.bounded_lowerResult hv hresult) hw hcopies hreg
      hsize' hroom hr hd before
  rw [hlen] at hload hbeyond
  exact ⟨after, hdeliver, hload, hbeyond⟩

/-- On System V the three floats of the crowded method are found in two float registers; what was
in the other result registers does not matter. -/
theorem object_round_trip_crowded : Abi.systemV.validate = .ok () ∧
    ∃ p q m frame, make .crowded .systemV = .ok p ∧ p.marshal .crowded m = .ok frame ∧
      Abi.systemV.lowerResult (.value (.ofComposite (.plain 12 4 (.float32 3)))) = .ok q ∧
      m.load 0x3000 12 = [0, 0, 0x80, 0x3f, 0, 0, 0, 0x40, 0, 0, 0x40, 0x40] ∧
      ∀ a b, ∃ after,
        q.deliver ⟨#v[a, b], #v[frame.slots .float 1, frame.slots .float 2, a, b]⟩ 0x9000 .crowded =
          .ok after ∧
        after.load 0x9000 12 = m.load 0x3000 12 := by
  have hp : ∃ p q, make .crowded .systemV = .ok p ∧ p.Accepts .crowded ∧
      ⟨.param 4, ⟨.float, 1, 2⟩⟩ ∈ p.layout ∧
      Arguments.crowded.buffer.value (p.offset 4) 2 = 0x3000 ∧
      Abi.systemV.lowerResult (.value (.ofComposite (.plain 12 4 (.float32 3)))) = .ok q :=
    ⟨_, _, rfl, by decide, by decide, by decide, rfl⟩
  obtain ⟨p, q, hp, ha, hx, haddress, hq⟩ := hp
  have hv : Abi.systemV.validate = .ok () := rfl
  obtain ⟨frame, hmarshal, -⟩ := (make_eq_ok_iff.mp hp).marshal_eq_ok
    (Abi.systemV.validate_eq_ok_iff.mp hv) ha
    (Memory.crowded.store 0x3000 [0, 0, 0x80, 0x3f, 0, 0, 0, 0x40, 0, 0, 0x40, 0x40])
  refine ⟨hv, p, q, _, frame, hp, hmarshal, hq, Memory.load_store _ _ (by decide), fun a b => ?_⟩
  have hpass : Abi.systemV.passComposite (.plain 12 4 (.float32 3)) =
      .ok (.floatMembers 2 8 12) := rfl
  obtain ⟨-, -, -, hreturn⟩ := object_round_trip hv hpass hq
  obtain ⟨after, hdeliver, hload, -⟩ :=
    hreturn hp rfl hmarshal rfl hx rfl nofun
      ⟨#v[a, b], #v[frame.slots .float 1, frame.slots .float 2, a, b]⟩ ⟨[a, b], rfl⟩
      0x9000 (by decide) .crowded
  rw [haddress] at hload
  exact ⟨after, hdeliver, hload⟩

end Plan

end ForeignCall
