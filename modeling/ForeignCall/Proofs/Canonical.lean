import ForeignCall.Proofs.Marshal

/-! # Arguments in canonical form

From a typed argument to its slot.  The argument is pushed as one or two words, the words are joined
again at the place that the lengths of the arguments before it give, and the value is widened by its
type.  What arrives is the argument's own value (`Argument.Canonical`): a signed number stays the
same signed number in 64 bits, everything else the same unsigned number, bit pattern or address.

* `Argument.canonical_widen` is about one argument and its words alone.
* `ArgumentBuffer.value_ofArguments` finds those words in a buffer of many arguments.
* `Abi.Lowers.contents_eq` says that every pass that does not copy an object widens the value by the
  scalar that its type is stored as, also where it says no more than how many words to read.

`arguments_arrive_canonical` puts these together. -/

namespace ForeignCall

/-! ### Typed arguments -/

namespace Argument

/-- The scalar that the argument is. -/
def scalar : Argument → Scalar
  | bool _ => .bool
  | i8 _ => .i8
  | u8 _ => .u8
  | i16 _ => .i16
  | u16 _ => .u16
  | i32 _ => .i32
  | u32 _ => .u32
  | i64 _ => .i64
  | u64 _ => .u64
  | f32 _ => .f32
  | f64 _ => .f64
  | address _ => .pointer

/-- The word stands for the argument: read as a signed number for the signed ones, and as an unsigned
number, bit pattern or address for all others. -/
def Canonical : Argument → UInt64 → Prop
  | bool value, w => w.toNat = value.toNat
  | i8 value, w => w.toInt64.toInt = value.toInt
  | u8 value, w => w.toNat = value.toNat
  | i16 value, w => w.toInt64.toInt = value.toInt
  | u16 value, w => w.toNat = value.toNat
  | i32 value, w => w.toInt64.toInt = value.toInt
  | u32 value, w => w.toNat = value.toNat
  | i64 value, w => w.toInt64.toInt = value.toInt
  | u64 value, w => w.toNat = value.toNat
  | f32 bits, w => w.toNat = bits.toNat
  | f64 bits, w => w = bits
  | address value, w => w = value

/-- The words of the argument as one value. -/
def value (a : Argument) : UInt64 := (⟨a.words⟩ : ArgumentBuffer).value 0 a.words.length

theorem eq_address_of_scalar {a : Argument} (h : a.scalar = .pointer) :
    ∃ address, a = .address address := by
  cases a <;> first | exact ⟨_, rfl⟩ | cases h

theorem length_words (a : Argument) : a.words.length = if a.scalar.size ≤ 4 then 1 else 2 := by
  cases a <;> rfl

end Argument

/-- The scalar as which a value of the type is stored in a buffer.  Handles, references and by-value
objects are there by their address. -/
def ValueType.stored (t : ValueType) : Scalar :=
  if t.byRef then .pointer
  else match t.kind with
    | .scalar s => s
    | .handle | .composite _ => .pointer

/-- The argument is what is pushed for a value of the type. -/
def ValueType.Takes (t : ValueType) (a : Argument) : Prop := a.scalar = t.stored

instance (t : ValueType) (a : Argument) : Decidable (t.Takes a) :=
  inferInstanceAs (Decidable (_ = _))

theorem ValueType.bufferWords_eq (t : ValueType) :
    t.bufferWords = if t.stored.size ≤ 4 then 1 else 2 := by
  obtain ⟨kind, byRef⟩ := t
  cases byRef with
  | true => rfl
  | false => cases kind <;> rfl

theorem ValueType.Takes.length_words {t : ValueType} {a : Argument} (h : t.Takes a) :
    a.words.length = t.bufferWords := by
  rw [a.length_words, t.bufferWords_eq, h]

/-! ### Widening -/

theorem toInt_signExtend {bits : Nat} (hb : bits ≤ 32) (v : BitVec bits) :
    (signExtend bits (UInt64.ofBitVec ((v.signExtend 32).setWidth 64))).toInt64.toInt = v.toInt := by
  have hlow : ((v.signExtend 32).setWidth 64).setWidth bits = v := by
    ext i hi
    have h32 : i < 32 := by omega
    simp [BitVec.getElem_signExtend, hi, h32]
  have hword : (signExtend bits (UInt64.ofBitVec ((v.signExtend 32).setWidth 64))).toBitVec =
      v.signExtend 64 := congrArg (BitVec.signExtend 64) hlow
  exact (congrArg BitVec.toInt hword).trans (BitVec.toInt_signExtend_of_le (by omega))

theorem toNat_zeroExtend {bits n : Nat} (hb : bits ≤ 64) {w : UInt64} (hw : w.toNat = n)
    (hn : n < 1 <<< bits) : (zeroExtend bits w).toNat = n := by
  rw [Nat.one_shiftLeft] at hn
  have hpow : 2 ^ bits ≤ 2 ^ 64 := Nat.pow_le_pow_right (by decide) hb
  have hnat : w.toBitVec.toNat = n := hw
  simp only [zeroExtend, UInt64.toNat_ofBitVec, BitVec.toNat_setWidth, hnat]
  rw [Nat.mod_eq_of_lt hn, Nat.mod_eq_of_lt (by omega)]

theorem value_halves (w : UInt64) : (⟨halves w⟩ : ArgumentBuffer).value 0 2 = w :=
  (ArgumentBuffer.joinHalves_halves w).2

theorem Argument.canonical_widen (a : Argument) : a.Canonical (a.scalar.widen a.value) := by
  cases a with
  | bool value => cases value <;> rfl
  | i8 value => exact toInt_signExtend (by decide) value.toBitVec
  | i16 value => exact toInt_signExtend (by decide) value.toBitVec
  | i32 value =>
      have h := toInt_signExtend (by decide) value.toBitVec
      rw [BitVec.signExtend_eq] at h
      exact h
  | u8 value =>
      have h : value.toUInt32.toUInt64.toNat = value.toNat := by simp
      exact toNat_zeroExtend (by decide) h value.toNat_lt
  | u16 value =>
      have h : value.toUInt32.toUInt64.toNat = value.toNat := by simp
      exact toNat_zeroExtend (by decide) h value.toNat_lt
  | u32 value => exact toNat_zeroExtend (by decide) rfl value.toNat_lt
  | f32 bits => exact toNat_zeroExtend (by decide) rfl bits.toNat_lt
  | i64 value =>
      have h : (Argument.i64 value).value = value.toUInt64 := value_halves value.toUInt64
      show (Argument.i64 value).value.toInt64.toInt = value.toInt
      rw [h]
      rfl
  | u64 value => exact congrArg UInt64.toNat (value_halves value)
  | f64 bits => exact value_halves bits
  | address value => exact value_halves value

/-! ### One value among many -/

namespace ArgumentBuffer

theorem words_foldl_push (b : ArgumentBuffer) (as : List Argument) :
    (as.foldl push b).words = b.words ++ as.flatMap Argument.words := by
  induction as generalizing b with
  | nil => simp
  | cons a as ih => rw [List.foldl_cons, ih, words_push, List.flatMap_cons, List.append_assoc]

theorem words_ofArguments (as : List Argument) :
    (ofArguments as).words = as.flatMap Argument.words :=
  words_foldl_push empty as

/-- A value does not depend on the words around its own. -/
theorem value_append {pre ws post : List UInt32} (h : ws.length = 1 ∨ ws.length = 2) :
    (⟨pre ++ (ws ++ post)⟩ : ArgumentBuffer).value pre.length ws.length =
      (⟨ws⟩ : ArgumentBuffer).value 0 ws.length := by
  have hget : ∀ i, i < ws.length → (pre ++ (ws ++ post)).getD (pre.length + i) 0 = ws.getD i 0 := by
    intro i hi
    rw [List.getD_append_right _ _ _ _ (by omega), Nat.add_sub_cancel_left,
      List.getD_append _ _ _ _ hi]
  unfold value
  simp only
  rcases h with h | h
  · rw [if_pos h, if_pos h, ← Nat.add_zero pre.length, hget 0 (by omega)]
  · rw [if_neg (by omega), if_neg (by omega), hget 1 (by omega), Nat.zero_add]
    rw [← hget 0 (by omega), Nat.add_zero]

theorem value_ofArguments {as : List Argument} {k : Nat} {a : Argument} (h : as[k]? = some a) :
    (ofArguments as).value ((as.take k).flatMap Argument.words).length a.words.length =
      a.value := by
  obtain ⟨hk, rfl⟩ := List.getElem?_eq_some_iff.mp h
  have hsplit : (ofArguments as).words = (as.take k).flatMap Argument.words ++
      (as[k].words ++ (as.drop (k + 1)).flatMap Argument.words) := by
    rw [words_ofArguments, ← List.flatMap_cons, ← List.flatMap_append,
      ← List.drop_eq_getElem_cons hk, List.take_append_drop]
  have hlen : as[k].words.length = 1 ∨ as[k].words.length = 2 := by
    rw [Argument.length_words]
    split
    · exact Or.inl rfl
    · exact Or.inr rfl
  have hbuffer : ofArguments as = ⟨(as.take k).flatMap Argument.words ++
      (as[k].words ++ (as.drop (k + 1)).flatMap Argument.words)⟩ := congrArg mk hsplit
  rw [hbuffer]
  exact value_append hlen

end ArgumentBuffer

/-! ### Lengths -/

theorem length_flatMap_words {ts : List ValueType} {as : List Argument}
    (h : List.Forall₂ ValueType.Takes ts as) :
    (as.flatMap Argument.words).length = ts.foldr (fun t n => t.bufferWords + n) 0 := by
  induction h with
  | nil => rfl
  | cons ha _ ih => rw [List.flatMap_cons, List.length_append, List.foldr_cons, ih, ha.length_words]

theorem Abi.total_eq {abi : Abi} {ts : List ValueType} {qs : List ParamPlan}
    (h : List.Forall₂ abi.Lowers ts qs) :
    ParamPlan.total qs = ts.foldr (fun t n => t.bufferWords + n) 0 := by
  induction h with
  | nil => rfl
  | cons hq _ ih => rw [ParamPlan.total, List.foldr_cons, ih, hq.words]

/-! ### One value in its slot -/

/-- One word has nothing in its upper half. -/
theorem Scalar.widen_f32_value (b : ArgumentBuffer) (offset : Nat) :
    Scalar.f32.widen (b.value offset 1) = b.value offset 1 := by
  have hlt : (b.value offset 1).toNat < 2 ^ 32 := (b.words.getD offset 0).toNat_lt
  exact UInt64.toNat_inj.mp (toNat_zeroExtend (by decide) rfl hlt)

theorem Abi.eq_address_of_passComposite {abi : Abi} {c : Composite} {pass : Pass}
    (h : abi.passComposite c = .ok pass) (hcopies : pass.copies = false) : pass = .address := by
  cases (passes_of_passComposite h).2 with
  | nontrivial | large => rfl
  | floats | words | image => cases hcopies

/-- A parameter that is no copied object has its value in one slot, widened by the scalar that its
type is stored as. -/
theorem Abi.Lowers.contents_eq {abi : Abi} {t : ValueType} {q : ParamPlan} (h : abi.Lowers t q)
    (hcopies : q.pass.copies = false) (b : ArgumentBuffer) (m : Memory) (offset : Nat)
    (l : Location) :
    q.contents b m offset l = [t.stored.widen (b.value offset t.bufferWords)] := by
  obtain ⟨hpass, -, hwords⟩ := h
  obtain ⟨kind, byRef⟩ := t
  unfold ParamPlan.contents
  rw [hwords]
  cases byRef with
  | true =>
      rw [← Except.ok.inj hpass]
      rfl
  | false =>
      cases kind with
      | scalar s =>
          cases s with
          | f32 =>
              rw [← Except.ok.inj hpass]
              exact congrArg (fun w => [w]) (Scalar.widen_f32_value b offset).symm
          | bool | i8 | u8 | i16 | u16 | i32 | u32 | i64 | u64 | f64 | pointer =>
              rw [← Except.ok.inj hpass]
              rfl
      | handle =>
          rw [← Except.ok.inj hpass]
          rfl
      | composite c =>
          rw [Abi.eq_address_of_passComposite hpass hcopies]
          rfl

theorem Abi.Lowers.kind_of_copies {abi : Abi} {t : ValueType} {q : ParamPlan}
    (h : abi.Lowers t q) (hcopies : q.pass.copies = true) :
    t.byRef = false ∧ ∃ c, t.kind = .composite c := by
  have hpass := h.pass
  obtain ⟨kind, byRef⟩ := t
  cases byRef with
  | true =>
      rw [← Except.ok.inj hpass] at hcopies
      cases hcopies
  | false =>
      cases kind with
      | scalar s => cases s <;> rw [← Except.ok.inj hpass] at hcopies <;> cases hcopies
      | handle =>
          rw [← Except.ok.inj hpass] at hcopies
          cases hcopies
      | composite c => exact ⟨rfl, c, rfl⟩

namespace Plan

variable {p : Plan} {f : Callable} {abi : Abi} {as : List Argument}

theorem Planned.offset_eq (hp : p.Planned f abi)
    (h : List.Forall₂ ValueType.Takes f.params as) (k : Nat) :
    p.offset k = ((as.take k).flatMap Argument.words).length := by
  rw [length_flatMap_words (List.forall₂_take k h), Lowering.offset,
    Abi.total_eq (List.forall₂_take k hp.forall₂)]

theorem Planned.value_eq (hp : p.Planned f abi)
    (h : List.Forall₂ ValueType.Takes f.params as) {k : Nat} {t : ValueType} {a : Argument}
    (ha : as[k]? = some a) (ht : t.Takes a) :
    (ArgumentBuffer.ofArguments as).value (p.offset k) t.bufferWords = a.value := by
  rw [hp.offset_eq h, ← ht.length_words]
  exact ArgumentBuffer.value_ofArguments ha

theorem Planned.size_eq (hp : p.Planned f abi)
    (h : List.Forall₂ ValueType.Takes f.params as) :
    (ArgumentBuffer.ofArguments as).size = p.argWords := by
  rw [ArgumentBuffer.size, ArgumentBuffer.words_ofArguments, length_flatMap_words h,
    Lowering.argWords, Abi.total_eq hp.forall₂]

theorem Planned.accepts_ofArguments (hp : p.Planned f abi)
    (h : List.Forall₂ ValueType.Takes f.params as) {object second : UInt64}
    (hobject : p.convention.needsObject = true → object ≠ 0)
    (hsecond : p.convention.needsSecondObject = true → second ≠ 0)
    (hcopied : ∀ k address, as[k]? = some (.address address) →
      (p.passOf (.param k)).copies = true → address ≠ 0) :
    p.Accepts ⟨ArgumentBuffer.ofArguments as, object, second⟩ := by
  refine ⟨hp.size_eq h, hobject, hsecond, ?_⟩
  intro k q hq hcopies
  obtain ⟨t, ht, hlowers⟩ := hp.exists_type hq
  obtain ⟨a, ha, htakes⟩ := exists_getElem?_of_forall₂ h ht
  obtain ⟨href, c, hkind⟩ := hlowers.kind_of_copies hcopies
  have hstored : t.stored = .pointer := by simp [ValueType.stored, href, hkind]
  obtain ⟨address, rfl⟩ := Argument.eq_address_of_scalar (htakes.trans hstored)
  have hvalue := hp.value_eq h ha htakes
  have hwords : t.bufferWords = 2 := by rw [t.bufferWords_eq, hstored]; rfl
  rw [hwords] at hvalue
  rw [hvalue]
  have hnonzero := hcopied k address ha (by rwa [p.passOf_param hq])
  rwa [show (Argument.address address).value = address from value_halves address]

theorem Planned.contents_canonical (hp : p.Planned f abi)
    (h : List.Forall₂ ValueType.Takes f.params as) {object second : UInt64} {k : Nat}
    {a : Argument} (ha : as[k]? = some a) (hcopies : (p.passOf (.param k)).copies = false)
    (m : Memory) {x : Placement} (hx : x.role = .param k) :
    ∃ w, p.contents ⟨ArgumentBuffer.ofArguments as, object, second⟩ m x = [w] ∧
      a.Canonical w := by
  obtain ⟨t, ht, htakes⟩ := exists_getElem?_of_forall₂ h.flip ha
  obtain ⟨q, hq, hlowers⟩ := hp.exists_lowers ht
  rw [p.passOf_param hq] at hcopies
  refine ⟨a.scalar.widen a.value, ?_, a.canonical_widen⟩
  simp only [Lowering.contents, hx, hq]
  rw [hlowers.contents_eq hcopies, hp.value_eq h ha htakes, htakes]

theorem Planned.exists_place (hp : p.Planned f abi) {k : Nat} (hk : k < f.params.length) :
    ∃ x ∈ p.layout, x.role = .param k := by
  have hmem : Role.param k ∈ p.layout.map Placement.role := by
    rw [hp.map_role_layout, Lowering.roles]
    simp [hp.length_params, hk]
  obtain ⟨x, hx, hr⟩ := List.mem_map.mp hmem
  exact ⟨x, hx, hr⟩

/-- From a list of typed arguments to the slots of a frame.  The buffer has the words that the
function and its plans count.  Every argument that is not copied from memory then stands in the one
slot of its place, register or stack, as its own value. -/
theorem arguments_arrive_canonical {f : Callable} {as : List Argument}
    (htyped : List.Forall₂ ValueType.Takes f.params as) :
    (ArgumentBuffer.ofArguments as).size = f.bufferWords ∧
      ∀ abi p, make f abi = .ok p →
        (ArgumentBuffer.ofArguments as).size = p.argWords ∧
          (∀ k t, f.params[k]? = some t → t.byRef = true ∨ (∀ c, t.kind ≠ .composite c) →
            (p.passOf (.param k)).copies = false) ∧
          (abi.validate = .ok () → ∀ object second,
            (p.convention.needsObject = true → object ≠ 0) →
            (p.convention.needsSecondObject = true → second ≠ 0) →
            (∀ k address, as[k]? = some (.address address) →
              (p.passOf (.param k)).copies = true → address ≠ 0) →
            ∀ m, ∃ frame,
              p.marshal ⟨ArgumentBuffer.ofArguments as, object, second⟩ m = .ok frame ∧
                ∀ k a, as[k]? = some a → (p.passOf (.param k)).copies = false →
                  (∃ x ∈ p.layout, x.role = .param k) ∧
                    ∀ x ∈ p.layout, x.role = .param k →
                      ∃ w, frame.read x.location = [w] ∧ a.Canonical w) := by
  constructor
  · rw [ArgumentBuffer.size, ArgumentBuffer.words_ofArguments]
    exact length_flatMap_words htyped
  intro abi p hp
  have hp := make_eq_ok_iff.mp hp
  refine ⟨hp.size_eq htyped, ?_, ?_⟩
  · intro k t ht hkind
    obtain ⟨q, hq, hlowers⟩ := hp.exists_lowers ht
    have hpass : p.passOf (.param k) = q.pass := by simp [Lowering.passOf, hq]
    rw [hpass, ← Bool.not_eq_true]
    intro hcopies
    obtain ⟨href, c, hc⟩ := hlowers.kind_of_copies hcopies
    rcases hkind with href' | hnone
    · rw [href] at href'
      cases href'
    · exact hnone c hc
  · intro hv object second hobject hsecond hcopied m
    have hv := abi.validate_eq_ok_iff.mp hv
    have ha := hp.accepts_ofArguments htyped hobject hsecond hcopied
    obtain ⟨frame, hmarshal, hframe⟩ := hp.marshal_eq_ok hv ha m
    refine ⟨frame, hmarshal, ?_⟩
    intro k a hk hcopies
    constructor
    · obtain ⟨hlt, -⟩ := List.getElem?_eq_some_iff.mp hk
      exact hp.exists_place (by rwa [htyped.length_eq])
    · intro x hx hr
      rw [hframe.carries.reads x hx]
      exact hp.contents_canonical htyped hk hcopies m hr

/-- On AArch64 the last argument of the crowded method is spilled, and arrives all the same. -/
theorem arguments_arrive_canonical_crowded :
    ∃ p, make .crowded .aarch64 = .ok p ∧
      ∃ frame, p.marshal .crowded .crowded = .ok frame ∧
        ∃ x ∈ p.layout, x.role = .param 8 ∧ x.location.bank = .stack ∧
          ∃ w, frame.read x.location = [w] ∧ (Argument.bool true).Canonical w := by
  have hp : ∃ p x, make .crowded .aarch64 = .ok p ∧ x ∈ p.layout ∧ x.role = .param 8 ∧
      x.location.bank = .stack ∧ (p.passOf (.param 8)).copies = false :=
    ⟨_, ⟨.param 8, ⟨.stack, 3, 1⟩⟩, rfl, by decide, rfl, rfl, rfl⟩
  obtain ⟨p, x, hp, hx, hr, hstack, hcopies⟩ := hp
  have htyped : List.Forall₂ ValueType.Takes Callable.crowded.params
      [.i32 (-7), .i64 1000000000000, .address 0x2000, .f32 0x3f800000, .address 0x3000,
        .address 0x4000, .address 0x5000, .i64 (-1), .bool true] := by decide
  obtain ⟨-, hplan⟩ := arguments_arrive_canonical htyped
  obtain ⟨-, -, harrive⟩ := hplan .aarch64 p hp
  have hcopied : ∀ a ∈ ([.i32 (-7), .i64 1000000000000, .address 0x2000, .f32 0x3f800000,
      .address 0x3000, .address 0x4000, .address 0x5000, .i64 (-1), .bool true] : List Argument),
      a ≠ .address 0 := by decide
  obtain ⟨frame, hmarshal, hframe⟩ := harrive rfl 0x6000 0x7000 (fun _ => by decide)
    (fun _ => by decide)
    (fun k address hk _ hzero => hcopied _ (List.mem_of_getElem? hk) (congrArg _ hzero)) .crowded
  obtain ⟨-, hplaces⟩ := hframe 8 (.bool true) rfl hcopies
  exact ⟨p, hp, frame, hmarshal, x, hx, hr, hstack, hplaces x hx hr⟩

end Plan

end ForeignCall
