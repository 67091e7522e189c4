import ForeignCall.Proofs.Canonical

/-! # What marshaling depends on

Marshaling is given a whole memory and two pointers.  What it takes from them is what the signature
says.

* Putting a value into its slots inspects the bytes that the value is made of (`Freight.Touches`), so
  that memories which agree on these bytes cannot be told apart, neither by one value nor by a run of
  them (`Frame.stow_congr`, `Frame.foldlM_board_congr`).
* Only trivial objects that are passed by value are copied (`Abi.Lowers.exists_composite_of_copies`),
  and they have as many bytes as their type says (`Planned.reads_of_touches`).  What is behind any
  other address is not looked at.
* A frame notes both pointers, and otherwise knows them only through the values of the call.  Where
  the convention does not pass a pointer, another one gives the same slots
  (`Frame.foldlM_board_withObjects`).

`marshal_reads_copied` puts these together. -/

namespace ForeignCall

/-- The memories hold the same bytes at some addresses. -/
def Memory.AgreeOn (m m' : Memory) (S : UInt64 → Prop) : Prop := ∀ a, S a → m.byte a = m'.byte a

/-- The bytes of memory that a value is made of. -/
def Freight.Touches : Freight → UInt64 → Prop
  | .reserved, _ | .word _, _ => False
  | .image address size, a | .members _ address size, a =>
      ∃ i < size.toNat, a = address + UInt64.ofNat i

/-! ### Two memories -/

namespace Frame

variable {f : Frame} {m m' : Memory} {l : Location} {abi : Abi} {args : Arguments}

theorem writeObject_congr {address : UInt64} {unit size : Nat}
    (h : ∀ i < size, m.byte (address + UInt64.ofNat i) = m'.byte (address + UInt64.ofNat i)) :
    f.writeObject m l unit address size = f.writeObject m' l unit address size := by
  have hload := Memory.load_congr (n := min size (unit * l.count.toNat)) fun i hi =>
    h i (Nat.lt_of_lt_of_le hi (Nat.min_le_left ..))
  unfold writeObject
  rw [hload]

theorem stow_congr {fr : Freight} (h : m.AgreeOn m' fr.Touches) :
    f.stow m l fr = f.stow m' l fr := by
  cases fr with
  | reserved | word w => rfl
  | image address size | members width address size =>
      have hobject := fun i hi => h (address + UInt64.ofNat i) ⟨i, hi, rfl⟩
      simp only [stow, writeImage, writeObject_congr hobject]

theorem board_congr {x : Passenger}
    (h : ∀ fr, x.freight args = .ok fr → m.AgreeOn m' fr.Touches) (f : Frame) :
    f.board abi args m x = f.board abi args m' x := by
  unfold board
  cases abi.route f.filled x.demand with
  | error e => rfl
  | ok place =>
      cases hfr : x.freight args with
      | error e => rfl
      | ok fr => exact congrArg (Except.mapError _) (stow_congr (h fr hfr))

theorem foldlM_board_congr {ps : List Passenger}
    (h : ∀ x ∈ ps, ∀ fr, x.freight args = .ok fr → m.AgreeOn m' fr.Touches) (f : Frame) :
    ps.foldlM (board abi args m) f = ps.foldlM (board abi args m') f := by
  induction ps generalizing f with
  | nil => rfl
  | cons x ps ih =>
      have hrest := ih fun y hy => h y (List.mem_cons_of_mem x hy)
      rw [List.foldlM_cons, List.foldlM_cons, board_congr (h x (by simp))]
      exact congrArg (bind _) (funext hrest)

end Frame

/-! ### The bytes of a parameter -/

theorem ArgumentBuffer.eq_value_of_read_eq_ok {b : ArgumentBuffer} {position count : Nat}
    {w : UInt64} (h : b.read position count = .ok w) : w = b.value position count := by
  unfold read at h
  unfold value
  rw [List.getD_eq_getElem?_getD, List.getD_eq_getElem?_getD]
  cases hlow : b.words[position]? with
  | none =>
      rw [hlow] at h
      cases h
  | some low =>
      rw [hlow] at h
      by_cases hc : count = 1
      · rw [if_pos hc]
        simp only [if_pos hc] at h
        exact (Except.ok.inj h).symm
      · rw [if_neg hc]
        simp only [if_neg hc] at h
        cases hhigh : b.words[position + 1]? with
        | none =>
            rw [hhigh] at h
            cases h
        | some high =>
            rw [hhigh] at h
            exact (Except.ok.inj h).symm

/-- Bytes of memory belong to values that are copied. -/
theorem ParamPlan.copies_of_touches {q : ParamPlan} {b : ArgumentBuffer} {offset : Nat}
    {fr : Freight} (hfr : q.freight b offset = .ok fr) {a : UInt64} (ha : fr.Touches a) :
    q.pass.copies = true := by
  unfold freight at hfr
  cases hp : q.pass with
  | general scalar | float32 | float64 | address =>
      simp only [hp, bind_eq_ok] at hfr
      obtain ⟨w, -, hw⟩ := hfr
      cases hw
      exact ha.elim
  | inlineWords words size align16 | floatMembers count width size
  | stackImage words size align16 => rfl

theorem Abi.Passes.exists_offset_of_touches {abi : Abi} {c : Composite} {q : ParamPlan}
    (h : abi.Passes c q.pass) {b : ArgumentBuffer} {offset : Nat} {fr : Freight}
    (hfr : q.freight b offset = .ok fr) {a : UInt64} (ha : fr.Touches a) :
    ∃ i < c.size.toNat, a = b.value offset 2 + UInt64.ofNat i := by
  unfold ParamPlan.freight at hfr
  generalize q.pass = pass at h hfr
  cases h with
  | nontrivial | large =>
      simp only [bind_eq_ok] at hfr
      obtain ⟨w, -, hw⟩ := hfr
      cases hw
      exact ha.elim
  | floats | words | image =>
      simp only [bind_eq_ok] at hfr
      obtain ⟨address, haddress, hfr⟩ := hfr
      cases hfr
      rwa [← ArgumentBuffer.eq_value_of_read_eq_ok haddress]

theorem Abi.Passes.trivial_of_copies {abi : Abi} {c : Composite} {pass : Pass}
    (h : abi.Passes c pass) (hcopies : pass.copies = true) : c.trivial = true := by
  cases h with
  | nontrivial | large => cases hcopies
  | floats htrivial | words htrivial | image htrivial => exact htrivial

theorem Abi.Lowers.exists_composite_of_copies {abi : Abi} {t : ValueType} {q : ParamPlan}
    (h : abi.Lowers t q) (hcopies : q.pass.copies = true) :
    ∃ c, t = .ofComposite c ∧ c.trivial = true ∧ abi.Passes c q.pass := by
  obtain ⟨hvalue, c, hkind⟩ := h.kind_of_copies hcopies
  obtain ⟨kind, byRef⟩ := t
  cases hvalue
  cases hkind
  have hpasses := (passes_of_passComposite h.pass).2
  exact ⟨c, rfl, hpasses.trivial_of_copies hcopies, hpasses⟩

/-! ### Other pointers -/

namespace Frame

/-- The frame with other pointers noted. -/
def withObjects (f : Frame) (object second : UInt64) : Frame :=
  { f with object := object, second := second }

variable {f : Frame} {m : Memory} {l : Location} {abi : Abi} {object second : UInt64}

theorem stow_withObjects (fr : Freight) :
    (f.withObjects object second).stow m l fr =
      (f.stow m l fr).map (·.withObjects object second) := by
  cases fr with
  | reserved =>
      simp only [stow]
      split <;> rfl
  | word w =>
      simp only [stow]
      split <;> rfl
  | image address size =>
      simp only [stow, writeImage]
      split
      · rfl
      · split <;> rfl
  | members width address size =>
      simp only [stow, writeImage]
      split
      · rfl
      · split <;> split <;> rfl

theorem board_withObjects {args args' : Arguments} {x : Passenger}
    (h : x.freight args' = x.freight args) :
    (f.withObjects object second).board abi args' m x =
      (f.board abi args m x).map (·.withObjects object second) := by
  unfold board
  rw [h]
  show ((abi.route f.filled x.demand).mapError _ >>= _) = _
  cases abi.route f.filled x.demand with
  | error e => rfl
  | ok place =>
      cases x.freight args with
      | error e => rfl
      | ok fr =>
          -- the cursor moves on before the value is put into its slots
          let g : Frame := { f with filled := place.2 }
          show ((g.withObjects object second).stow m place.1 fr).mapError Failure.broken =
            ((g.stow m place.1 fr).mapError Failure.broken).map (·.withObjects object second)
          rw [stow_withObjects]
          cases g.stow m place.1 fr <;> rfl

theorem foldlM_board_withObjects {args args' : Arguments} {ps : List Passenger}
    (h : ∀ x ∈ ps, x.freight args' = x.freight args) (f : Frame) :
    ps.foldlM (board abi args' m) (f.withObjects object second) =
      (ps.foldlM (board abi args m) f).map (·.withObjects object second) := by
  induction ps generalizing f with
  | nil => rfl
  | cons x ps ih =>
      have ih := ih fun y hy => h y (List.mem_cons_of_mem x hy)
      rw [List.foldlM_cons, List.foldlM_cons, board_withObjects (h x (by simp))]
      cases f.board abi args m x with
      | error e => rfl
      | ok g => exact ih g

end Frame

/-! ### The values of a call -/

namespace Lowering

variable {l : Lowering} {args : Arguments} {object second : UInt64}

theorem needsObject_of_mem (h : .object ∈ l.passengers) : l.convention.needsObject = true := by
  have hrole : Role.object ∈ l.roles := l.role_mem_roles h
  unfold roles at hrole
  cases hc : l.convention with
  | cdecl =>
      simp [hc, Convention.receiverFirst, Convention.isMethod, Convention.secondObjectFirst,
        Convention.trailing] at hrole
  | cdeclObjectFirst | cdeclObjectLast | thiscall | thiscallObjectFirst | thiscallObjectLast
  | virtualThiscall | virtualThiscallObjectFirst | virtualThiscallObjectLast => rfl

theorem needsSecondObject_of_mem (h : .secondObject ∈ l.passengers) :
    l.convention.needsSecondObject = true := by
  have hrole : Role.secondObject ∈ l.roles := l.role_mem_roles h
  unfold roles at hrole
  cases hc : l.convention with
  | cdecl | cdeclObjectFirst | cdeclObjectLast | thiscall | virtualThiscall =>
      simp [hc, Convention.receiverFirst, Convention.isMethod, Convention.secondObjectFirst,
        Convention.trailing] at hrole
  | thiscallObjectFirst | thiscallObjectLast | virtualThiscallObjectFirst
  | virtualThiscallObjectLast => rfl

/-- Pointers that the convention does not pass are not among the values. -/
theorem freight_eq (hobject : l.convention.needsObject = true → object = args.object)
    (hsecond : l.convention.needsSecondObject = true → second = args.second) {x : Passenger}
    (hx : x ∈ l.passengers) : x.freight ⟨args.buffer, object, second⟩ = x.freight args := by
  cases x with
  | hiddenReturn | param index offset plan => rfl
  | object =>
      have hobject := hobject (needsObject_of_mem hx)
      rw [Passenger.freight, Passenger.freight, hobject]
  | secondObject =>
      have hsecond := hsecond (needsSecondObject_of_mem hx)
      rw [Passenger.freight, Passenger.freight, hsecond]

theorem Accepts.withObjects (ha : l.Accepts args)
    (hobject : l.convention.needsObject = true → object = args.object)
    (hsecond : l.convention.needsSecondObject = true → second = args.second) :
    l.Accepts ⟨args.buffer, object, second⟩ where
  buffer := ha.buffer
  object := by
    intro h
    show object ≠ 0
    rw [hobject h]
    exact ha.object h
  second := by
    intro h
    show second ≠ 0
    rw [hsecond h]
    exact ha.second h
  copied := ha.copied

end Lowering

/-! ### Plans -/

namespace Plan

variable {p : Plan} {f : Callable} {abi : Abi} {args : Arguments}

/-- The bytes of the objects that a call copies.  These are the objects passed by value in the
signature whose bytes go into slots; each starts at the address in the buffer, and has as many bytes
as its type. -/
def Reads (p : Plan) (f : Callable) (args : Arguments) (a : UInt64) : Prop :=
  ∃ k c, f.params[k]? = some (.ofComposite c) ∧ (p.passOf (.param k)).copies = true ∧
    ∃ i < c.size.toNat, a = args.buffer.value (p.offset k) 2 + UInt64.ofNat i

/-- Agreement on the copied objects is a check of each of their bytes. -/
theorem agreeOn_reads {m m' : Memory}
    (h : ∀ k (hk : k < f.params.length), (p.passOf (.param k)).copies = true →
      ∀ i < f.params[k].size.toNat, m.byte (args.buffer.value (p.offset k) 2 + UInt64.ofNat i) =
        m'.byte (args.buffer.value (p.offset k) 2 + UInt64.ofNat i)) :
    m.AgreeOn m' (p.Reads f args) := by
  rintro a ⟨k, c, hk, hcopies, i, hi, rfl⟩
  obtain ⟨hlt, ht⟩ := List.getElem?_eq_some_iff.mp hk
  refine h k hlt hcopies i ?_
  rw [ht]
  exact hi

theorem Planned.reads_of_touches (hp : p.Planned f abi) {x : Passenger} (hx : x ∈ p.passengers)
    {fr : Freight} (hfr : x.freight args = .ok fr) {a : UInt64} (ha : fr.Touches a) :
    p.Reads f args a := by
  obtain ⟨rfl, -⟩ | rfl | rfl | ⟨k, q, hq, rfl⟩ := p.mem_passengers hx
  · cases hfr
    exact ha.elim
  · cases hfr
    exact ha.elim
  · cases hfr
    exact ha.elim
  · obtain ⟨t, ht, hlowers⟩ := hp.exists_type hq
    have hcopies := ParamPlan.copies_of_touches hfr ha
    obtain ⟨c, rfl, -, hpasses⟩ := hlowers.exists_composite_of_copies hcopies
    refine ⟨k, c, ht, ?_, hpasses.exists_offset_of_touches hfr ha⟩
    rwa [p.passOf_param hq]

theorem Planned.marshal_congr (hp : p.Planned f abi) {m m' : Memory}
    (h : m.AgreeOn m' (p.Reads f args)) : p.marshal args m = p.marshal args m' := by
  have htouched : ∀ x ∈ p.passengers, ∀ fr, x.freight args = .ok fr → m.AgreeOn m' fr.Touches :=
    fun x hx fr hfr a ha => h a (hp.reads_of_touches hx hfr ha)
  unfold marshal
  rw [fill_eq_foldlM, fill_eq_foldlM, Frame.foldlM_board_congr htouched]

/-- Pointers that the convention does not pass are noted and have no other effect. -/
theorem marshal_withObjects (ha : p.Accepts args) {object second : UInt64}
    (hobject : p.convention.needsObject = true → object = args.object)
    (hsecond : p.convention.needsSecondObject = true → second = args.second) (m : Memory) :
    p.marshal ⟨args.buffer, object, second⟩ m =
      (p.marshal args m).map (·.withObjects object second) := by
  have hfreight : ∀ x ∈ p.passengers, x.freight ⟨args.buffer, object, second⟩ = x.freight args :=
    fun x hx => Lowering.freight_eq hobject hsecond hx
  unfold marshal
  rw [breach?_eq_none ha, breach?_eq_none (ha.withObjects hobject hsecond), fill_eq_foldlM,
    fill_eq_foldlM]
  show (p.passengers.foldlM _ ((Frame.empty args.object args.second).withObjects object second)
    >>= _) = _
  rw [Frame.foldlM_board_withObjects hfreight]
  cases p.passengers.foldlM (Frame.board p.abi args m) (.empty args.object args.second) with
  | error e => rfl
  | ok frame =>
      show (if frame.Fits then _ else _) = Except.map _ (if frame.Fits then _ else _)
      split <;> rfl

/-- Of the memory that a call is made in, marshaling takes the bytes of the copied objects and no
others.  These objects are trivial and passed by value, so that no byte behind a scalar, a handle, a
reference, a receiver or an object passed by its address makes a difference.  Other pointers than
those that the convention passes are noted in the frame and leave its slots alone. -/
theorem marshal_reads_copied (hv : abi.validate = .ok ()) (hp : make f abi = .ok p)
    (ha : p.Accepts args) (m : Memory) :
    (∀ k t, f.params[k]? = some t → (p.passOf (.param k)).copies = true →
        ∃ c, t = .ofComposite c ∧ c.trivial = true) ∧
      ∃ frame, p.marshal args m = .ok frame ∧
        (∀ m' : Memory, m.AgreeOn m' (p.Reads f args) → p.marshal args m' = .ok frame) ∧
        ∀ object second : UInt64, (f.convention.needsObject = true → object = args.object) →
          (f.convention.needsSecondObject = true → second = args.second) →
          p.marshal ⟨args.buffer, object, second⟩ m = .ok (frame.withObjects object second) := by
  have hv := abi.validate_eq_ok_iff.mp hv
  have hp := make_eq_ok_iff.mp hp
  obtain ⟨frame, hmarshal, -⟩ := hp.marshal_eq_ok hv ha m
  refine ⟨?_, frame, hmarshal, ?_, ?_⟩
  · intro k t hk hcopies
    obtain ⟨q, hq, hlowers⟩ := hp.exists_lowers hk
    rw [p.passOf_param hq] at hcopies
    obtain ⟨c, ht, htrivial, -⟩ := hlowers.exists_composite_of_copies hcopies
    exact ⟨c, ht, htrivial⟩
  · intro m' hagree
    rw [← hp.marshal_congr hagree, hmarshal]
  · intro object second hobject hsecond
    rw [← hp.convention_eq] at hobject hsecond
    rw [marshal_withObjects ha hobject hsecond, hmarshal]
    rfl

end Plan

/-- The parameters of the crowded method in a free function. -/
def Callable.crowdedFunction : Callable := { crowded with convention := .cdecl }

/-- Other bytes behind the two pointers of the crowded arguments. -/
def Memory.marked : Memory := (crowded.store 0x6000 [1, 2, 3]).store 0x7000 [4, 5, 6]

theorem Plan.marshal_reads_copied_crowdedFunction : Abi.systemV.validate = .ok () ∧
    ∃ p, make .crowdedFunction .systemV = .ok p ∧ p.Accepts .crowded ∧
      Memory.crowded.AgreeOn .marked (p.Reads .crowdedFunction .crowded) ∧
      ∃ frame, p.marshal .crowded .crowded = .ok frame ∧ p.marshal .crowded .marked = .ok frame ∧
        p.marshal ⟨Arguments.crowded.buffer, 0, 0⟩ .crowded = .ok (frame.withObjects 0 0) := by
  have hp : ∃ p, make .crowdedFunction .systemV = .ok p ∧ p.Accepts .crowded ∧
      Memory.crowded.AgreeOn .marked (p.Reads .crowdedFunction .crowded) := by
    exact ⟨_, rfl, by decide, agreeOn_reads (by decide)⟩
  obtain ⟨p, hp, ha, hagree⟩ := hp
  obtain ⟨-, frame, hmarshal, hmemory, hpointers⟩ := marshal_reads_copied rfl hp ha .crowded
  exact ⟨rfl, p, hp, ha, hagree, frame, hmarshal, hmemory .marked hagree,
    hpointers 0 0 (by decide) (by decide)⟩

end ForeignCall
