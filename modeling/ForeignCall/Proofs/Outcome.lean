import ForeignCall.Proofs.Delivery

/-! # What a call comes to

A caller promises a whole buffer, the pointers of the convention, and an address for every object
whose bytes are copied.  The promises are checked in this order and the first one that does not
hold ends the call (`Lowering.Breaks`); if all of them hold, nothing else can keep the invoker from
being entered.

* The stack limit cannot be hit any more: a plan has a layout only if all values were seated, so
  that on the way to a missing object every value boards (`foldlM_board_eq_error`).
* `Plan.Planned.marshal_eq_error_iff` and `Plan.Planned.realizes_of_marshal` say why arguments are
  not marshaled, and what holds of those that are.
* Behind the invoker a result has to have a destination and nothing more
  (`ResultPlan.deliver_eq_error_iff`).

`call_outcome` puts these together. -/

namespace ForeignCall

/-! ### Broken promises -/

namespace Lowering

variable (l : Lowering) (args : Arguments)

/-- The promise does not hold, and those that are checked before it do. -/
def Breaks : Breach → Prop
  | .argumentCount => args.buffer.size ≠ l.argWords
  | .noObject convention =>
      args.buffer.size = l.argWords ∧ convention = l.convention ∧
        l.convention.needsObject = true ∧ args.object = 0
  | .noSecondObject convention =>
      args.buffer.size = l.argWords ∧ (l.convention.needsObject = true → args.object ≠ 0) ∧
        convention = l.convention ∧ l.convention.needsSecondObject = true ∧ args.second = 0
  | .nullObject =>
      args.buffer.size = l.argWords ∧ (l.convention.needsObject = true → args.object ≠ 0) ∧
        (l.convention.needsSecondObject = true → args.second ≠ 0) ∧
        ∃ k q, l.params[k]? = some q ∧ q.pass.copies = true ∧
          args.buffer.value (l.offset k) 2 = 0
  | .noReceiver | .noDestination | .outOfRange => False

variable {l args}

theorem Breaks.not_accepts {b : Breach} (h : l.Breaks args b) : ¬ l.Accepts args := by
  rintro ⟨hbuffer, hobject, hsecond, hcopied⟩
  cases b with
  | argumentCount => exact h hbuffer
  | noObject convention =>
      obtain ⟨-, -, hneeds, hnull⟩ := h
      exact hobject hneeds hnull
  | noSecondObject convention =>
      obtain ⟨-, -, -, hneeds, hnull⟩ := h
      exact hsecond hneeds hnull
  | nullObject =>
      obtain ⟨-, -, -, k, q, hq, hcopies, hnull⟩ := h
      exact hcopied k q hq hcopies hnull
  | noReceiver | noDestination | outOfRange => exact h

theorem exists_breaks_of_not_accepts (h : ¬ l.Accepts args) : ∃ b, l.Breaks args b := by
  by_cases hbuffer : args.buffer.size = l.argWords
  swap
  · exact ⟨.argumentCount, hbuffer⟩
  by_cases hobject : l.convention.needsObject = true → args.object ≠ 0
  swap
  · obtain ⟨hneeds, hnull⟩ := Classical.not_imp.mp hobject
    exact ⟨.noObject l.convention, hbuffer, rfl, hneeds, not_not.mp hnull⟩
  by_cases hsecond : l.convention.needsSecondObject = true → args.second ≠ 0
  swap
  · obtain ⟨hneeds, hnull⟩ := Classical.not_imp.mp hsecond
    exact ⟨.noSecondObject l.convention, hbuffer, hobject, rfl, hneeds, not_not.mp hnull⟩
  refine ⟨.nullObject, hbuffer, hobject, hsecond, ?_⟩
  by_contra hnone
  refine h ⟨hbuffer, hobject, hsecond, ?_⟩
  intro k q hq hcopies hnull
  exact hnone ⟨k, q, hq, hcopies, hnull⟩

end Lowering

/-! ### Objects without an address -/

theorem ParamPlan.stow_freight_eq_error {abi : Abi} {q : ParamPlan} {b : ArgumentBuffer}
    (hq : q.Sound abi) {offset : Nat} (hb : offset + q.words ≤ b.size)
    (hcopies : q.pass.copies = true) (hnull : b.value offset 2 = 0) :
    ∃ fr, q.freight b offset = .ok fr ∧
      ∀ (f : Frame) m l, f.stow m l fr = .error .nullObject := by
  obtain ⟨-, hreads⟩ := hq
  unfold freight
  cases hp : q.pass with
  | general scalar | float32 | float64 | address =>
      rw [hp] at hcopies
      cases hcopies
  | inlineWords words size align16 | stackImage words size align16
  | floatMembers count width size =>
      rw [hp] at hreads
      rw [ArgumentBuffer.address_eq_ok (by rwa [← hreads])]
      exact ⟨_, rfl, fun f m l => if_pos hnull⟩

namespace Lowering

variable {l : Lowering} {args : Arguments} {m : Memory} {f : Frame}

theorem board_eq_error (hsound : ∀ q ∈ l.params, q.Sound l.abi)
    (hsize : args.buffer.size = l.argWords) {x : Passenger} (hx : x ∈ l.passengers)
    (hn : x.Missing args)
    (hs : (l.abi.assign f.filled x.demand).2.stack ≤ l.abi.stackSlots) :
    Frame.board l.abi args m f x = .error (.broken .nullObject) := by
  obtain ⟨rfl, -⟩ | rfl | rfl | ⟨k, q, hq, rfl⟩ := l.mem_passengers hx
  · exact hn.elim
  · exact hn.elim
  · exact hn.elim
  · obtain ⟨hcopies, hnull⟩ := hn
    have hb : l.offset k + q.words ≤ args.buffer.size := by
      rw [hsize]
      exact l.offset_add_words_le hq
    obtain ⟨fr, hfr, hstow⟩ :=
      q.stow_freight_eq_error (hsound q (List.mem_of_getElem? hq)) hb hcopies hnull
    unfold Frame.board
    rw [Abi.route_eq_ok_iff.mpr ⟨rfl, hs⟩]
    simp only [Except.mapError, bind, Except.bind, Passenger.freight, hfr, hstow]

/-- Values that can be seated board up to the first object without an address. -/
theorem foldlM_board_eq_error (hv : l.abi.Valid) (hsound : ∀ q ∈ l.params, q.Sound l.abi)
    (hsize : args.buffer.size = l.argWords) {c c' : Cursor} {ps : List Passenger}
    {xs : List Placement} (h : l.abi.Seated c ps xs c') (hps : ∀ q ∈ ps, q ∈ l.passengers)
    (hmissing : ∃ q ∈ ps, q.Missing args) (hw : c.Within l.abi) (hfilled : f.filled = c)
    (hclean : f.Clean) :
    ps.foldlM (Frame.board l.abi args m) f = .error (.broken .nullObject) := by
  induction h generalizing f with
  | nil c => simp at hmissing
  | @cons c c' p ps xs hs h ih =>
      subst hfilled
      have hp := hps p (by simp)
      rw [List.foldlM_cons]
      by_cases hn : p.Missing args
      · rw [board_eq_error hsound hsize hp hn hs]
        rfl
      · obtain ⟨g, hboard, hg, hcarries⟩ := board_eq_ok hv hsound hsize hp hn hclean hw hs
        have hrest : ∃ q ∈ ps, q.Missing args := by
          obtain ⟨q, hq, hqn⟩ := hmissing
          rcases List.mem_cons.mp hq with rfl | hq
          · exact absurd hqn hn
          · exact ⟨q, hq, hqn⟩
        rw [hboard]
        exact ih (fun q hq => hps q (List.mem_cons_of_mem p hq)) hrest (hw.assign hs) hg
          (hcarries.clean hv hw hs hclean hg)

end Lowering

/-! ### Which arguments are marshaled -/

namespace Plan

variable {p : Plan} {f : Callable} {abi : Abi} {args : Arguments}

theorem Planned.marshal_eq_error (hv : abi.Valid) (hp : p.Planned f abi) {b : Breach}
    (h : p.Breaks args b) (m : Memory) : p.marshal args m = .error (.broken b) := by
  unfold marshal breach?
  cases b with
  | argumentCount =>
      have hsize : args.buffer.size ≠ p.argWords := h
      rw [if_pos hsize]
  | noObject convention =>
      obtain ⟨hbuffer, rfl, hneeds, hnull⟩ := h
      rw [if_neg (not_not.mpr hbuffer), if_pos ⟨hneeds, hnull⟩]
  | noSecondObject convention =>
      obtain ⟨hbuffer, hobject, rfl, hneeds, hnull⟩ := h
      rw [if_neg (not_not.mpr hbuffer), if_neg (fun h => hobject h.1 h.2), if_pos ⟨hneeds, hnull⟩]
  | nullObject =>
      obtain ⟨hbuffer, hobject, hsecond, k, q, hq, hmissing⟩ := h
      obtain ⟨c, hs⟩ := hp.seated
      have hfold := Lowering.foldlM_board_eq_error (m := m) (hp.valid hv) (hp.sound hv) hbuffer hs
        (fun q hq => hq) ⟨_, p.param_mem_passengers hq, hmissing⟩ (Cursor.within_start p.abi) rfl
        (Frame.clean_empty args.object args.second)
      rw [if_neg (not_not.mpr hbuffer), if_neg (fun h => hobject h.1 h.2),
        if_neg (fun h => hsecond h.1 h.2), fill_eq_foldlM]
      simp only [hfold]
      rfl
  | noReceiver | noDestination | outOfRange => exact h.elim

theorem Planned.marshal_eq_error_iff (hv : abi.Valid) (hp : p.Planned f abi) {m : Memory}
    {e : Failure} : p.marshal args m = .error e ↔ ∃ b, e = .broken b ∧ p.Breaks args b := by
  constructor
  · intro h
    by_cases ha : p.Accepts args
    · obtain ⟨frame, hframe, -⟩ := hp.marshal_eq_ok hv ha m
      rw [hframe] at h
      cases h
    · obtain ⟨b, hb⟩ := Lowering.exists_breaks_of_not_accepts ha
      rw [hp.marshal_eq_error hv hb m] at h
      cases h
      exact ⟨b, rfl, hb⟩
  · rintro ⟨b, rfl, hb⟩
    exact hp.marshal_eq_error hv hb m

/-- Only arguments that keep all promises are marshaled, and what comes out is their frame. -/
theorem Planned.realizes_of_marshal (hv : abi.Valid) (hp : p.Planned f abi) {m : Memory}
    {frame : Frame} (h : p.marshal args m = .ok frame) :
    p.Accepts args ∧ p.Realizes args m frame := by
  have ha : p.Accepts args := by
    by_contra hn
    obtain ⟨b, hb⟩ := Lowering.exists_breaks_of_not_accepts hn
    rw [hp.marshal_eq_error hv hb m] at h
    cases h
  obtain ⟨frame', hframe', hr⟩ := hp.marshal_eq_ok hv ha m
  rw [h] at hframe'
  cases hframe'
  exact ⟨ha, hr⟩

end Plan

/-! ### Behind the invoker -/

namespace Plan.Realizes

variable {p : Plan} {f : Callable} {abi : Abi} {args : Arguments} {m : Memory} {frame : Frame}

theorem stack_le (hv : abi.Valid) (hp : p.Planned f abi) (h : p.Realizes args m frame) :
    frame.filled.stack ≤ stackCapacity := by
  have hle := h.within .stack
  rw [hp.abi_eq] at hle
  exact Nat.le_trans hle (abi.budget_le_capacity hv .stack)

theorem returnSlot_lt (hv : abi.Valid) (hp : p.Planned f abi) (h : p.Realizes args m frame)
    {slot : Nat} (hslot : frame.returnSlot = some slot) : slot < generalCapacity := by
  have hreturn := hp.returnSlot_eq hv h
  rw [hslot] at hreturn
  split at hreturn
  · cases hreturn
    decide
  · cases hreturn

theorem exists_block (hv : abi.Valid) (hp : p.Planned f abi) (h : p.Realizes args m frame)
    (target destination : UInt64) (variant : Variant) :
    ∃ b, Block.ofEntry ⟨frame, target, variant, destination⟩ = .ok b :=
  ⟨_, Block.ofEntry_eq (h.stack_le hv hp) fun _ _ => h.returnSlot_lt hv hp⟩

end Plan.Realizes

namespace Abi

variable {abi : Abi}

theorem eq_void_of_size_eq_zero {r : ResultType} {mechanism : Mechanism}
    (h : abi.mechanism r = .ok mechanism) (hs : r.size = 0) : r = .void := by
  cases r with
  | void => rfl
  | value t =>
      obtain ⟨kind, byRef⟩ := t
      cases byRef with
      | true => cases hs
      | false =>
          cases kind with
          | scalar s => cases s <;> cases hs
          | handle => cases hs
          | composite c =>
              have hpos : 0 < c.size.toNat :=
                size_pos_of_objection? (returns_of_returnComposite h).1
              have hzero : c.size = 0 := hs
              rw [hzero] at hpos
              cases hpos

theorem writesNothing_iff {r : ResultType} {p : ResultPlan} (h : abi.lowerResult r = .ok p) :
    p.writesNothing = true ↔ p.mechanism = .void ∨ p.mechanism = .memory := by
  obtain ⟨hm, hs⟩ := lowerResult_eq_ok_iff.mp h
  simp only [ResultPlan.writesNothing, Bool.or_eq_true, decide_eq_true_eq]
  constructor
  · rintro ((hvoid | hmemory) | hsize)
    · exact Or.inl hvoid
    · exact Or.inr hmemory
    · have hr := eq_void_of_size_eq_zero hm (hs.symm.trans hsize)
      subst hr
      exact Or.inl (Except.ok.inj hm).symm
  · intro h
    exact Or.inl h

end Abi

/-- The only thing that keeps a result from being delivered is a missing destination. -/
theorem ResultPlan.deliver_eq_error_iff {abi : Abi} {p : ResultPlan} (hv : abi.Valid)
    (hb : p.Bounded abi) {r : ResultRegisters} {destination : UInt64} {m : Memory} {b : Breach} :
    p.deliver r destination m = .error b ↔
      b = .noDestination ∧ p.writesNothing = false ∧ destination = 0 := by
  by_cases hd : p.writesNothing = false → destination ≠ 0
  · obtain ⟨m', hm'⟩ := deliver_eq_ok hv hb hd r m
    rw [hm']
    constructor
    · intro h
      cases h
    · rintro ⟨-, hw, h0⟩
      exact absurd h0 (hd hw)
  · obtain ⟨hw, h0⟩ := Classical.not_imp.mp hd
    have h0 := not_not.mp h0
    have herror : p.deliver r destination m = .error .noDestination := by
      unfold deliver
      rw [if_neg (by simp [hw]), if_pos h0]
    rw [herror]
    constructor
    · intro h
      cases h
      exact ⟨rfl, hw, h0⟩
    · rintro ⟨rfl, -, -⟩
      rfl

/-! ### One call -/

namespace Caller

variable {c : Caller} {p : Plan} {args : Arguments} {destination target : UInt64}
  {run : Behaviour} {m m₁ : Memory} {frame : Frame}

theorem call_of_abi_ne (h : p.abi ≠ c.abi) :
    c.call p args destination run m =
      ⟨[], m, [], .error (.refused (.abiMismatch p.abi.arch c.abi.arch))⟩ :=
  if_pos h

theorem call_of_marshal_eq_error (habi : p.abi = c.abi) {e : Failure}
    (hmarshal : p.marshal args m = .error e) :
    c.call p args destination run m = ⟨[], m, [], .error e⟩ := by
  unfold call
  rw [if_neg (not_not.mpr habi), hmarshal]

theorem call_of_breaks {f : Callable} {abi : Abi} (hv : abi.Valid) (hp : p.Planned f abi)
    (habi : p.abi = c.abi) {b : Breach} (hb : p.Breaks args b) (destination : UInt64)
    (run : Behaviour) (m : Memory) :
    c.call p args destination run m = ⟨[], m, [], .error (.broken b)⟩ :=
  call_of_marshal_eq_error habi (hp.marshal_eq_error hv hb m)

theorem call_of_run_eq_error {b : Breach} (habi : p.abi = c.abi)
    (hmarshal : p.marshal args m = .ok frame)
    (htarget : p.target.resolve args.object m = .ok target)
    (hrun : run ⟨frame, target, p.result.variant, destination⟩ m = .error b) :
    c.call p args destination run m =
      ⟨[⟨frame, target, p.result.variant, destination⟩], m,
        [Event.ofFrame p.convention frame,
          c.callEvent p ⟨frame, target, p.result.variant, destination⟩],
        .error (.broken b)⟩ := by
  unfold call
  rw [if_neg (not_not.mpr habi), hmarshal]
  simp only [htarget, hrun]

theorem call_of_deliver_eq_error {registers : ResultRegisters} {b : Breach} (habi : p.abi = c.abi)
    (hmarshal : p.marshal args m = .ok frame)
    (htarget : p.target.resolve args.object m = .ok target)
    (hrun : run ⟨frame, target, p.result.variant, destination⟩ m = .ok (registers, m₁))
    (hdeliver : p.result.deliver registers destination m₁ = .error b) :
    c.call p args destination run m =
      ⟨[⟨frame, target, p.result.variant, destination⟩], m₁,
        [Event.ofFrame p.convention frame,
          c.callEvent p ⟨frame, target, p.result.variant, destination⟩],
        .error (.broken b)⟩ := by
  unfold call
  rw [if_neg (not_not.mpr habi), hmarshal]
  simp only [htarget, hrun, hdeliver]

/-- A call that enters the invoker, and how it ends. -/
structure Enters (c : Caller) (p : Plan) (args : Arguments) (destination : UInt64)
    (run : Behaviour) (m : Memory) (e : Entry) : Prop where
  entries : (c.call p args destination run m).entries = [e]
  marshal : p.marshal args m = .ok e.frame
  resolve : p.target.resolve args.object m = .ok e.target
  block : ∃ b, Block.ofEntry e = .ok b
  run_error : ∀ b, run e m = .error b →
    (c.call p args destination run m).result = .error (.broken b)
  result_error_iff : ∀ r m₁, run e m = .ok (r, m₁) → ∀ failure,
    (c.call p args destination run m).result = .error failure ↔
      failure = .broken .noDestination ∧ destination = 0 ∧ p.result.mechanism ≠ .void ∧
        p.result.mechanism ≠ .memory

theorem exists_enters {f : Callable} {abi : Abi} (hv : abi.Valid) (hp : p.Planned f abi)
    (habi : p.abi = c.abi) (ha : p.Accepts args) (destination : UInt64) (run : Behaviour)
    (m : Memory) : ∃ e, c.Enters p args destination run m e := by
  obtain ⟨frame, hmarshal, hframe⟩ := hp.marshal_eq_ok hv ha m
  obtain ⟨target, htarget⟩ := hp.resolve_eq_ok ha m
  have hbounded := Abi.bounded_lowerResult hv hp.result
  have hnothing : p.result.writesNothing = false ↔
      p.result.mechanism ≠ .void ∧ p.result.mechanism ≠ .memory := by
    rw [← Bool.not_eq_true, Abi.writesNothing_iff hp.result, not_or]
  refine ⟨⟨frame, target, p.result.variant, destination⟩, ?_, hmarshal, htarget,
    hframe.exists_block hv hp target destination _, ?_, ?_⟩
  · cases hrun : run ⟨frame, target, p.result.variant, destination⟩ m with
    | error b => rw [call_of_run_eq_error habi hmarshal htarget hrun]
    | ok out =>
        obtain ⟨r, m₁⟩ := out
        cases hdeliver : p.result.deliver r destination m₁ with
        | error b => rw [call_of_deliver_eq_error habi hmarshal htarget hrun hdeliver]
        | ok m₂ => rw [call_eq habi hmarshal htarget hrun hdeliver]
  · intro b hrun
    rw [call_of_run_eq_error habi hmarshal htarget hrun]
  · intro r m₁ hrun failure
    rw [← hnothing]
    cases hdeliver : p.result.deliver r destination m₁ with
    | error b =>
        rw [call_of_deliver_eq_error habi hmarshal htarget hrun hdeliver]
        obtain ⟨rfl, hw, h0⟩ := (ResultPlan.deliver_eq_error_iff hv hbounded).mp hdeliver
        simp [hw, h0, eq_comm]
    | ok m₂ =>
        rw [call_eq habi hmarshal htarget hrun hdeliver]
        have hd : ¬ (destination = 0 ∧ p.result.writesNothing = false) := by
          rintro ⟨h0, hw⟩
          rw [(ResultPlan.deliver_eq_error_iff hv hbounded).mpr ⟨rfl, hw, h0⟩] at hdeliver
          cases hdeliver
        simp [hd]

/-- A call that entered the invoker fails through what was invoked, or for want of a destination. -/
theorem Enters.failure_eq {e : Entry} (h : c.Enters p args destination run m e) {failure : Failure}
    (hf : (c.call p args destination run m).result = .error failure) :
    (∃ b, run e m = .error b ∧ failure = .broken b) ∨ failure = .broken .noDestination := by
  cases hrun : run e m with
  | error b =>
      rw [h.run_error b hrun] at hf
      cases hf
      exact Or.inl ⟨b, rfl, rfl⟩
  | ok out => exact Or.inr ((h.result_error_iff out.1 out.2 hrun failure).mp hf).1

theorem make_valid {abi : Abi} {trace : Bool} {invoker : Invoker}
    (h : make abi trace invoker = .ok c) : c.abi.Valid := by
  obtain ⟨hvalid, -, -, rfl⟩ := make_eq_ok_iff.mp h
  exact abi.validate_eq_ok_iff.mp hvalid

/-- What happens on any call.  A plan for another ABI is refused before anything else is looked at.
For the caller's own ABI nothing is refused: the invoker is entered once if the arguments keep all
promises, and otherwise the call ends with the first promise that is broken, without a trace.  Behind
the invoker only a missing destination can go wrong, where the result needs one. -/
theorem call_outcome {abi abi' : Abi} {trace : Bool} {invoker : Invoker} {c : Caller}
    {f : Callable} {p : Plan} (hc : make abi trace invoker = .ok c)
    (hp : Plan.make f abi' = .ok p) (args : Arguments) (destination : UInt64) (run : Behaviour)
    (m : Memory) :
    ((∃ planned configured, (c.call p args destination run m).result =
        .error (.refused (.abiMismatch planned configured))) ↔ p.abi ≠ c.abi) ∧
      (p.abi ≠ c.abi → c.call p args destination run m =
        ⟨[], m, [], .error (.refused (.abiMismatch p.abi.arch c.abi.arch))⟩) ∧
      (p.abi = c.abi →
        (∀ e, (c.call p args destination run m).result ≠ .error (.refused e)) ∧
          ((∃ e, (c.call p args destination run m).entries = [e]) ↔ p.Accepts args) ∧
          (p.Accepts args → ∃ e, c.Enters p args destination run m e) ∧
          (¬ p.Accepts args → ∃ b, p.Breaks args b) ∧
          ∀ b, p.Breaks args b → c.call p args destination run m = ⟨[], m, [], .error (.broken b)⟩) ∧
      ((c.call p args destination run m).entries = [] ∨
        ∃ e, (c.call p args destination run m).entries = [e]) ∧
      ((c.call p args destination run m).entries = [] →
        (c.call p args destination run m).memory = m) ∧
      ((∀ e m', run e m' ≠ .error .noReceiver) →
        (c.call p args destination run m).result ≠ .error (.broken .noReceiver)) := by
  have hp := Plan.make_eq_ok_iff.mp hp
  by_cases habi : p.abi = c.abi
  swap
  · rw [call_of_abi_ne habi]
    exact ⟨iff_of_true ⟨_, _, rfl⟩ habi, fun _ => rfl, fun h => absurd h habi, Or.inl rfl,
      fun _ => rfl, fun _ => nofun⟩
  have hv : abi'.Valid := by
    rw [← hp.abi_eq, habi]
    exact make_valid hc
  by_cases ha : p.Accepts args
  · obtain ⟨e, he⟩ := exists_enters hv hp habi ha destination run m
    have hrefused : ∀ e, (c.call p args destination run m).result ≠ .error (.refused e) := by
      intro e hresult
      obtain ⟨b, -, hb⟩ | hb := he.failure_eq hresult
      · cases hb
      · cases hb
    refine ⟨?_, ?_, ?_, ?_, ?_, ?_⟩
    · exact iff_of_false (fun ⟨_, _, h⟩ => hrefused _ h) (not_not.mpr habi)
    · intro hne
      exact absurd habi hne
    · intro _
      refine ⟨hrefused, iff_of_true ⟨e, he.entries⟩ ha, fun _ => ⟨e, he⟩, ?_, ?_⟩
      · intro hn
        exact absurd ha hn
      · intro b hb
        exact absurd ha hb.not_accepts
    · exact Or.inr ⟨e, he.entries⟩
    · intro hnone
      rw [he.entries] at hnone
      cases hnone
    · -- a receiver can only be missed by what was invoked
      intro hrun hresult
      obtain ⟨b, hb, heq⟩ | hb := he.failure_eq hresult
      · cases heq
        exact hrun e m hb
      · cases hb
  · have hbreaks := fun b (hb : p.Breaks args b) => call_of_breaks hv hp habi hb destination run m
    obtain ⟨b, hb⟩ := Lowering.exists_breaks_of_not_accepts ha
    have hcall := hbreaks b hb
    refine ⟨?_, ?_, ?_, ?_, ?_, ?_⟩
    · rw [hcall]
      exact iff_of_false nofun (not_not.mpr habi)
    · intro hne
      exact absurd habi hne
    · intro _
      refine ⟨?_, ?_, ?_, fun _ => ⟨b, hb⟩, hbreaks⟩
      · rw [hcall]
        exact nofun
      · rw [hcall]
        exact iff_of_false nofun ha
      · intro h
        exact absurd h ha
    · rw [hcall]
      exact Or.inl rfl
    · rw [hcall]
      exact fun _ => rfl
    · rw [hcall]
      rintro - heq
      cases heq
      exact hb

theorem call_outcome_crowded :
    ∃ c, make .systemV false ⟨.x86_64, .systemV⟩ = .ok c ∧
      ∃ p, Plan.make .crowded .systemV = .ok p ∧ p.Accepts .crowded ∧
        (∀ destination run m, ∃ e,
          (c.call p .crowded destination run m).entries = [e]) ∧
        ∀ destination run m,
          c.call p { Arguments.crowded with second := 0 } destination run m =
            ⟨[], m, [], .error (.broken (.noSecondObject .thiscallObjectLast))⟩ := by
  have hc : ∃ c, make .systemV false ⟨.x86_64, .systemV⟩ = .ok c ∧
      ∃ p, Plan.make .crowded .systemV = .ok p ∧ p.abi = c.abi ∧ p.Accepts .crowded ∧
        p.Breaks { Arguments.crowded with second := 0 } (.noSecondObject .thiscallObjectLast) :=
    ⟨_, rfl, _, rfl, rfl, by decide, rfl, fun _ => by decide, rfl, rfl, rfl⟩
  obtain ⟨c, hc, p, hp, habi, ha, hb⟩ := hc
  refine ⟨c, hc, p, hp, ha, ?_, ?_⟩
  · intro destination run m
    obtain ⟨-, -, hsame, -⟩ := call_outcome hc hp .crowded destination run m
    exact (hsame habi).2.1.mpr ha
  · intro destination run m
    obtain ⟨-, -, hsame, -⟩ :=
      call_outcome hc hp { Arguments.crowded with second := 0 } destination run m
    exact (hsame habi).2.2.2.2 _ hb

end Caller

end ForeignCall
