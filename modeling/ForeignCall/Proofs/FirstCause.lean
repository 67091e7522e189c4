import ForeignCall.Proofs.Refusal
import ForeignCall.Proofs.StackLimit
import ForeignCall.Signature
import Mathlib.Data.List.Lex

/-! # The first cause of a refused signature

What can be wrong with a signature is listed by `Signature.Cause`, and `Signature.Holds` says for
each cause what it means for the signature, without looking at the order in which planning works.
Causes have positions, compared like words in a dictionary: all of one stage before all of the next,
and within a stage by the index of the parameter and then by the objection.

Planning walks through the positions from left to right.  `Signature.Clear` says that no cause in
front of a position holds.  A step `Advances` from one position to a later one: if everything in
front of the first is clear, then a success of the step clears everything in front of the second,
and a failure reports the first cause that holds.

* Steps are put together by `Advances.bind`.
* There is one step for each parameter in two of the stages (`advances_valueType`, `advances_pass`),
  and from it the walk over all parameters by induction (`advances_paramTypes`,
  `advances_lowerParams`).
* An object may draw several objections, of which the first is reported (`advances_objections`).

`plan_reports_first_cause` is the walk from the first position to the end. -/

namespace ForeignCall

/-! ### Written types -/

namespace TypeSpec

variable {t : TypeSpec} {v : ValueType} {subject : Subject}

/-- The object that a type describes, where it is passed by value. -/
def object? (t : TypeSpec) : Option Composite :=
  if t.type = .object ∧ t.byRef = false then
    t.size.map fun size => ⟨size, t.align, t.members.getD .integer, t.trivial⟩
  else none

theorem valueType_eq_error_iff {e : SignatureError} : t.valueType subject = .error e ↔
    t.type = .void ∧ e = .void subject ∨
      (t.type = .object ∧ t.size = none) ∧ e = .unsized subject := by
  unfold valueType
  cases ht : t.type with
  | scalar p | handle => simp
  | void => simp [eq_comm]
  | object =>
      cases hs : t.size with
      | none => simp [eq_comm]
      | some size => simp

theorem object?_eq_some_iff (h : t.valueType subject = .ok v) {c : Composite} :
    t.object? = some c ↔ v = .ofComposite c := by
  unfold valueType at h
  unfold object? ValueType.ofComposite
  cases ht : t.type with
  | void => simp [ht] at h
  | scalar p | handle =>
      simp only [ht, Except.ok.injEq] at h
      simp [← h]
  | object =>
      cases hs : t.size with
      | none => simp [ht, hs] at h
      | some size =>
          simp only [ht, hs, Except.ok.injEq] at h
          cases hr : t.byRef with
          | true => simp [← h, hr]
          | false => simp [← h, hr]

end TypeSpec

namespace Abi

variable {abi : Abi} {t : TypeSpec} {v : ValueType} {subject : Subject} {o : Obstacle}

theorem pass_eq_error_iff (hv : abi.Valid) (h : t.valueType subject = .ok v) :
    abi.pass v = .error o ↔ ∃ c, t.object? = some c ∧
      ∃ j, o = .objection j ∧ c.DrawsFirst (abi.MixesParameter c) j := by
  simp only [TypeSpec.object?_eq_some_iff h, ← passComposite_eq_error_iff hv]
  obtain ⟨kind, byRef⟩ := v
  unfold pass ValueType.ofComposite
  cases byRef with
  | true => simp
  | false =>
      cases kind with
      | scalar p => cases p <;> simp
      | handle | composite c => simp

theorem mechanism_value_eq_error_iff (hv : abi.Valid) (h : t.valueType subject = .ok v) :
    abi.mechanism (.value v) = .error o ↔ ∃ c, t.object? = some c ∧
      ∃ j, o = .objection j ∧ c.DrawsFirst (abi.MixesResult c) j := by
  simp only [TypeSpec.object?_eq_some_iff h, ← returnComposite_eq_error_iff_drawsFirst hv]
  obtain ⟨kind, byRef⟩ := v
  unfold mechanism ValueType.ofComposite
  cases byRef with
  | true => simp
  | false =>
      cases kind with
      | scalar p => cases p <;> simp
      | handle | composite c => simp

end Abi

namespace Signature

/-! ### Causes -/

/-- What can be wrong with a signature for an ABI. -/
inductive Cause where
  | voidParameter (k : Nat)
  | unsizedParameter (k : Nat)
  | unsizedResult
  | target
  | parameter (k : Nat) (o : Objection)
  | result (o : Objection)
  | stack

/-- Where planning comes across the cause. -/
def Cause.position : Cause → List Nat
  | voidParameter k | unsizedParameter k => [0, k]
  | unsizedResult => [1]
  | target => [2]
  | parameter k o => [3, k, o.rank]
  | result o => [4, o.rank]
  | stack => [5]

/-- What the cause says about the signature. -/
def Holds (s : Signature) (abi : Abi) : Cause → Prop
  | .voidParameter k => ∃ t, s.params[k]? = some t ∧ t.type = .void
  | .unsizedParameter k => ∃ t, s.params[k]? = some t ∧ t.type = .object ∧ t.size = none
  | .unsizedResult => ∃ t, s.returns = some t ∧ t.type = .object ∧ t.size = none
  | .target => s.convention.isVirtual ≠ s.virtualSlot.isSome
  | .parameter k o => ∃ t, s.params[k]? = some t ∧
      ∃ c, t.object? = some c ∧ c.Draws (abi.MixesParameter c) o
  | .result o => ∃ t, s.returns = some t ∧
      ∃ c, t.object? = some c ∧ c.Draws (abi.MixesResult c) o
  | .stack => ∃ f l, s.callable = .ok f ∧ f.lower abi = .ok l ∧ abi.stackSlots < l.stackNeed

/-- The failure is how the cause is reported. -/
def Reports (s : Signature) (abi : Abi) (e : PlanFailure) : Cause → Prop
  | .voidParameter k => e = .signature (.void (.parameter k))
  | .unsizedParameter k => e = .signature (.unsized (.parameter k))
  | .unsizedResult => e = .signature (.unsized .result)
  | .target => e = .call (.refused (.targetMismatch s.convention s.target.kind))
  | .parameter k o => e = .call (.refused (.unsupportedParameter k abi.arch o))
  | .result o => e = .call (.refused (.unsupportedReturn abi.arch o))
  | .stack => ∃ f l needed, s.callable = .ok f ∧ f.lower abi = .ok l ∧ l.Overflows needed ∧
      e = .call (.refused (.tooManyArguments abi.arch needed abi.stackSlots))

/-- No cause in front of the position holds. -/
def Clear (s : Signature) (abi : Abi) (position : List Nat) : Prop :=
  ∀ c : Cause, c.position < position → ¬ s.Holds abi c

/-- The cause holds, and none in front of it does. -/
def First (s : Signature) (abi : Abi) (c : Cause) : Prop :=
  s.Holds abi c ∧ s.Clear abi c.position

/-! ### Steps -/

section

variable {s : Signature} {abi : Abi} {start middle stop : List Nat} {ε ε' α β : Type}
  {wrap : ε → PlanFailure}

/-- A success of the step clears what lies between the positions, and a failure is the first cause
that holds. -/
def Advances (s : Signature) (abi : Abi) (start stop : List Nat) (wrap : ε → PlanFailure)
    (x : Except ε α) : Prop :=
  s.Clear abi start → (∀ v, x = .ok v → s.Clear abi stop) ∧
    ∀ e, x = .error e → ∃ c, s.First abi c ∧ s.Reports abi (wrap e) c

theorem Clear.extend (h : s.Clear abi start)
    (hnew : ∀ c : Cause, ¬ c.position < start → c.position < stop → ¬ s.Holds abi c) :
    s.Clear abi stop := by
  intro c hc
  by_cases hlt : c.position < start
  · exact h c hlt
  · exact hnew c hlt hc

theorem advances_ok (h : s.Clear abi start → s.Clear abi stop) (v : α) :
    s.Advances abi start stop wrap (.ok v) := by
  intro hclear
  refine ⟨fun _ _ => h hclear, ?_⟩
  intro e he
  cases he

theorem Advances.bind {x : Except ε α} {f : α → Except ε β}
    (hx : s.Advances abi start middle wrap x)
    (hf : ∀ v, x = .ok v → s.Advances abi middle stop wrap (f v)) :
    s.Advances abi start stop wrap (x >>= f) := by
  intro hclear
  obtain ⟨hok, herror⟩ := hx hclear
  cases h : x with
  | ok v => exact hf v h (hok v h)
  | error e =>
      refine ⟨nofun, ?_⟩
      intro e' he
      cases he
      exact herror e h

theorem Advances.mapError {g : ε → ε'} {wrap : ε' → PlanFailure} {x : Except ε α}
    (hx : s.Advances abi start stop (fun e => wrap (g e)) x) :
    s.Advances abi start stop wrap (x.mapError g) := by
  intro hclear
  obtain ⟨hok, herror⟩ := hx hclear
  cases h : x with
  | ok v => exact ⟨fun _ _ => hok v h, nofun⟩
  | error e =>
      refine ⟨nofun, ?_⟩
      intro e' he
      cases he
      exact herror e h

/-! ### Written types, in the order of the signature -/

theorem position_parameterType {k : Nat} {c : Cause} (hge : ¬ c.position < [0, k])
    (hlt : c.position < [0, k + 1]) : c = .voidParameter k ∨ c = .unsizedParameter k := by
  cases c with
  | voidParameter j | unsizedParameter j =>
      have hk : k ≤ j := by simpa [Cause.position, List.cons_lt_cons_iff] using hge
      have hj : j < k + 1 := by simpa [Cause.position, List.cons_lt_cons_iff] using hlt
      obtain rfl : j = k := by omega
      simp
  | unsizedResult | target | parameter j o | result o | stack =>
      simp [Cause.position, List.cons_lt_cons_iff] at hlt

theorem advances_valueType {k : Nat} {t : TypeSpec} (h : s.params[k]? = some t) :
    s.Advances abi [0, k] [0, k + 1] .signature (t.valueType (.parameter k)) := by
  intro hclear
  constructor
  · intro v hv
    have hn : ∀ e, t.valueType (.parameter k) ≠ .error e := by simp [hv]
    refine hclear.extend fun c hge hlt => ?_
    obtain rfl | rfl := position_parameterType hge hlt
    · rintro ⟨t', ht', hvoid⟩
      rw [h, Option.some.injEq] at ht'
      subst ht'
      exact hn _ (TypeSpec.valueType_eq_error_iff.mpr (Or.inl ⟨hvoid, rfl⟩))
    · rintro ⟨t', ht', hunsized⟩
      rw [h, Option.some.injEq] at ht'
      subst ht'
      exact hn _ (TypeSpec.valueType_eq_error_iff.mpr (Or.inr ⟨hunsized, rfl⟩))
  · intro e he
    obtain ⟨hvoid, rfl⟩ | ⟨hunsized, rfl⟩ := TypeSpec.valueType_eq_error_iff.mp he
    · exact ⟨.voidParameter k, ⟨⟨t, h, hvoid⟩, hclear⟩, rfl⟩
    · exact ⟨.unsizedParameter k, ⟨⟨t, h, hunsized⟩, hclear⟩, rfl⟩

theorem Clear.parameterTypes {k : Nat} (hk : s.params.length ≤ k) (h : s.Clear abi [0, k]) :
    s.Clear abi [1] := by
  refine h.extend fun c hge hlt => ?_
  cases c with
  | voidParameter j | unsizedParameter j =>
      rintro ⟨t, ht, -⟩
      have hj : j < s.params.length := (List.getElem?_eq_some_iff.mp ht).1
      have hge : k ≤ j := by simpa [Cause.position, List.cons_lt_cons_iff] using hge
      omega
  | unsizedResult | target | parameter j o | result o | stack =>
      simp [Cause.position, List.cons_lt_cons_iff] at hlt

theorem getElem?_of_drop_eq_cons {k : Nat} {xs rest : List α} {x : α}
    (h : xs.drop k = x :: rest) : xs[k]? = some x ∧ xs.drop (k + 1) = rest := by
  constructor
  · rw [← Nat.add_zero k, ← List.getElem?_drop, h]
    rfl
  · rw [← List.tail_drop, h]
    rfl

theorem advances_paramTypes {k : Nat} {ts : List TypeSpec} (h : s.params.drop k = ts) :
    s.Advances abi [0, k] [1] .signature (paramTypes k ts) := by
  induction ts generalizing k with
  | nil => exact advances_ok (Clear.parameterTypes (List.drop_eq_nil_iff.mp h)) []
  | cons t ts ih =>
      obtain ⟨ht, hrest⟩ := getElem?_of_drop_eq_cons h
      apply Advances.bind (advances_valueType ht)
      intro v hv
      apply Advances.bind (ih hrest)
      intro vs hvs
      exact advances_ok id _

theorem resultType_eq_error_iff {r : Option TypeSpec} {e : SignatureError} :
    resultType r = .error e ↔
      ∃ t, r = some t ∧ (t.type = .object ∧ t.size = none) ∧ e = .unsized .result := by
  cases r with
  | none => simp [resultType]
  | some t =>
      unfold resultType
      by_cases ht : t.type = .void
      · simp [ht]
      · have hvalue : t.valueType .result = .error e ↔ _ := TypeSpec.valueType_eq_error_iff
        simp only [ht, false_and, false_or] at hvalue
        simp only [if_neg ht, Option.some.injEq, exists_eq_left', ← hvalue]
        cases t.valueType .result with
        | ok v => simp [bind, Except.bind, pure, Except.pure]
        | error e' => simp [bind, Except.bind]

theorem position_resultType {c : Cause} (hge : ¬ c.position < [1]) (hlt : c.position < [2]) :
    c = .unsizedResult := by
  cases c with
  | unsizedResult => rfl
  | voidParameter j | unsizedParameter j => simp [Cause.position, List.cons_lt_cons_iff] at hge
  | target | parameter j o | result o | stack =>
      simp [Cause.position, List.cons_lt_cons_iff] at hlt

theorem advances_resultType :
    s.Advances abi [1] [2] .signature (resultType s.returns) := by
  intro hclear
  constructor
  · intro r hr
    refine hclear.extend fun c hge hlt => ?_
    obtain rfl := position_resultType hge hlt
    rintro ⟨t, ht, hunsized⟩
    have he := resultType_eq_error_iff.mpr ⟨t, ht, hunsized, rfl⟩
    rw [hr] at he
    cases he
  · intro e he
    obtain ⟨t, ht, hunsized, rfl⟩ := resultType_eq_error_iff.mp he
    exact ⟨.unsizedResult, ⟨⟨t, ht, hunsized⟩, hclear⟩, rfl⟩

/-- There is nothing in front of the first parameter. -/
theorem clear_start (s : Signature) (abi : Abi) : s.Clear abi [0, 0] := by
  intro c hc
  cases c with
  | voidParameter j | unsizedParameter j | unsizedResult | target | parameter j o | result o
  | stack => simp [Cause.position, List.cons_lt_cons_iff] at hc

theorem advances_callable : s.Advances abi [0, 0] [2] .signature s.callable := by
  apply Advances.bind (advances_paramTypes rfl)
  intro params hparams
  apply Advances.bind advances_resultType
  intro result hresult
  exact advances_ok id _

/-! ### The target -/

theorem position_target {c : Cause} (hge : ¬ c.position < [2]) (hlt : c.position < [3, 0]) :
    c = .target := by
  cases c with
  | target => rfl
  | voidParameter j | unsizedParameter j | unsizedResult =>
      simp [Cause.position, List.cons_lt_cons_iff] at hge
  | parameter j o | result o | stack => simp [Cause.position, List.cons_lt_cons_iff] at hlt

theorem callable_eq_ok_iff {f : Callable} : s.callable = .ok f ↔
    ∃ params result, paramTypes 0 s.params = .ok params ∧ resultType s.returns = .ok result ∧
      f = ⟨s.target, s.convention, params, result⟩ := by
  simp only [callable, bind_eq_ok]
  constructor
  · rintro ⟨params, hparams, result, hresult, he⟩
    cases he
    exact ⟨params, result, hparams, hresult, rfl⟩
  · rintro ⟨params, result, hparams, hresult, rfl⟩
    exact ⟨params, hparams, result, hresult, rfl⟩

theorem targetMatches_iff {f : Callable} (h : s.callable = .ok f) :
    f.targetMatches = true ↔ ¬ s.Holds abi .target := by
  obtain ⟨params, result, -, -, rfl⟩ := callable_eq_ok_iff.mp h
  unfold Callable.targetMatches Holds target
  cases s.virtualSlot with
  | none => simp [Target.kind]
  | some slot => simp [Target.kind]

/-! ### Values, in the order of the signature -/

/-- The objections to one object, in their order. -/
theorem advances_objections {x : Except Obstacle β} {wrap : Obstacle → PlanFailure}
    {cause : Objection → Cause} {object : Option Composite} {mixes : Composite → Prop}
    (hx : ∀ o, x = .error o ↔ ∃ c, object = some c ∧
      ∃ j, o = .objection j ∧ c.DrawsFirst (mixes c) j)
    (hholds : ∀ j, s.Holds abi (cause j) ↔ ∃ c, object = some c ∧ c.Draws (mixes c) j)
    (hreport : ∀ j, s.Reports abi (wrap (.objection j)) (cause j))
    (hstop : ∀ c : Cause, ¬ c.position < start → c.position < stop → ∃ j, c = cause j)
    (hrank : ∀ j (c : Cause), ¬ c.position < start → c.position < (cause j).position →
      ∃ i : Objection, i.rank < j.rank ∧ c = cause i) :
    s.Advances abi start stop wrap x := by
  intro hclear
  constructor
  · intro v hv
    refine hclear.extend fun c hge hlt => ?_
    obtain ⟨j, rfl⟩ := hstop c hge hlt
    intro h
    -- an objection that applies comes with a first one, which would have been reported
    obtain ⟨o, hobject, hdraws⟩ := (hholds j).mp h
    obtain ⟨i, hfirst⟩ := Composite.exists_drawsFirst hdraws
    have he := (hx _).mpr ⟨o, hobject, i, rfl, hfirst⟩
    rw [hv] at he
    cases he
  · intro e he
    obtain ⟨o, hobject, j, rfl, hdraws, hmin⟩ := (hx e).mp he
    refine ⟨cause j, ⟨(hholds j).mpr ⟨o, hobject, hdraws⟩, ?_⟩, hreport j⟩
    refine hclear.extend fun c hge hlt => ?_
    obtain ⟨i, hi, rfl⟩ := hrank j c hge hlt
    intro h
    obtain ⟨o', hobject', hdraws'⟩ := (hholds i).mp h
    rw [hobject, Option.some.injEq] at hobject'
    subst hobject'
    exact hmin i hi hdraws'

theorem position_parameter {k : Nat} {c : Cause} (hge : ¬ c.position < [3, k])
    (hlt : c.position < [3, k + 1]) : ∃ o, c = .parameter k o := by
  cases c with
  | parameter j o =>
      have hk : k ≤ j := by simpa [Cause.position, List.cons_lt_cons_iff] using hge
      have hj : j < k + 1 := by simpa [Cause.position, List.cons_lt_cons_iff] using hlt
      obtain rfl : j = k := by omega
      exact ⟨o, rfl⟩
  | voidParameter j | unsizedParameter j | unsizedResult | target =>
      simp [Cause.position, List.cons_lt_cons_iff] at hge
  | result o | stack => simp [Cause.position, List.cons_lt_cons_iff] at hlt

theorem rank_of_position_parameter {k : Nat} {o : Objection} {c : Cause}
    (hge : ¬ c.position < [3, k]) (hlt : c.position < (Cause.parameter k o).position) :
    ∃ i : Objection, i.rank < o.rank ∧ c = .parameter k i := by
  have hnext : c.position < [3, k + 1] := by
    refine hlt.trans ?_
    simp [Cause.position, List.cons_lt_cons_iff]
  obtain ⟨i, rfl⟩ := position_parameter hge hnext
  refine ⟨i, ?_, rfl⟩
  simpa [Cause.position, List.cons_lt_cons_iff] using hlt

theorem advances_pass (hv : abi.Valid) {k : Nat} {t : TypeSpec} {v : ValueType}
    (ht : s.params[k]? = some t) (h : t.valueType (.parameter k) = .ok v) :
    s.Advances abi [3, k] [3, k + 1]
      (fun o => .call (o.toFailure (.unsupportedParameter k abi.arch))) (abi.pass v) := by
  have hholds : ∀ o, s.Holds abi (.parameter k o) ↔
      ∃ c, t.object? = some c ∧ c.Draws (abi.MixesParameter c) o := by
    intro o
    simp [Holds, ht]
  exact advances_objections (fun _ => Abi.pass_eq_error_iff hv h) hholds (fun _ => rfl)
    (fun _ => position_parameter) (fun _ _ => rank_of_position_parameter)

theorem Clear.parameters {k : Nat} (hk : s.params.length ≤ k) (h : s.Clear abi [3, k]) :
    s.Clear abi [4] := by
  refine h.extend fun c hge hlt => ?_
  cases c with
  | parameter j o =>
      rintro ⟨t, ht, -⟩
      have hj : j < s.params.length := (List.getElem?_eq_some_iff.mp ht).1
      have hge : k ≤ j := by simpa [Cause.position, List.cons_lt_cons_iff] using hge
      omega
  | voidParameter j | unsizedParameter j | unsizedResult | target =>
      simp [Cause.position, List.cons_lt_cons_iff] at hge
  | result o | stack => simp [Cause.position, List.cons_lt_cons_iff] at hlt

theorem advances_lowerParams (hv : abi.Valid) {k : Nat} {ts : List TypeSpec}
    {vs : List ValueType} (hts : s.params.drop k = ts) (hvs : paramTypes k ts = .ok vs) :
    s.Advances abi [3, k] [4] .call (abi.lowerParams k vs) := by
  induction ts generalizing k vs with
  | nil =>
      cases hvs
      exact advances_ok (Clear.parameters (List.drop_eq_nil_iff.mp hts)) []
  | cons t ts ih =>
      obtain ⟨ht, hrest⟩ := getElem?_of_drop_eq_cons hts
      simp only [paramTypes, bind_eq_ok] at hvs
      obtain ⟨v, hvalue, rest, hvalues, he⟩ := hvs
      cases he
      apply Advances.bind (Advances.mapError (advances_pass hv ht hvalue))
      intro pass hpass
      apply Advances.bind (ih hrest hvalues)
      intro plans hplans
      exact advances_ok id _

theorem position_result {c : Cause} (hge : ¬ c.position < [4]) (hlt : c.position < [5]) :
    ∃ o, c = .result o := by
  cases c with
  | result o => exact ⟨o, rfl⟩
  | voidParameter j | unsizedParameter j | unsizedResult | target | parameter j o =>
      simp [Cause.position, List.cons_lt_cons_iff] at hge
  | stack => simp [Cause.position] at hlt

theorem rank_of_position_result {o : Objection} {c : Cause} (hge : ¬ c.position < [4])
    (hlt : c.position < (Cause.result o).position) :
    ∃ i : Objection, i.rank < o.rank ∧ c = .result i := by
  have hnext : c.position < [5] := by
    refine hlt.trans ?_
    simp [Cause.position, List.cons_lt_cons_iff]
  obtain ⟨i, rfl⟩ := position_result hge hnext
  refine ⟨i, ?_, rfl⟩
  simpa [Cause.position, List.cons_lt_cons_iff] using hlt

theorem mechanism_eq_error_iff (hv : abi.Valid) {r : ResultType}
    (h : resultType s.returns = .ok r) {o : Obstacle} :
    abi.mechanism r = .error o ↔ ∃ c, s.returns.bind TypeSpec.object? = some c ∧
      ∃ j, o = .objection j ∧ c.DrawsFirst (abi.MixesResult c) j := by
  cases hr : s.returns with
  | none =>
      rw [hr] at h
      cases h
      simp [Abi.mechanism]
  | some t =>
      rw [hr, resultType] at h
      split at h
      · rename_i hvoid
        cases h
        simp [Abi.mechanism, TypeSpec.object?, hvoid]
      · obtain ⟨v, hvalue, he⟩ := bind_eq_ok.mp h
        cases he
        exact Abi.mechanism_value_eq_error_iff hv hvalue

theorem advances_mechanism (hv : abi.Valid) {r : ResultType}
    (h : resultType s.returns = .ok r) :
    s.Advances abi [4] [5] (fun o => .call (o.toFailure (.unsupportedReturn abi.arch)))
      (abi.mechanism r) := by
  have hholds : ∀ o, s.Holds abi (.result o) ↔
      ∃ c, s.returns.bind TypeSpec.object? = some c ∧ c.Draws (abi.MixesResult c) o := by
    intro o
    simp only [Holds, Option.bind_eq_some_iff]
    constructor
    · rintro ⟨t, ht, c, hc, hdraws⟩
      exact ⟨c, ⟨t, ht, hc⟩, hdraws⟩
    · rintro ⟨c, ⟨t, ht, hc⟩, hdraws⟩
      exact ⟨t, ht, c, hc, hdraws⟩
  exact advances_objections (fun _ => mechanism_eq_error_iff hv h) hholds (fun _ => rfl)
    (fun _ => position_result) (fun _ _ => rank_of_position_result)

theorem advances_lowerResult (hv : abi.Valid) {r : ResultType}
    (h : resultType s.returns = .ok r) : s.Advances abi [4] [5] .call (abi.lowerResult r) := by
  apply Advances.bind (Advances.mapError (advances_mechanism hv h))
  intro mechanism hmechanism
  exact advances_ok id _

/-! ### The whole walk -/

theorem position_stack {c : Cause} (hge : ¬ c.position < [5]) : c = .stack := by
  cases c with
  | stack => rfl
  | voidParameter j | unsizedParameter j | unsizedResult | target | parameter j o | result o =>
      simp [Cause.position, List.cons_lt_cons_iff] at hge

theorem advances_lower (hv : abi.Valid) {f : Callable} (h : s.callable = .ok f) :
    s.Advances abi [2] [5] .call (f.lower abi) := by
  have htarget : f.targetMatches = true ↔ ¬ s.Holds abi .target := targetMatches_iff h
  intro hclear
  obtain ⟨params, result, hparams, hresult, rfl⟩ := callable_eq_ok_iff.mp h
  unfold Callable.lower
  split
  · rename_i hmatches
    -- between the two positions there is no cause but the target
    have hclear : s.Clear abi [3, 0] := by
      refine hclear.extend fun c hge hlt => ?_
      obtain rfl := position_target hge hlt
      exact htarget.mp hmatches
    refine Advances.bind (advances_lowerParams hv rfl hparams) ?_ hclear
    intro plans hplans
    apply Advances.bind (advances_lowerResult hv hresult)
    intro plan hplan
    exact advances_ok id _
  · rename_i hmatches
    constructor
    · intro l hl
      cases hl
    · intro e he
      cases he
      exact ⟨.target, ⟨not_not.mp (mt htarget.mpr hmatches), hclear⟩, rfl⟩

/-- The stack limit is the last thing to be looked at. -/
theorem advances_seat {f : Callable} {l : Lowering} (h : s.callable = .ok f)
    (hl : f.lower abi = .ok l) : s.Advances abi [5] [6] .call (Plan.make f abi) := by
  intro hclear
  constructor
  · intro p hp
    have hle := (Plan.exists_make_eq_ok_iff hl).mp ⟨p, hp⟩
    refine hclear.extend fun c hge _ => ?_
    obtain rfl := position_stack hge
    rintro ⟨f', l', hf', hl', hlt⟩
    rw [h, Except.ok.injEq] at hf'
    subst hf'
    rw [hl, Except.ok.injEq] at hl'
    subst hl'
    omega
  · intro e he
    have hlt : abi.stackSlots < l.stackNeed := by
      by_contra hn
      obtain ⟨p, hp⟩ := (Plan.exists_make_eq_ok_iff hl).mpr (Nat.not_lt.mp hn)
      rw [hp] at he
      cases he
    obtain ⟨needed, hover, hmake⟩ := Plan.exists_make_eq_error hl hlt
    rw [hmake] at he
    cases he
    exact ⟨.stack, ⟨⟨f, l, h, hl, hlt⟩, hclear⟩, f, l, needed, h, hl, hover, rfl⟩

theorem advances_plan (hv : abi.Valid) (s : Signature) :
    s.Advances abi [0, 0] [6] id (s.plan abi) := by
  have hcallable : s.Advances abi [0, 0] [2] id (s.callable.mapError .signature) :=
    Advances.mapError advances_callable
  apply hcallable.bind
  intro f hf
  have hf := mapError_eq_ok.mp hf
  apply Advances.mapError
  apply Advances.bind (advances_lower hv hf)
  intro l hl
  -- with the lowered function known, making the plan is what is left of it
  have hseat := advances_seat hf hl
  unfold Plan.make at hseat
  rw [hl] at hseat
  exact hseat

end

/-! ### There is one first cause -/

variable {s : Signature} {abi : Abi} {c d : Cause}

theorem not_unsized_of_void {k : Nat} (h : s.Holds abi (.voidParameter k)) :
    ¬ s.Holds abi (.unsizedParameter k) := by
  obtain ⟨t, ht, hvoid⟩ := h
  rintro ⟨t', ht', hobject, -⟩
  rw [ht, Option.some.injEq] at ht'
  rw [← ht', hvoid] at hobject
  cases hobject

/-- Two causes at one position never hold together. -/
theorem eq_of_position_eq (h : c.position = d.position) (hc : s.Holds abi c)
    (hd : s.Holds abi d) : c = d := by
  cases c with
  | voidParameter k =>
      cases d <;> simp [Cause.position] at h
      case voidParameter j => rw [h]
      case unsizedParameter j =>
        subst h
        exact absurd hd (not_unsized_of_void hc)
  | unsizedParameter k =>
      cases d <;> simp [Cause.position] at h
      case unsizedParameter j => rw [h]
      case voidParameter j =>
        subst h
        exact absurd hc (not_unsized_of_void hd)
  | unsizedResult | target | stack => cases d <;> simp [Cause.position] at h ⊢
  | parameter k o =>
      cases d <;> simp [Cause.position] at h ⊢
      exact ⟨h.1, Objection.rank_injective h.2⟩
  | result o =>
      cases d <;> simp [Cause.position] at h ⊢
      exact Objection.rank_injective h

theorem First.unique (hc : s.First abi c) (hd : s.First abi d) : c = d := by
  have hpos : c.position = d.position := by
    obtain hlt | heq | hlt := lt_trichotomy c.position d.position
    · exact absurd hc.1 (hd.2 c hlt)
    · exact heq
    · exact absurd hd.1 (hc.2 d hlt)
  exact eq_of_position_eq hpos hc.1 hd.1

/-- A cause is reported in one way. -/
theorem Reports.unique {e e' : PlanFailure} (h : s.Reports abi e c) (h' : s.Reports abi e' c) :
    e = e' := by
  cases c with
  | stack =>
      obtain ⟨f, l, n, hf, hl, hn, rfl⟩ := h
      obtain ⟨f', l', m, hf', hl', hm, rfl⟩ := h'
      rw [hf, Except.ok.injEq] at hf'
      subst hf'
      rw [hl, Except.ok.injEq] at hl'
      subst hl'
      rw [hn.unique hm]
  | voidParameter k | unsizedParameter k | unsizedResult | target | parameter k o | result o =>
      exact Eq.trans h (Eq.symm h')

/-- On a valid ABI a signature has a plan exactly if none of the causes holds, and the failures that
it is refused with are the reports of the first cause that holds. -/
theorem plan_reports_first_cause (hv : abi.validate = .ok ()) (s : Signature) :
    ((∃ p, s.plan abi = .ok p) ↔ ∀ c, ¬ s.Holds abi c) ∧
      ∀ e, s.plan abi = .error e ↔ ∃ c, s.First abi c ∧ s.Reports abi e c := by
  obtain ⟨hok, herror⟩ :=
    advances_plan (abi.validate_eq_ok_iff.mp hv) s (clear_start s abi)
  -- the walk ends behind all causes
  have hend : ∀ c : Cause, c.position < [6] := by
    intro c
    cases c <;> simp [Cause.position, List.cons_lt_cons_iff]
  cases h : s.plan abi with
  | ok p =>
      have hnone : ∀ c, ¬ s.Holds abi c := fun c => hok p h c (hend c)
      refine ⟨⟨fun _ => hnone, fun _ => ⟨p, rfl⟩⟩, ?_⟩
      intro e
      constructor
      · intro he
        cases he
      · rintro ⟨c, hfirst, -⟩
        exact absurd hfirst.1 (hnone c)
  | error e =>
      obtain ⟨c, hfirst, he⟩ := herror e h
      constructor
      · constructor
        · rintro ⟨p, hp⟩
          cases hp
        · intro hnone
          exact absurd hfirst.1 (hnone c)
      · intro e'
        constructor
        · intro he'
          cases he'
          exact ⟨c, hfirst, he⟩
        · rintro ⟨d, hd, he'⟩
          rw [hfirst.unique hd] at he
          exact congrArg Except.error (he.unique he')

/-- Three objects that System V cannot pass, of which the first only goes by reference, and a result
that it cannot return. -/
def unfit : Signature where
  name := none
  convention := .cdecl
  address := 0
  virtualSlot := none
  params := [⟨.object, some 0, 3, none, true, true⟩, ⟨.object, some 16, 8, some .mixed, true, false⟩,
    ⟨.object, some 0, 8, none, true, false⟩]
  returns := some ⟨.object, some 0, 8, none, true, false⟩

theorem plan_reports_first_cause_unfit : Abi.systemV.validate = .ok () ∧
    unfit.First .systemV (.parameter 1 .mixedMembers) ∧
    unfit.plan .systemV =
      .error (.call (.refused (.unsupportedParameter 1 .x86_64 .mixedMembers))) := by
  have hv : Abi.systemV.validate = .ok () := rfl
  have he : unfit.plan .systemV =
      .error (.call (.refused (.unsupportedParameter 1 .x86_64 .mixedMembers))) := rfl
  obtain ⟨c, hfirst, hreport⟩ := ((plan_reports_first_cause hv unfit).2 _).mp he
  cases c <;> simp [Reports] at hreport
  obtain ⟨rfl, -, rfl⟩ := hreport
  exact ⟨hv, hfirst, he⟩

end Signature

end ForeignCall
