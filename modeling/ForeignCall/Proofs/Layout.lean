import ForeignCall.Proofs.Routing
import Mathlib.Data.List.Nodup

/-! # Layouts

What the layout of a plan looks like on a valid ABI, whatever the parameters are.

* It lists the values of the call in passing order (`Lowering.roles`), each once.
* Every value has one run of slots in one bank, as long as its pass needs there (`Pass.slots`).
* The runs of a bank follow one another and end within the budget, so that slot numbers and counts
  survive as bytes.

`layout_wellFormed` puts these together. -/

namespace ForeignCall

/-! ### What a pass asks for -/

namespace Pass

/-- The bank that a value asks for; only its stack slots are left if that is used up. -/
def bank : Pass → Bank
  | general _ | address | inlineWords .. => .general
  | float32 | float64 | floatMembers .. => .float
  | stackImage .. => .stack

/-- Slots that a value takes in a bank. -/
def slots : Pass → Bank → Nat
  | general _, _ | float32, _ | float64, _ | address, _ => 1
  | inlineWords words _ _, _ | stackImage words _ _, _ => words.toNat
  | floatMembers count _ _, .float => count.toNat
  | floatMembers _ _ size, _ => unitsFor size.toNat 8

theorem bank_demand (pass : Pass) : pass.demand.bank = pass.bank := by cases pass <;> rfl

theorem slots_demand (pass : Pass) (b : Bank) : pass.demand.slots b = pass.slots b := by
  cases pass <;> cases b <;> rfl

theorem Bounded.slots_pos {abi : Abi} {pass : Pass} (h : pass.Bounded abi) (b : Bank) :
    0 < pass.slots b := by
  have h8 : ∀ size : UInt32, 0 < size.toNat → 0 < unitsFor size.toNat 8 :=
    fun _ hs => unitsFor_pos (by omega) hs
  cases pass with
  | general scalar => exact Nat.one_pos
  | float32 => exact Nat.one_pos
  | float64 => exact Nat.one_pos
  | address => exact Nat.one_pos
  | inlineWords words size align16 =>
      obtain ⟨hs, hw⟩ := h
      simp only [slots, hw]
      exact h8 size hs
  | stackImage words size align16 =>
      obtain ⟨hs, hw⟩ := h
      simp only [slots, hw]
      exact h8 size hs
  | floatMembers count width size =>
      obtain ⟨hs, hw, hc, -⟩ := h
      cases b with
      | float =>
          simp only [slots, hc]
          exact unitsFor_pos (by omega) hs
      | general => exact h8 size hs
      | stack => exact h8 size hs

end Pass

/-! ### The values of a call -/

namespace Passenger

theorem map_role_ite (P : Prop) [Decidable P] (x : Passenger) :
    (if P then [x] else []).map role = if P then [x.role] else [] := by
  split <;> rfl

theorem map_role_params (index offset : Nat) (qs : List ParamPlan) :
    (params index offset qs).map role = (List.range' index qs.length).map Role.param := by
  induction qs generalizing index offset with
  | nil => rfl
  | cons q qs ih =>
      rw [params, List.map_cons, ih, List.length_cons, List.range'_succ, List.map_cons]
      rfl

/-- Parameter `k` starts behind the words of those before it. -/
theorem getElem?_params (index offset : Nat) (qs : List ParamPlan) (k : Nat) :
    (params index offset qs)[k]? =
      (qs[k]?).map (.param (index + k) (offset + ParamPlan.total (qs.take k))) := by
  induction qs generalizing index offset k with
  | nil => rfl
  | cons q qs ih =>
      cases k with
      | zero => rfl
      | succ k =>
          rw [params, List.getElem?_cons_succ, ih, List.getElem?_cons_succ, List.take_succ_cons,
            ParamPlan.total]
          congr 2 <;> omega

theorem mem_params {index offset : Nat} {qs : List ParamPlan} {x : Passenger}
    (h : x ∈ params index offset qs) :
    ∃ k q, qs[k]? = some q ∧
      x = .param (index + k) (offset + ParamPlan.total (qs.take k)) q := by
  obtain ⟨k, hk⟩ := List.mem_iff_getElem?.mp h
  rw [getElem?_params, Option.map_eq_some_iff] at hk
  obtain ⟨q, hq, hx⟩ := hk
  exact ⟨k, q, hq, hx.symm⟩

end Passenger

namespace Lowering

variable (l : Lowering)

/-- Buffer words in front of a parameter. -/
def offset (index : Nat) : Nat := ParamPlan.total (l.params.take index)

/-- How the value of a role travels; the implicit pointers travel as addresses. -/
def passOf : Role → Pass
  | .param index => ((l.params[index]?).map ParamPlan.pass).getD .address
  | .hiddenReturn | .object | .secondObject => .address

/-- The values of the call in passing order. -/
def roles : List Role :=
  (if l.result.mechanism = .memory ∧ l.abi.hiddenPointer = .firstArgument then [.hiddenReturn]
    else []) ++
    (if l.convention.receiverFirst then [.object] else []) ++
    (if l.convention.secondObjectFirst then [.secondObject] else []) ++
    (List.range l.params.length).map Role.param ++
    (match l.convention.trailing with
      | none => []
      | some .object => [.object]
      | some .secondObject => [.secondObject])

theorem passOf_param {k : Nat} {q : ParamPlan} (h : l.params[k]? = some q) :
    l.passOf (.param k) = q.pass := by
  simp [passOf, h]

theorem hiddenPointerIsArgument_iff : l.hiddenPointerIsArgument = true ↔
    l.result.mechanism = .memory ∧ l.abi.hiddenPointer = .firstArgument := by
  simp [hiddenPointerIsArgument, ResultPlan.inMemory]

theorem map_role_passengers : l.passengers.map Passenger.role = l.roles := by
  simp only [passengers, roles, List.map_append, Passenger.map_role_ite,
    Passenger.map_role_params, l.hiddenPointerIsArgument_iff, List.range_eq_range']
  congr 1
  cases l.convention.trailing with
  | none => rfl
  | some t => cases t <;> rfl

theorem role_mem_roles {x : Passenger} (h : x ∈ l.passengers) : x.role ∈ l.roles := by
  rw [← l.map_role_passengers]
  exact List.mem_map_of_mem h

/-- No value is passed twice. -/
theorem nodup_roles : l.roles.Nodup := by
  have hr : ((List.range l.params.length).map Role.param).Nodup :=
    List.Nodup.map (fun _ _ h => Role.param.inj h) List.nodup_range
  unfold roles
  cases l.convention <;> split <;>
    simp [Convention.receiverFirst, Convention.isMethod, Convention.secondObjectFirst,
      Convention.trailing, List.nodup_append, hr]

/-- A value of the call is an implicit pointer, or a parameter at its place in the buffer. -/
theorem mem_passengers {x : Passenger} (h : x ∈ l.passengers) :
    (x = .hiddenReturn ∧ l.hiddenPointerIsArgument = true) ∨ x = .object ∨ x = .secondObject ∨
      ∃ k q, l.params[k]? = some q ∧ x = .param k (l.offset k) q := by
  simp only [passengers, List.mem_append] at h
  obtain (((h | h) | h) | h) | h := h
  · split at h
    · exact Or.inl ⟨by simpa using h, by assumption⟩
    · simp at h
  · split at h
    · exact Or.inr (Or.inl (by simpa using h))
    · simp at h
  · split at h
    · exact Or.inr (Or.inr (Or.inl (by simpa using h)))
    · simp at h
  · obtain ⟨k, q, hq, rfl⟩ := Passenger.mem_params h
    refine Or.inr (Or.inr (Or.inr ⟨k, q, hq, ?_⟩))
    rw [Nat.zero_add, Nat.zero_add]
    rfl
  · obtain ⟨t, -, rfl⟩ := List.mem_map.mp h
    cases t with
    | object => exact Or.inr (Or.inl rfl)
    | secondObject => exact Or.inr (Or.inr (Or.inl rfl))

theorem param_mem_passengers {k : Nat} {q : ParamPlan} (h : l.params[k]? = some q) :
    .param k (l.offset k) q ∈ l.passengers := by
  have hk := Passenger.getElem?_params 0 0 l.params k
  rw [h, Option.map_some, Nat.zero_add, Nat.zero_add] at hk
  have hmem := List.mem_of_getElem? hk
  simp only [passengers, List.mem_append]
  exact Or.inl (Or.inr hmem)

theorem demand_eq {x : Passenger} (h : x ∈ l.passengers) :
    x.demand = (l.passOf x.role).demand := by
  obtain ⟨rfl, -⟩ | rfl | rfl | ⟨k, q, hq, rfl⟩ := l.mem_passengers h
  · rfl
  · rfl
  · rfl
  · simp [Passenger.demand, Passenger.role, passOf, hq]

theorem bounded_passOf {abi : Abi} (h : ∀ q ∈ l.params, q.Sound abi) (r : Role) :
    (l.passOf r).Bounded abi := by
  cases r with
  | param index =>
      simp only [passOf]
      cases hq : l.params[index]? with
      | none => exact True.intro
      | some q => exact (h q (List.mem_of_getElem? hq)).bounded
  | hiddenReturn => exact True.intro
  | object => exact True.intro
  | secondObject => exact True.intro

end Lowering

/-! ### Places -/

/-- A place is in a bank that the value may get, has the slots that the value takes there, and ends
within the budget. -/
structure Placement.Proper (x : Placement) (l : Lowering) : Prop where
  bank : x.location.bank = (l.passOf x.role).bank ∨ x.location.bank = .stack
  count : x.location.count.toNat = (l.passOf x.role).slots x.location.bank
  stop_le : x.location.stop ≤ l.abi.budget x.location.bank

namespace Abi.Seated

variable {abi : Abi} {c c' : Cursor} {ps : List Passenger} {xs : List Placement}

/-- The end of every run is the router's own count of used slots. -/
theorem stop_getElem (hv : abi.Valid) (h : abi.Seated c ps xs c') (hc : c.Within abi) (i : Nat)
    (hi : i < xs.length) :
    xs[i].location.stop =
      (abi.advance c ((ps.take (i + 1)).map Passenger.demand)).used xs[i].location.bank := by
  induction h generalizing i with
  | nil c => exact absurd hi (Nat.not_lt_zero i)
  | @cons c c' p ps xs hs h ih =>
      have hn := hc.assign hs
      cases i with
      | zero => exact (grants_assign hv hn).stop
      | succ i => exact ih hn i (Nat.lt_of_succ_lt_succ hi)

end Abi.Seated

namespace Plan

variable {p : Plan} {f : Callable} {abi : Abi}

theorem Planned.seated (hp : p.Planned f abi) :
    ∃ c, p.abi.Seated .start p.passengers p.layout c := by
  obtain ⟨c, hc⟩ := hp.layout
  refine ⟨c, ?_⟩
  rw [hp.abi_eq]
  exact Abi.seat_eq_ok_iff.mp hc

theorem Planned.valid (hv : abi.Valid) (hp : p.Planned f abi) : p.abi.Valid := by
  rwa [hp.abi_eq]

theorem Planned.proper (hv : abi.Valid) (hp : p.Planned f abi) :
    ∀ x ∈ p.layout, x.Proper p.toLowering := by
  intro x hx
  obtain ⟨c, hs⟩ := hp.seated
  obtain ⟨y, hy, hrole, c₀, -, -, hg⟩ :=
    hs.exists_grants (hp.valid hv) (Cursor.within_start p.abi) x hx
  have hd := p.demand_eq hy
  rw [← hrole] at hd
  refine ⟨?_, ?_, hg.stop_le⟩
  · rw [hg.bank, ← Pass.bank_demand, ← hd]
    exact Abi.bankFor_eq p.abi c₀ y.demand
  · rw [hg.count, hd, Pass.slots_demand]

theorem Planned.bank_eq_of_ne_stack (hv : abi.Valid) (hp : p.Planned f abi) {x : Placement}
    (hx : x ∈ p.layout) (hb : x.location.bank ≠ .stack) :
    x.location.bank = (p.passOf x.role).bank :=
  (hp.proper hv x hx).bank.resolve_right hb

theorem Planned.count_pos (hv : abi.Valid) (hp : p.Planned f abi) :
    ∀ x ∈ p.layout, 0 < x.location.count.toNat := by
  intro x hx
  rw [(hp.proper hv x hx).count]
  exact (p.bounded_passOf (hp.sound hv) x.role).slots_pos _

theorem Planned.pairwise (hv : abi.Valid) (hp : p.Planned f abi) :
    p.layout.Pairwise fun x y =>
      x.location.bank = y.location.bank → x.location.stop ≤ y.location.first.toNat := by
  obtain ⟨c, hs⟩ := hp.seated
  exact hs.pairwise (hp.valid hv) (Cursor.within_start p.abi)

theorem Planned.map_role_layout (hp : p.Planned f abi) :
    p.layout.map Placement.role = p.roles := by
  obtain ⟨c, hs⟩ := hp.seated
  rw [hs.map_role, p.map_role_passengers]

/-- Every layout lists the values of the call in passing order, each once, in runs that have the
length their pass needs, never share a slot, and end within the budgets of the ABI. -/
theorem layout_wellFormed (hv : abi.validate = .ok ()) (hp : make f abi = .ok p) :
    (p.abi = abi ∧ p.convention = f.convention ∧ p.params.length = f.params.length) ∧
      p.layout.map Placement.role = p.roles ∧ p.roles.Nodup ∧
      (∀ x ∈ p.layout,
        (x.location.bank = (p.passOf x.role).bank ∨ x.location.bank = .stack) ∧
          x.location.count.toNat = (p.passOf x.role).slots x.location.bank ∧
          0 < x.location.count.toNat ∧ x.location.stop ≤ abi.budget x.location.bank) ∧
      (p.layout.Pairwise fun x y =>
        x.location.bank = y.location.bank → x.location.stop ≤ y.location.first.toNat) ∧
      ∀ i (hi : i < p.layout.length),
        p.layout[i].location.stop =
          (abi.advance .start ((p.passengers.take (i + 1)).map Passenger.demand)).used
            p.layout[i].location.bank := by
  have hvalid := abi.validate_eq_ok_iff.mp hv
  have hp := make_eq_ok_iff.mp hp
  have hstart := Cursor.within_start p.abi
  obtain ⟨c, hs⟩ := hp.seated
  refine ⟨⟨hp.abi_eq, hp.convention_eq, hp.length_params⟩, hp.map_role_layout, p.nodup_roles, ?_,
    hp.pairwise hvalid, ?_⟩
  · intro x hx
    have h := hp.proper hvalid x hx
    have hstop := h.stop_le
    rw [hp.abi_eq] at hstop
    exact ⟨h.bank, h.count, hp.count_pos hvalid x hx, hstop⟩
  · intro i hi
    have h := hs.stop_getElem (hp.valid hvalid) hstart i hi
    rwa [hp.abi_eq] at h

end Plan

/-- A method with more values than registers, and a result in memory. -/
def Callable.crowded : Callable where
  target := .direct 0x1000
  convention := .thiscallObjectLast
  params :=
    [.ofScalar .i32, .ofScalar .i64, .ofComposite (.plain 16 16 .integer), .ofScalar .f32,
      .ofComposite (.plain 12 4 (.float32 3)), .ofComposite (.plain 24 16 .integer),
      .ofComposite (.plain 16 8 .integer), .ofScalar .i64, .ofScalar .bool]
  result := .value (.ofComposite (.plain 40 8 .integer))

theorem Callable.make_crowded (a : Arch) : ∃ p, Plan.make crowded (.preset a) = .ok p := by
  cases a <;> exact ⟨_, rfl⟩

theorem Plan.layout_wellFormed_crowded : Abi.systemV.validate = .ok () ∧
    ∃ p, make .crowded .systemV = .ok p ∧ p.layout.map Placement.role = p.roles ∧
      p.layout.Pairwise fun x y =>
        x.location.bank = y.location.bank → x.location.stop ≤ y.location.first.toNat := by
  obtain ⟨p, hp⟩ := Callable.make_crowded .x86_64
  obtain ⟨-, hroles, -, -, hruns, -⟩ := layout_wellFormed rfl hp
  exact ⟨rfl, p, hp, hroles, hruns⟩

end ForeignCall
