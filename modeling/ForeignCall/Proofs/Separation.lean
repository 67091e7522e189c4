import ForeignCall.Proofs.Alignment

/-! # The register classes do not interfere

General registers and float registers are handed out by one router that also fills the stack.  Seen
from one class, the others are not there: the registers that the values of a class get are those that
the class would hand out on its own (`Abi.serve`).

* A value looks at its own class only, and leaves it as `serve` does, whether it gets registers or
  not (`assign_of_admits`, `assign_of_not_admits`).
* A value of another class leaves the class as it was (`used_assign_of_bank_ne`), also where it is
  spilled or closes its own class.
* So the run of a call, with the values of one class picked out, is the run of that class
  (`Seated.registers_eq_serve`).

What the class is asked for are numbers of registers and alignments (`Ask`), so that two calls that
agree on these get the same registers, whatever else they pass (`equal_asks_equal_registers`). -/

namespace ForeignCall

/-- What a value asks of the registers of its class. -/
structure Ask where
  count : Nat
  align16 : Bool
deriving DecidableEq

def Pass.ask (pass : Pass) : Ask := ⟨pass.slots pass.bank, pass.align16⟩

/-- The run of registers that a value got in its class, if it got any. -/
def Placement.registers? (x : Placement) (b : Bank) : Option Location :=
  if x.location.bank = b then some x.location else none

namespace Abi

/-! ### One class on its own -/

/-- The register at which an ask is served behind `n` used ones. -/
def serveAt (abi : Abi) (a : Ask) (n : Nat) : Nat :=
  if a.align16 && a.count = 2 && abi.evenForAlign16 then evenUp n else n

/-- The registers of a class for a list of asks, behind `n` used ones.  An ask that does not fit gets
none; it closes the class if it is for several registers and the ABI says so. -/
def serve (abi : Abi) (b : Bank) (n : Nat) : List Ask → List (Option Location)
  | [] => []
  | a :: as =>
      if abi.serveAt a n + a.count ≤ abi.budget b then
        some (.ofNat b (abi.serveAt a n) a.count) :: serve abi b (abi.serveAt a n + a.count) as
      else
        none :: serve abi b (if 1 < a.count ∧ abi.closeOnSpill = true then abi.budget b else n) as

variable {abi : Abi} {c : Cursor} {d : Demand} {pass : Pass} {b : Bank}

/-! ### One step, seen from a class -/

theorem firstSlot_eq_serveAt (hb : pass.bank ≠ .stack) (n : Nat) :
    abi.firstSlot pass.demand pass.bank n = abi.serveAt pass.ask n := by
  unfold firstSlot serveAt
  cases pass with
  | general scalar | float32 | float64 | address | inlineWords words size align16
  | floatMembers count width size => rfl
  | stackImage words size align16 => exact absurd rfl hb

theorem admits_iff_serveAt (hb : pass.bank ≠ .stack) : abi.Admits c pass.demand ↔
    abi.serveAt pass.ask (c.used pass.bank) + pass.ask.count ≤ abi.budget pass.bank := by
  unfold Admits
  rw [Pass.bank_demand, Pass.slots_demand, firstSlot_eq_serveAt hb]
  exact and_iff_right hb

theorem assign_of_admits (hb : pass.bank ≠ .stack) (h : abi.Admits c pass.demand) :
    (abi.assign c pass.demand).1 =
        .ofNat pass.bank (abi.serveAt pass.ask (c.used pass.bank)) pass.ask.count ∧
      (abi.assign c pass.demand).2.used pass.bank =
        abi.serveAt pass.ask (c.used pass.bank) + pass.ask.count := by
  have hbank : abi.bankFor c pass.demand = pass.bank := by
    rw [bankFor, if_pos h, Pass.bank_demand]
  have hfst := abi.assign_fst c pass.demand
  have hused := abi.used_assign_self c pass.demand
  rw [hbank, firstSlot_eq_serveAt hb, Pass.slots_demand] at hfst hused
  exact ⟨hfst, hused⟩

/-- A value that its class does not admit is spilled, and the class is closed or left as it was. -/
theorem assign_of_not_admits (hb : pass.bank ≠ .stack) (h : ¬ abi.Admits c pass.demand) :
    (abi.assign c pass.demand).1.bank = .stack ∧
      (abi.assign c pass.demand).2.used pass.bank =
        if 1 < pass.ask.count ∧ abi.closeOnSpill = true then abi.budget pass.bank
        else c.used pass.bank := by
  have hstack : abi.bankFor c pass.demand = .stack := if_neg h
  have hne : pass.bank ≠ abi.bankFor c pass.demand := by rwa [hstack]
  have hcloses : abi.Closes c pass.demand ∧ pass.bank = pass.demand.bank ↔
      1 < pass.ask.count ∧ abi.closeOnSpill = true := by
    unfold Closes
    rw [Pass.bank_demand, Pass.slots_demand]
    simp [hb, h, Pass.ask]
  refine ⟨?_, ?_⟩
  · rw [assign_fst, hstack]
    rfl
  · rw [used_assign_ne hne]
    exact if_congr hcloses rfl rfl

theorem used_assign_of_bank_ne (hb : b ≠ .stack) (hd : d.bank ≠ b) :
    (abi.assign c d).2.used b = c.used b := by
  have hne : b ≠ abi.bankFor c d := by
    rcases abi.bankFor_eq c d with he | he
    · rw [he]
      exact Ne.symm hd
    · rwa [he]
  rw [used_assign_ne hne, if_neg (fun h => hd h.2.symm)]

end Abi

/-! ### A run, seen from a class -/

namespace Lowering

variable (l : Lowering)

/-- The values of a class among some places, in passing order. -/
def ofClass (b : Bank) (xs : List Placement) : List Placement :=
  xs.filter fun x => (l.passOf x.role).bank = b

/-- What the values of a call ask of a class, in passing order. -/
def asks (b : Bank) : List Ask :=
  (l.roles.filter fun r => (l.passOf r).bank = b).map fun r => (l.passOf r).ask

variable {l} {b : Bank} {x : Placement}

theorem ofClass_cons_of_eq (h : (l.passOf x.role).bank = b) (xs : List Placement) :
    l.ofClass b (x :: xs) = x :: l.ofClass b xs :=
  List.filter_cons_of_pos (by simpa using h)

theorem ofClass_cons_of_ne (h : (l.passOf x.role).bank ≠ b) (xs : List Placement) :
    l.ofClass b (x :: xs) = l.ofClass b xs :=
  List.filter_cons_of_neg (by simpa using h)

end Lowering

/-- Along a run the values of a class get what the class hands out on its own. -/
theorem Abi.Seated.registers_eq_serve {l : Lowering} {c c' : Cursor} {ps : List Passenger}
    {xs : List Placement} (h : l.abi.Seated c ps xs c')
    (hps : ∀ q ∈ ps, q.demand = (l.passOf q.role).demand) {b : Bank} (hb : b ≠ .stack) :
    (l.ofClass b xs).map (·.registers? b) =
      l.abi.serve b (c.used b) ((l.ofClass b xs).map fun x => (l.passOf x.role).ask) := by
  induction h with
  | nil c => rfl
  | @cons c c' p ps xs hs h ih =>
      have ih := ih fun q hq => hps q (List.mem_cons_of_mem p hq)
      rw [hps p (by simp)] at ih ⊢
      by_cases hbank : (l.passOf p.role).bank = b
      · -- a value of the class
        have hne : (l.passOf p.role).bank ≠ .stack := by rwa [hbank]
        rw [Lowering.ofClass_cons_of_eq hbank, List.map_cons, List.map_cons, ih, serve]
        subst hbank
        have hfits : l.abi.Admits c (l.passOf p.role).demand ↔ _ := admits_iff_serveAt hne
        by_cases ha : l.abi.Admits c (l.passOf p.role).demand
        · obtain ⟨hrun, hused⟩ := assign_of_admits hne ha
          rw [if_pos (hfits.mp ha), hused, Placement.registers?, hrun]
          exact congrArg (· :: _) (if_pos rfl)
        · obtain ⟨hrun, hused⟩ := assign_of_not_admits hne ha
          rw [if_neg (fun h => ha (hfits.mpr h)), hused, Placement.registers?, hrun,
            if_neg (Ne.symm hne)]
      · -- a value of another class
        rw [Lowering.ofClass_cons_of_ne hbank, ih,
          used_assign_of_bank_ne hb (by rwa [Pass.bank_demand])]

/-! ### Two calls -/

namespace Plan

variable {p p' : Plan} {f f' : Callable} {abi : Abi}

theorem Planned.asks_eq (hp : p.Planned f abi) (b : Bank) :
    p.asks b = (p.ofClass b p.layout).map fun x => (p.passOf x.role).ask := by
  unfold Lowering.asks Lowering.ofClass
  rw [← hp.map_role_layout, List.filter_map, List.map_map]
  rfl

/-- The registers of a class depend on what the class is asked for and on nothing else. -/
theorem Planned.registers_eq_serve (hp : p.Planned f abi) {b : Bank} (hb : b ≠ .stack) :
    (p.ofClass b p.layout).map (·.registers? b) = abi.serve b 0 (p.asks b) := by
  obtain ⟨c, hs⟩ := hp.seated
  rw [hs.registers_eq_serve (fun q hq => p.demand_eq hq) hb, hp.asks_eq, Cursor.used_start,
    hp.abi_eq]

/-- Two calls on one ABI, with any values at all, that ask a register class for the same: the values
that ask for general registers, or those that ask for float registers, are as many and have the same
numbers of words and alignments one by one.  Then each of them is in registers in both calls or in
neither, and in the same registers. -/
theorem equal_asks_equal_registers (hp : make f abi = .ok p) (hp' : make f' abi = .ok p')
    {b : Bank} (hb : b ≠ .stack) (h : p.asks b = p'.asks b) :
    (p.ofClass b p.layout).length = (p'.ofClass b p'.layout).length ∧
      ∀ (k : Nat) (x x' : Placement), (p.ofClass b p.layout)[k]? = some x →
        (p'.ofClass b p'.layout)[k]? = some x' →
        (x.location.bank = b ↔ x'.location.bank = b) ∧
          (x.location.bank = b → x'.location = x.location) := by
  have hp := make_eq_ok_iff.mp hp
  have hp' := make_eq_ok_iff.mp hp'
  have hregisters : (p.ofClass b p.layout).map (·.registers? b) =
      (p'.ofClass b p'.layout).map (·.registers? b) := by
    rw [hp.registers_eq_serve hb, hp'.registers_eq_serve hb, h]
  constructor
  · have hlength := congrArg List.length hregisters
    rwa [List.length_map, List.length_map] at hlength
  · intro k x x' hx hx'
    have hk : x.registers? b = x'.registers? b := by
      have hget := congrArg (·[k]?) hregisters
      simp only [List.getElem?_map, hx, hx', Option.map_some] at hget
      exact Option.some.inj hget
    unfold Placement.registers? at hk
    by_cases hin : x.location.bank = b
    · rw [if_pos hin] at hk
      by_cases hin' : x'.location.bank = b
      · rw [if_pos hin'] at hk
        exact ⟨iff_of_true hin hin', fun _ => (Option.some.inj hk).symm⟩
      · rw [if_neg hin'] at hk
        cases hk
    · rw [if_neg hin] at hk
      have hout : x'.location.bank ≠ b := by
        intro hin'
        rw [if_pos hin'] at hk
        cases hk
      exact ⟨iff_of_false hin hout, fun h => absurd h hin⟩

end Plan

/-- The crowded method without its floats and its stack image, and with other floats in between. -/
def Callable.regrouped : Callable where
  target := .direct 0x1000
  convention := .thiscallObjectLast
  params :=
    [.ofScalar .f64, .ofScalar .i32, .ofScalar .i64, .ofScalar .f64,
      .ofComposite (.plain 16 16 .integer), .ofComposite (.plain 16 8 .integer),
      .ofComposite (.plain 16 8 (.float64 2)), .ofScalar .i64, .ofScalar .bool]
  result := .value (.ofComposite (.plain 40 8 .integer))

theorem Plan.equal_asks_equal_registers_regrouped : ∃ p p',
    make .crowded .systemV = .ok p ∧ make .regrouped .systemV = .ok p' ∧
      p.asks .general = p'.asks .general ∧ p.asks .float ≠ p'.asks .float ∧
      ∀ (k : Nat) (x x' : Placement), (p.ofClass .general p.layout)[k]? = some x →
        (p'.ofClass .general p'.layout)[k]? = some x' → x.location.bank = .general →
        x'.location = x.location := by
  have hp : ∃ p p', make .crowded .systemV = .ok p ∧ make .regrouped .systemV = .ok p' ∧
      p.asks .general = p'.asks .general ∧ p.asks .float ≠ p'.asks .float :=
    ⟨_, _, rfl, rfl, by decide, by decide⟩
  obtain ⟨p, p', hp, hp', hgeneral, hfloat⟩ := hp
  obtain ⟨-, hsame⟩ := equal_asks_equal_registers hp hp' (by decide) hgeneral
  exact ⟨p, p', hp, hp', hgeneral, hfloat, fun k x x' hx hx' => (hsame k x x' hx hx').2⟩

end ForeignCall
