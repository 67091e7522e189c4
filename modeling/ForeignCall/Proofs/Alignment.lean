import ForeignCall.Proofs.Decision
import ForeignCall.Proofs.Marshal

/-! # Alignment of composites

Composites with an alignment of 16 bytes or more start at an even slot: on the stack always, and as
a pair in general registers where the ABI asks for it.  Where a value starts follows from the places
before it (`Planned.first_of_stack`, and `Planned.first_eq` for registers), so it is enough to know
which passes carry the alignment to the router.

The passes that ask for general registers or for the stack do.  A float aggregate does not: when its
registers are used up it goes to the next stack slot, whatever its alignment is.  So an aligned
composite starts even exactly if it is not a spilled float aggregate or the stack happens to be used
up to an even slot (`aligned_first_even_iff`), and there are calls where it does not
(`spilled_first_odd`). -/

namespace ForeignCall

theorem evenUp_mod_two (n : Nat) : evenUp n % 2 = 0 := by
  unfold evenUp
  omega

/-! ### The stack -/

theorem Abi.Seated.used_stack_eq_foldl {abi : Abi} (hv : abi.Valid) {c c' : Cursor}
    {ps : List Passenger} {xs : List Placement} (h : abi.Seated c ps xs c') (hc : c.Within abi) :
    c'.used .stack =
      xs.foldl (fun n x => if x.location.bank = .stack then x.location.stop else n)
        (c.used .stack) := by
  induction h with
  | nil c => rfl
  | @cons c c' p ps xs hs h ih =>
      have hn := hc.assign hs
      have hg := grants_assign hv hn
      rw [ih hn, List.foldl_cons]
      congr 1
      by_cases hb : (abi.assign c p.demand).1.bank = .stack
      · rw [if_pos hb, hg.stop, hb]
      · have hne : Bank.stack ≠ abi.bankFor c p.demand := by
          rw [← hg.bank]
          exact Ne.symm hb
        rw [if_neg hb, used_stack_assign_ne hne]

namespace Pass

/-- The alignment that the pass hands to the router. -/
def align16 : Pass → Bool
  | inlineWords _ _ align16 | stackImage _ _ align16 => align16
  | general _ | float32 | float64 | address | floatMembers .. => false

theorem startsEven_demand (abi : Abi) (pass : Pass) :
    abi.startsEven pass.demand .stack = pass.align16 := by
  cases pass <;> rfl

end Pass

/-- Composites whose bytes are copied hand on their alignment, all but float aggregates. -/
theorem Abi.align16_of_passComposite {abi : Abi} {c : Composite} {pass : Pass}
    (h : abi.passComposite c = .ok pass) (hcopies : pass.copies = true) :
    pass.align16 = (pass.bank ≠ .float && 16 ≤ c.align) := by
  cases (passes_of_passComposite h).2 with
  | nontrivial | large => cases hcopies
  | floats | words | image => rfl

namespace Plan

variable {p : Plan} {f : Callable} {abi : Abi}

theorem Planned.first_of_stack (hv : abi.Valid) (hp : p.Planned f abi) {xs ys : List Placement}
    {x : Placement} (hsplit : p.layout = xs ++ x :: ys) (hb : x.location.bank = .stack) :
    x.location.first.toNat =
      if (p.passOf x.role).align16 then evenUp (lastStop .stack xs) else lastStop .stack xs := by
  have hpv := hp.valid hv
  have hstart := Cursor.within_start p.abi
  obtain ⟨c, hs⟩ := hp.seated
  rw [hsplit] at hs
  obtain ⟨ps, y, c₁, hy, hbefore, hstack, rfl⟩ := hs.exists_prefix
  have hg := Abi.grants_assign hpv ((hbefore.within hstart).assign hstack)
  have hused : c₁.used .stack = lastStop .stack xs := by
    rw [hbefore.used_stack_eq_foldl hpv hstart, Cursor.used_start]
    rfl
  have hfirst := hg.first
  simp only at hb
  rw [hb, hused, p.demand_eq hy, Abi.firstSlot, Pass.startsEven_demand] at hfirst
  rw [p.demand_eq hy]
  exact hfirst

theorem Planned.passComposite_eq_ok (hp : p.Planned f abi) {k : Nat} {c : Composite}
    (hk : f.params[k]? = some (.ofComposite c)) :
    abi.passComposite c = .ok (p.passOf (.param k)) := by
  obtain ⟨q, hq, hlowers⟩ := hp.exists_lowers hk
  have hpass := hlowers.pass
  rw [hp.abi_eq] at hpass
  rw [p.passOf_param hq]
  exact hpass

theorem Planned.first_of_spilled (hv : abi.Valid) (hp : p.Planned f abi) {k : Nat} {c : Composite}
    (hk : f.params[k]? = some (.ofComposite c)) (halign : 16 ≤ c.align)
    (hcopies : (p.passOf (.param k)).copies = true) {xs ys : List Placement} {x : Placement}
    (hsplit : p.layout = xs ++ x :: ys) (hrole : x.role = .param k)
    (hb : x.location.bank = .stack) :
    x.location.first.toNat =
      if (p.passOf (.param k)).bank = .float then lastStop .stack xs
      else evenUp (lastStop .stack xs) := by
  have hpass := Abi.align16_of_passComposite (hp.passComposite_eq_ok hk) hcopies
  rw [hp.first_of_stack hv hsplit hb, hrole, hpass]
  by_cases hfloat : (p.passOf (.param k)).bank = .float
  · simp [hfloat]
  · simp [hfloat, halign]

theorem Planned.first_even_of_pair (hv : abi.Valid) (hp : p.Planned f abi) {k : Nat}
    {c : Composite} (hk : f.params[k]? = some (.ofComposite c)) (halign : 16 ≤ c.align)
    (hcopies : (p.passOf (.param k)).copies = true) {xs ys : List Placement} {x : Placement}
    (hsplit : p.layout = xs ++ x :: ys) (hrole : x.role = .param k)
    (hb : x.location.bank = .general) (heven : abi.evenForAlign16 = true)
    (hpair : x.location.count.toNat = 2) : x.location.first.toNat % 2 = 0 := by
  have hx : x ∈ p.layout := by simp [hsplit]
  have hbank := hp.bank_eq_of_ne_stack hv hx (by simp [hb])
  have hpass := Abi.align16_of_passComposite (hp.passComposite_eq_ok hk) hcopies
  have hcount := (hp.proper hv x hx).count
  have hfirst := hp.first_eq hv hsplit (by rw [← hbank, hb]; decide) hbank
  rw [hrole] at hbank hcount hfirst
  have haligned : (p.passOf (.param k)).isAlignedPair = true := by
    cases hq : p.passOf (.param k) with
    | inlineWords words size align16 =>
        rw [hq] at hpass hcount
        have hwords : words.toNat = 2 := hcount.symm.trans hpair
        have halign16 : align16 = true := by
          rw [show align16 = _ from hpass]
          simp [Pass.bank, halign]
        simp [Pass.isAlignedPair, hwords, halign16]
    | general scalar | address | float32 | float64 =>
        rw [hq] at hcopies
        cases hcopies
    | floatMembers count width size | stackImage words size align16 =>
        rw [hq, hb] at hbank
        cases hbank
  rw [hfirst, Lowering.startAfter, haligned, hp.abi_eq, heven]
  exact evenUp_mod_two _

/-- A by-value composite of alignment 16 or more whose bytes are passed starts at an even slot of
the stack, or as a pair at an even general register where pairs are aligned; whatever was passed
before.  The exception is a float aggregate that is spilled: it starts right behind the last value on
the stack, be that slot even or odd. -/
theorem aligned_first_even_iff (hv : abi.validate = .ok ()) (hp : make f abi = .ok p) {k : Nat}
    {c : Composite} (hk : f.params[k]? = some (.ofComposite c)) (halign : 16 ≤ c.align)
    (hcopies : (p.passOf (.param k)).copies = true) {xs ys : List Placement} {x : Placement}
    (hsplit : p.layout = xs ++ x :: ys) (hrole : x.role = .param k) :
    (x.location.bank = .stack →
        x.location.first.toNat =
          if (p.passOf (.param k)).bank = .float then lastStop .stack xs
          else evenUp (lastStop .stack xs)) ∧
      (x.location.bank = .stack →
        (x.location.first.toNat % 2 = 0 ↔
          (p.passOf (.param k)).bank ≠ .float ∨ lastStop .stack xs % 2 = 0)) ∧
      (x.location.bank = .general → abi.evenForAlign16 = true → x.location.count.toNat = 2 →
        x.location.first.toNat % 2 = 0) := by
  have hv := abi.validate_eq_ok_iff.mp hv
  have hp := make_eq_ok_iff.mp hp
  have hfirst := hp.first_of_spilled hv hk halign hcopies hsplit hrole
  refine ⟨hfirst, ?_, hp.first_even_of_pair hv hk halign hcopies hsplit hrole⟩
  intro hb
  rw [hfirst hb]
  by_cases hfloat : (p.passOf (.param k)).bank = .float
  · simp [hfloat]
  · simp [hfloat, evenUp_mod_two]

/-- On AArch64 the aligned pair of the crowded method skips a register. -/
theorem aligned_first_even_iff_crowded : Abi.aarch64.validate = .ok () ∧
    Callable.crowded.params[2]? = some (.ofComposite (.plain 16 16 .integer)) ∧
    ∃ p xs x ys, make .crowded .aarch64 = .ok p ∧ p.layout = xs ++ x :: ys ∧
      x.role = .param 2 ∧ x.location.bank = .general ∧ lastStop .general xs = 3 ∧
      x.location.first.toNat % 2 = 0 := by
  have hp : ∃ p x, make .crowded .aarch64 = .ok p ∧ (p.passOf (.param 2)).copies = true ∧
      x.role = .param 2 ∧ x.location.bank = .general ∧ x.location.count.toNat = 2 ∧
      ∃ xs ys, p.layout = xs ++ x :: ys ∧ lastStop .general xs = 3 :=
    ⟨_, ⟨.param 2, ⟨.general, 4, 2⟩⟩, rfl, rfl, rfl, rfl, rfl,
      [⟨.object, ⟨.general, 0, 1⟩⟩, ⟨.param 0, ⟨.general, 1, 1⟩⟩, ⟨.param 1, ⟨.general, 2, 1⟩⟩],
      _, rfl, rfl⟩
  obtain ⟨p, x, hp, hcopies, hrole, hbank, hpair, xs, ys, hsplit, hlast⟩ := hp
  obtain ⟨-, -, heven⟩ := aligned_first_even_iff rfl hp (k := 2) (c := .plain 16 16 .integer) rfl
    (by decide) hcopies hsplit hrole
  exact ⟨rfl, rfl, p, xs, x, ys, hp, hsplit, hrole, hbank, hlast, heven hbank rfl hpair⟩

end Plan

/-- Two aggregates that use up the float registers of AArch64, a float that takes one stack slot,
and an aggregate of alignment 16. -/
def Callable.spilling : Callable where
  target := .direct 0x1000
  convention := .cdecl
  params :=
    [.ofComposite (.plain 32 8 (.float64 4)), .ofComposite (.plain 32 8 (.float64 4)),
      .ofScalar .f32, .ofComposite (.plain 16 16 (.float64 2))]
  result := .void

/-- The aligned aggregate is spilled to an odd slot. -/
theorem Plan.spilled_first_odd : Abi.aarch64.validate = .ok () ∧
    ∃ p, make .spilling .aarch64 = .ok p ∧
      Callable.spilling.params[3]? = some (.ofComposite (.plain 16 16 (.float64 2))) ∧
      (p.passOf (.param 3)).copies = true ∧
      ∃ x ∈ p.layout, x.role = .param 3 ∧ x.location.bank = .stack ∧
        x.location.first.toNat = 1 :=
  ⟨rfl, _, rfl, rfl, rfl, ⟨.param 3, ⟨.stack, 1, 2⟩⟩, by decide, rfl, rfl, rfl⟩

end ForeignCall
