import ForeignCall.Frame
import ForeignCall.Proofs.Lowering

/-! # One step of the router, and a run of steps

`Abi.assign` treats the three kinds of demand apart.  Here they are one: a demand asks for a bank
(`Demand.bank`), takes so many slots in the bank that it gets (`Demand.slots`), and may have to
start at an even slot (`Abi.firstSlot`).

* What a step does is said once: the bank it chooses (`Abi.bankFor`), the run it hands out
  (`assign_fst`) and the slots that are used up behind it (`used_assign_self`, `used_assign_ne`).
* `Cursor.Within` is the invariant of the router: no bank is used beyond its budget.  A step that
  keeps the stack limit keeps it (`Cursor.Within.assign`), and under it no bank ever shrinks
  (`used_le_used_assign`).
* `Abi.Seated` is a run of steps as a derivation, the form in which facts about layouts are proved
  by induction; `seat_eq_ok_iff` ties it to `Abi.seat`. -/

namespace ForeignCall

/-! ### Demands -/

namespace Demand

/-- The bank that a demand asks for. -/
def bank : Demand → Bank
  | general .. => .general
  | float .. => .float
  | stack .. => .stack

/-- Slots that the value takes in a bank. -/
def slots : Demand → Bank → Nat
  | general words _, _ => words
  | float registers _, .float => registers
  | float _ stackWords, _ => stackWords
  | stack words _, _ => words

end Demand

theorem le_evenUp (n : Nat) : n ≤ evenUp n := Nat.le_add_right _ _

namespace Abi

/-- The value has to start at an even slot of the bank. -/
def startsEven (abi : Abi) : Demand → Bank → Bool
  | .general words align16, .general => align16 && words = 2 && abi.evenForAlign16
  | .general _ align16, .stack => align16
  | .stack _ align16, .stack => align16
  | _, _ => false

/-- The slot at which a value starts in a bank that is used up to `n`. -/
def firstSlot (abi : Abi) (d : Demand) (b : Bank) (n : Nat) : Nat :=
  if abi.startsEven d b then evenUp n else n

theorem le_firstSlot (abi : Abi) (d : Demand) (b : Bank) (n : Nat) : n ≤ abi.firstSlot d b n := by
  unfold firstSlot
  split
  · exact le_evenUp n
  · exact Nat.le_refl n

/-- In registers only pairs are aligned. -/
theorem firstSlot_of_slots_le_one (abi : Abi) {d : Demand} (n : Nat) (hd : d.bank ≠ .stack)
    (h : d.slots d.bank ≤ 1) : abi.firstSlot d d.bank n = n := by
  cases d with
  | general words align16 =>
      have hw : words ≠ 2 := by
        simp only [Demand.slots] at h
        omega
      simp [firstSlot, startsEven, Demand.bank, hw]
  | float registers stackWords => rfl
  | stack words align16 => exact absurd rfl hd

end Abi

/-! ### Cursors -/

namespace Cursor

/-- The cursor with a bank used up to `n`. -/
def set (c : Cursor) (b : Bank) (n : Nat) : Cursor :=
  match b with
  | .general => { c with general := n }
  | .float => { c with float := n }
  | .stack => { c with stack := n }

@[simp] theorem used_set_same (c : Cursor) (b : Bank) (n : Nat) : (c.set b n).used b = n := by
  cases b <;> rfl

@[simp] theorem used_set_ne (c : Cursor) {b b' : Bank} (n : Nat) (h : b' ≠ b) :
    (c.set b n).used b' = c.used b' := by
  cases b <;> cases b' <;> first | rfl | exact absurd rfl h

@[simp] theorem used_start (b : Bank) : start.used b = 0 := by cases b <;> rfl

/-- No bank is used beyond its budget. -/
def Within (c : Cursor) (abi : Abi) : Prop := ∀ b, c.used b ≤ abi.budget b

theorem within_start (abi : Abi) : start.Within abi := by
  intro b
  rw [used_start]
  exact Nat.zero_le _

end Cursor

/-! ### One step -/

namespace Abi

variable (abi : Abi) (c : Cursor) (d : Demand)

/-- The registers of the demand's class still hold it. -/
def Admits : Prop :=
  d.bank ≠ .stack ∧ abi.firstSlot d d.bank (c.used d.bank) + d.slots d.bank ≤ abi.budget d.bank

instance : Decidable (abi.Admits c d) := inferInstanceAs (Decidable (_ ∧ _))

/-- The bank that the value gets. -/
def bankFor : Bank := if abi.Admits c d then d.bank else .stack

/-- The value closes its class: it needs several registers and does not get them. -/
def Closes : Prop :=
  d.bank ≠ .stack ∧ ¬ abi.Admits c d ∧ 1 < d.slots d.bank ∧ abi.closeOnSpill = true

instance : Decidable (abi.Closes c d) := inferInstanceAs (Decidable (_ ∧ _))

/-- The cursor before the run is handed out, with the class closed if need be. -/
def closed : Cursor := if abi.Closes c d then c.set d.bank (abi.budget d.bank) else c

theorem assign_eq :
    abi.assign c d =
      (.ofNat (abi.bankFor c d) (abi.firstSlot d (abi.bankFor c d) (c.used (abi.bankFor c d)))
          (d.slots (abi.bankFor c d)),
        (abi.closed c d).set (abi.bankFor c d)
          (abi.firstSlot d (abi.bankFor c d) (c.used (abi.bankFor c d)) +
            d.slots (abi.bankFor c d))) := by
  by_cases ha : abi.Admits c d
  · have hc : ¬ abi.Closes c d := fun h => h.2.1 ha
    rw [bankFor, if_pos ha, closed, if_neg hc]
    obtain ⟨hd, hfit⟩ := ha
    cases d with
    | general words align16 =>
        simp only [Demand.bank, Demand.slots, Cursor.used, budget] at hfit
        simp only [firstSlot, startsEven, Bool.and_eq_true, decide_eq_true_eq, and_assoc] at hfit
        simp [assign, Demand.bank, Demand.slots, Cursor.used, Cursor.set, firstSlot, startsEven,
          and_assoc, hfit]
    | float registers stackWords =>
        have hle : c.float + registers ≤ abi.floatRegisters := hfit
        simp [assign, Demand.bank, Demand.slots, Cursor.used, Cursor.set, firstSlot, startsEven,
          hle]
    | stack words align16 => exact absurd rfl hd
  · rw [bankFor, if_neg ha]
    cases d with
    | general words align16 =>
        have hfit : ¬ abi.firstSlot (.general words align16) .general c.general + words ≤
            abi.generalRegisters := fun h => ha ⟨by simp [Demand.bank], h⟩
        simp only [firstSlot, startsEven, Bool.and_eq_true, decide_eq_true_eq, and_assoc] at hfit
        by_cases hs : 1 < words ∧ abi.closeOnSpill
        · have hc : abi.Closes c (.general words align16) := ⟨by simp [Demand.bank], ha, hs⟩
          rw [closed, if_pos hc]
          simp only [assign, if_neg hfit, if_pos hs]
          rfl
        · have hc : ¬ abi.Closes c (.general words align16) := fun h => hs h.2.2
          rw [closed, if_neg hc]
          simp only [assign, if_neg hfit, if_neg hs]
          rfl
    | float registers stackWords =>
        have hfit : ¬ c.float + registers ≤ abi.floatRegisters :=
          fun h => ha ⟨by simp [Demand.bank], h⟩
        by_cases hs : 1 < registers ∧ abi.closeOnSpill
        · have hc : abi.Closes c (.float registers stackWords) := ⟨by simp [Demand.bank], ha, hs⟩
          rw [closed, if_pos hc]
          simp only [assign, if_neg hfit, if_pos hs]
          rfl
        · have hc : ¬ abi.Closes c (.float registers stackWords) := fun h => hs h.2.2
          rw [closed, if_neg hc]
          simp only [assign, if_neg hfit, if_neg hs]
          rfl
    | stack words align16 =>
        have hc : ¬ abi.Closes c (.stack words align16) := fun h => h.1 rfl
        rw [closed, if_neg hc]
        rfl

variable {abi : Abi} {c : Cursor} {d : Demand}

theorem bankFor_eq (abi : Abi) (c : Cursor) (d : Demand) :
    abi.bankFor c d = d.bank ∨ abi.bankFor c d = .stack := by
  unfold bankFor
  split
  · exact Or.inl rfl
  · exact Or.inr rfl

theorem bankFor_eq_bank_iff (hd : d.bank ≠ .stack) :
    abi.bankFor c d = d.bank ↔ abi.Admits c d := by
  unfold bankFor
  split
  · simp [*]
  · simp [*, Ne.symm hd]

theorem assign_fst (abi : Abi) (c : Cursor) (d : Demand) :
    (abi.assign c d).1 =
      .ofNat (abi.bankFor c d) (abi.firstSlot d (abi.bankFor c d) (c.used (abi.bankFor c d)))
        (d.slots (abi.bankFor c d)) := by
  rw [assign_eq]

theorem used_assign_self (abi : Abi) (c : Cursor) (d : Demand) :
    (abi.assign c d).2.used (abi.bankFor c d) =
      abi.firstSlot d (abi.bankFor c d) (c.used (abi.bankFor c d)) +
        d.slots (abi.bankFor c d) := by
  rw [assign_eq, Cursor.used_set_same]

/-- Behind a step the other banks are as before, but for a class that the value closed. -/
theorem used_assign_ne {b : Bank} (h : b ≠ abi.bankFor c d) :
    (abi.assign c d).2.used b =
      if abi.Closes c d ∧ b = d.bank then abi.budget b else c.used b := by
  rw [assign_eq, Cursor.used_set_ne _ _ h, closed]
  by_cases hc : abi.Closes c d
  · by_cases hb : b = d.bank
    · rw [if_pos hc, if_pos ⟨hc, hb⟩, hb, Cursor.used_set_same]
    · rw [if_pos hc, if_neg (fun h => hb h.2), Cursor.used_set_ne _ _ hb]
  · rw [if_neg hc, if_neg (fun h => hc h.1)]

/-- No value closes the stack. -/
theorem used_stack_assign_ne (h : Bank.stack ≠ abi.bankFor c d) :
    (abi.assign c d).2.used .stack = c.used .stack := by
  rw [used_assign_ne h]
  refine if_neg ?_
  rintro ⟨hcloses, hstack⟩
  exact hcloses.1 hstack.symm

/-- No bank shrinks. -/
theorem used_le_used_assign (hc : c.Within abi) (d : Demand) (b : Bank) :
    c.used b ≤ (abi.assign c d).2.used b := by
  by_cases h : b = abi.bankFor c d
  · rw [h, used_assign_self]
    exact Nat.le_trans (le_firstSlot ..) (Nat.le_add_right ..)
  · rw [used_assign_ne h]
    split
    · exact hc b
    · exact Nat.le_refl _

end Abi

theorem Cursor.Within.assign {abi : Abi} {c : Cursor} (hc : c.Within abi) {d : Demand}
    (hs : (abi.assign c d).2.stack ≤ abi.stackSlots) : (abi.assign c d).2.Within abi := by
  intro b
  by_cases h : b = abi.bankFor c d
  · by_cases ha : abi.Admits c d
    · have hb : abi.bankFor c d = d.bank := if_pos ha
      rw [h, Abi.used_assign_self, hb]
      exact ha.2
    · have hb : abi.bankFor c d = .stack := if_neg ha
      rw [h, hb]
      exact hs
  · rw [Abi.used_assign_ne h]
    split
    · exact Nat.le_refl _
    · exact hc b

/-! ### The run that a step hands out -/

namespace Location

theorem toNat_first_ofNat {first : Nat} (b : Bank) (count : Nat) (h : first < 256) :
    (ofNat b first count).first.toNat = first := by
  simp only [ofNat, UInt8.toNat_ofNat']
  exact Nat.mod_eq_of_lt h

theorem toNat_count_ofNat {count : Nat} (b : Bank) (first : Nat) (h : count < 256) :
    (ofNat b first count).count.toNat = count := by
  simp only [ofNat, UInt8.toNat_ofNat']
  exact Nat.mod_eq_of_lt h

end Location

namespace Abi

/-- Inside the budgets the run that a step hands out is the one that was computed: its numbers
have lost nothing by becoming bytes. -/
structure Grants (abi : Abi) (c : Cursor) (d : Demand) (l : Location) : Prop where
  bank : l.bank = abi.bankFor c d
  first : l.first.toNat = abi.firstSlot d l.bank (c.used l.bank)
  count : l.count.toNat = d.slots l.bank
  stop : l.stop = (abi.assign c d).2.used l.bank
  stop_le : l.stop ≤ abi.budget l.bank

theorem grants_assign {abi : Abi} (hv : abi.Valid) {c : Cursor} {d : Demand}
    (hn : (abi.assign c d).2.Within abi) : abi.Grants c d (abi.assign c d).1 := by
  have hb := hn (abi.bankFor c d)
  have hlt := budget_lt_256 hv (abi.bankFor c d)
  rw [used_assign_self] at hb
  have hbank : (abi.assign c d).1.bank = abi.bankFor c d := by rw [assign_fst]; rfl
  have hfirst : (abi.assign c d).1.first.toNat =
      abi.firstSlot d (abi.bankFor c d) (c.used (abi.bankFor c d)) := by
    rw [assign_fst, Location.toNat_first_ofNat _ _ (by omega)]
  have hcount : (abi.assign c d).1.count.toNat = d.slots (abi.bankFor c d) := by
    rw [assign_fst, Location.toNat_count_ofNat _ _ (by omega)]
  have hstop : (abi.assign c d).1.stop = (abi.assign c d).2.used (abi.bankFor c d) := by
    rw [used_assign_self, Location.stop, hfirst, hcount]
  refine ⟨hbank, ?_, ?_, ?_, ?_⟩
  · rw [hbank, hfirst]
  · rw [hbank, hcount]
  · rw [hbank, hstop]
  · rw [hbank, hstop, used_assign_self]
    exact hb

theorem Grants.used_le_first {abi : Abi} {c : Cursor} {d : Demand} {l : Location}
    (h : abi.Grants c d l) : c.used l.bank ≤ l.first.toNat := by
  rw [h.first]
  exact le_firstSlot ..

end Abi

/-! ### Runs of steps -/

/-- Values are seated one after the other, from one cursor to another, and none of them leaves the
stack limit. -/
inductive Abi.Seated (abi : Abi) : Cursor → List Passenger → List Placement → Cursor → Prop
  | nil (c : Cursor) : Seated abi c [] [] c
  | cons {c c' : Cursor} {p : Passenger} {ps : List Passenger} {xs : List Placement} :
      (abi.assign c p.demand).2.stack ≤ abi.stackSlots →
      Seated abi (abi.assign c p.demand).2 ps xs c' →
      Seated abi c (p :: ps) (⟨p.role, (abi.assign c p.demand).1⟩ :: xs) c'

namespace Abi

variable {abi : Abi}

theorem route_eq_ok_iff {c : Cursor} {d : Demand} {r : Location × Cursor} :
    abi.route c d = .ok r ↔ r = abi.assign c d ∧ (abi.assign c d).2.stack ≤ abi.stackSlots := by
  unfold route
  by_cases h : abi.stackSlots < (abi.assign c d).2.stack
  · simp [h]
  · simp only [h, if_false, Except.ok.injEq]
    constructor
    · rintro rfl
      exact ⟨rfl, Nat.le_of_not_lt h⟩
    · rintro ⟨rfl, -⟩
      rfl

theorem seat_eq_ok_iff {c c' : Cursor} {ps : List Passenger} {xs : List Placement} :
    abi.seat c ps = .ok (xs, c') ↔ abi.Seated c ps xs c' := by
  induction ps generalizing c xs with
  | nil =>
      constructor
      · intro h
        cases h
        exact .nil _
      · intro h
        cases h
        rfl
  | cons p ps ih =>
      simp only [seat, bind_eq_ok, route_eq_ok_iff]
      constructor
      · rintro ⟨r, ⟨rfl, hs⟩, ⟨ys, c₂⟩, hys, he⟩
        cases he
        exact .cons hs (ih.mp hys)
      · intro h
        cases h with
        | cons hs h => exact ⟨_, ⟨rfl, hs⟩, _, ih.mpr h, rfl⟩

namespace Seated

variable {c c' : Cursor} {ps : List Passenger} {xs : List Placement}

theorem within (h : abi.Seated c ps xs c') (hc : c.Within abi) : c'.Within abi := by
  induction h with
  | nil c => exact hc
  | cons hs _ ih => exact ih (hc.assign hs)

theorem used_le (h : abi.Seated c ps xs c') (hc : c.Within abi) (b : Bank) :
    c.used b ≤ c'.used b := by
  induction h with
  | nil c => exact Nat.le_refl _
  | cons hs _ ih => exact Nat.le_trans (used_le_used_assign hc _ b) (ih (hc.assign hs))

theorem stop_le_used (hv : abi.Valid) (h : abi.Seated c ps xs c') (hc : c.Within abi) :
    ∀ x ∈ xs, x.location.stop ≤ c'.used x.location.bank := by
  induction h with
  | nil c => simp
  | cons hs h ih =>
      have hn := hc.assign hs
      intro x hx
      rcases List.mem_cons.mp hx with rfl | hx
      · rw [(grants_assign hv hn).stop]
        exact h.used_le hn _
      · exact ih hn x hx

theorem map_role (h : abi.Seated c ps xs c') :
    xs.map Placement.role = ps.map Passenger.role := by
  induction h with
  | nil c => rfl
  | cons _ _ ih => rw [List.map_cons, List.map_cons, ih]

theorem cursor_eq (h : abi.Seated c ps xs c') : c' = abi.advance c (ps.map Passenger.demand) := by
  induction h with
  | nil c => rfl
  | cons _ _ ih => exact ih

/-- A placement was handed out by the cursor behind the placements before it. -/
theorem exists_prefix {x : Placement} {ys : List Placement}
    (h : abi.Seated c ps (xs ++ x :: ys) c') : ∃ ps₁ p c₁, p ∈ ps ∧ abi.Seated c ps₁ xs c₁ ∧
      (abi.assign c₁ p.demand).2.stack ≤ abi.stackSlots ∧
      x = ⟨p.role, (abi.assign c₁ p.demand).1⟩ := by
  induction xs generalizing c ps with
  | nil =>
      cases h with
      | cons hs _ => exact ⟨[], _, c, List.mem_cons_self, .nil c, hs, rfl⟩
  | cons z xs ih =>
      cases h with
      | @cons _ _ q qs _ hs h =>
          obtain ⟨ps₁, p, c₁, hp, hseated, hstack, hx⟩ := ih h
          exact ⟨q :: ps₁, p, c₁, List.mem_cons_of_mem q hp, .cons hs hseated, hstack, hx⟩

/-- Every placement is what one step granted to one of the values, from a cursor within the
budgets. -/
theorem exists_grants (hv : abi.Valid) (h : abi.Seated c ps xs c') (hc : c.Within abi) :
    ∀ x ∈ xs, ∃ p ∈ ps, x.role = p.role ∧ ∃ c₀ : Cursor,
      c₀.Within abi ∧ (∀ b, c.used b ≤ c₀.used b) ∧ abi.Grants c₀ p.demand x.location := by
  induction h with
  | nil c => simp
  | @cons c c' p ps xs hs _ ih =>
      have hn := hc.assign hs
      intro x hx
      rcases List.mem_cons.mp hx with rfl | hx
      · exact ⟨p, by simp, rfl, c, hc, fun b => Nat.le_refl _, grants_assign hv hn⟩
      · obtain ⟨q, hq, hrole, c₀, hc₀, hle, hg⟩ := ih hn x hx
        refine ⟨q, List.mem_cons_of_mem p hq, hrole, c₀, hc₀, ?_, hg⟩
        intro b
        exact Nat.le_trans (used_le_used_assign hc p.demand b) (hle b)

theorem pairwise (hv : abi.Valid) (h : abi.Seated c ps xs c') (hc : c.Within abi) :
    xs.Pairwise fun x y =>
      x.location.bank = y.location.bank → x.location.stop ≤ y.location.first.toNat := by
  induction h with
  | nil c => exact .nil
  | @cons c c' p ps xs hs h ih =>
      have hn := hc.assign hs
      refine List.pairwise_cons.mpr ⟨?_, ih hn⟩
      intro y hy hb
      obtain ⟨q, -, -, c₀, -, hle, hg⟩ := h.exists_grants hv hn y hy
      have hstop := (grants_assign hv hn).stop
      rw [hstop, hb]
      exact Nat.le_trans (hle _) hg.used_le_first

end Seated

end Abi

end ForeignCall
