import ForeignCall.Proofs.Layout
import Mathlib.Data.List.Induction

/-! # Registers or stack

The router remembers a class only by how far its registers are used.  Read off a layout, the rule
is about the history of the call: a value gets registers exactly if its class has not been closed
(`Lowering.ClosedBy`) and its slots still fit behind the last run of the class (`lastStop`).

The two agree because of what a cursor records about the places handed out so far
(`Lowering.Recorded`).  A spilled value of several slots moves the cursor to the end of its class,
and a spilled value of one slot finds it there; so with closing on, the cursor of a class that has
spilled is at its budget.  With closing off it stays at the end of the last run.

`registers_iff` is the rule for every value of every layout, with its consequences: what a spill
does to later values, and when a call needs no stack at all. -/

namespace ForeignCall

/-! ### History -/

/-- Where the last run of a bank ends. -/
def lastStop (b : Bank) (xs : List Placement) : Nat :=
  xs.foldl (fun n x => if x.location.bank = b then x.location.stop else n) 0

theorem lastStop_concat (b : Bank) (xs : List Placement) (x : Placement) :
    lastStop b (xs ++ [x]) = if x.location.bank = b then x.location.stop else lastStop b xs := by
  simp [lastStop]

/-- A 16-byte aligned composite of two words. -/
def Pass.isAlignedPair : Pass → Bool
  | .inlineWords words _ align16 => align16 && words.toNat = 2
  | _ => false

/-- Behind a spill that closes its class the registers of the class count as used up: several slots
move the cursor there, and a single one is spilled only if it stands there already. -/
theorem Abi.budget_le_used_of_spill {abi : Abi} {c : Cursor} {d : Demand} (hd : d.bank ≠ .stack)
    (ha : ¬ abi.Admits c d) (hclose : abi.closeOnSpill = true) :
    abi.budget d.bank ≤ (abi.assign c d).2.used d.bank := by
  have hne : d.bank ≠ abi.bankFor c d := fun he => ha ((bankFor_eq_bank_iff hd).mp he.symm)
  rw [used_assign_ne hne]
  by_cases h1 : 1 < d.slots d.bank
  · exact Nat.le_of_eq (if_pos ⟨⟨hd, ha, h1, hclose⟩, rfl⟩).symm
  · rw [if_neg (fun h => h1 h.1.2.2.1)]
    have hfull : ¬ c.used d.bank + d.slots d.bank ≤ abi.budget d.bank := by
      intro hle
      refine ha ⟨hd, ?_⟩
      rwa [abi.firstSlot_of_slots_le_one _ hd (by omega)]
    omega

namespace Lowering

variable (l : Lowering)

/-- The register at which a value starts behind `n` used ones. -/
def startAfter (r : Role) (n : Nat) : Nat :=
  if (l.passOf r).isAlignedPair && l.abi.evenForAlign16 then evenUp n else n

/-- A value of the class has been spilled, and spilling closes classes. -/
def ClosedBy (b : Bank) (xs : List Placement) : Prop :=
  l.abi.closeOnSpill = true ∧ ∃ x ∈ xs, (l.passOf x.role).bank = b ∧ x.location.bank = .stack

/-- What a cursor tells about the places handed out so far. -/
def Recorded (xs : List Placement) (c : Cursor) : Prop :=
  ∀ b, b ≠ .stack →
    (l.ClosedBy b xs → l.abi.budget b ≤ c.used b) ∧
      (¬ l.ClosedBy b xs → c.used b = lastStop b xs)

variable {l}

theorem closedBy_concat {b : Bank} {xs : List Placement} {x : Placement} :
    l.ClosedBy b (xs ++ [x]) ↔ l.ClosedBy b xs ∨
      l.abi.closeOnSpill = true ∧ (l.passOf x.role).bank = b ∧ x.location.bank = .stack := by
  unfold ClosedBy
  constructor
  · rintro ⟨hc, y, hy, h⟩
    rcases List.mem_append.mp hy with hy | hy
    · exact Or.inl ⟨hc, y, hy, h⟩
    · rw [List.mem_singleton.mp hy] at h
      exact Or.inr ⟨hc, h⟩
  · rintro (⟨hc, y, hy, h⟩ | ⟨hc, h⟩)
    · exact ⟨hc, y, by simp [hy], h⟩
    · exact ⟨hc, x, by simp, h⟩

theorem recorded_start : l.Recorded [] .start := by
  intro b _
  rw [Cursor.used_start]
  exact ⟨fun h => by simp [ClosedBy] at h, fun _ => rfl⟩

theorem firstSlot_demand {r : Role} (hr : (l.passOf r).bank ≠ .stack) (n : Nat) :
    l.abi.firstSlot (l.passOf r).demand (l.passOf r).bank n = l.startAfter r n := by
  unfold startAfter Abi.firstSlot
  cases hp : l.passOf r with
  | stackImage words size align16 =>
      rw [hp] at hr
      exact absurd rfl hr
  | inlineWords words size align16 =>
      simp [Pass.demand, Pass.bank, Pass.isAlignedPair, Abi.startsEven]
  | general scalar => rfl
  | float32 => rfl
  | float64 => rfl
  | address => rfl
  | floatMembers count width size => rfl

/-- A class that is closed admits no value, for its registers count as used up. -/
theorem Recorded.admits_iff {xs : List Placement} {c : Cursor} (hr : l.Recorded xs c) {r : Role}
    (hb : (l.passOf r).bank ≠ .stack) (hpos : 0 < (l.passOf r).slots (l.passOf r).bank) :
    l.abi.Admits c (l.passOf r).demand ↔
      ¬ l.ClosedBy (l.passOf r).bank xs ∧
        l.startAfter r (lastStop (l.passOf r).bank xs) + (l.passOf r).slots (l.passOf r).bank ≤
          l.abi.budget (l.passOf r).bank := by
  obtain ⟨hclosed, hopen⟩ := hr _ hb
  unfold Abi.Admits
  rw [Pass.bank_demand, Pass.slots_demand]
  constructor
  · rintro ⟨-, hfit⟩
    have hn : ¬ l.ClosedBy (l.passOf r).bank xs := by
      intro h
      have hle := l.abi.le_firstSlot (l.passOf r).demand (l.passOf r).bank
        (c.used (l.passOf r).bank)
      have := hclosed h
      omega
    rw [firstSlot_demand hb, hopen hn] at hfit
    exact ⟨hn, hfit⟩
  · rintro ⟨hn, hfit⟩
    rw [firstSlot_demand hb, hopen hn]
    exact ⟨hb, hfit⟩

theorem Recorded.concat {xs : List Placement} {c : Cursor}
    (hr : l.Recorded xs c) {r : Role} {loc : Location} (hpos : ∀ b, 0 < (l.passOf r).slots b)
    (hg : l.abi.Grants c (l.passOf r).demand loc) :
    l.Recorded (xs ++ [⟨r, loc⟩]) (l.abi.assign c (l.passOf r).demand).2 := by
  intro b hb
  rw [closedBy_concat, lastStop_concat]
  by_cases h : b = l.abi.bankFor c (l.passOf r).demand
  · -- the value went to registers of this class, so the class was open and still is
    have hbank : (l.passOf r).bank = b := by
      rw [h, ← Pass.bank_demand]
      rcases l.abi.bankFor_eq c (l.passOf r).demand with he | he
      · exact he.symm
      · exact absurd (h.trans he) hb
    have hrb : (l.passOf r).bank ≠ .stack := by rwa [hbank]
    have ha : l.abi.Admits c (l.passOf r).demand := by
      rw [← Abi.bankFor_eq_bank_iff (by rwa [Pass.bank_demand]), Pass.bank_demand, hbank, h]
    have hn := ((hr.admits_iff hrb (hpos _)).mp ha).1
    rw [hbank] at hn
    have hloc : loc.bank = b := by rw [hg.bank, h]
    rw [if_pos hloc]
    constructor
    · rintro (hcl | ⟨-, -, hs⟩)
      · exact absurd hcl hn
      · exact absurd (hloc.symm.trans hs) hb
    · intro _
      rw [hg.stop, hloc]
  · have hloc : loc.bank ≠ b := by
      rw [hg.bank]
      exact fun he => h he.symm
    rw [if_neg hloc, Abi.used_assign_ne h]
    obtain ⟨hclosed, hopen⟩ := hr b hb
    by_cases hbank : (l.passOf r).bank = b
    · -- a value of this class was spilled
      have hrb : (l.passOf r).demand.bank ≠ .stack := by rwa [Pass.bank_demand, hbank]
      have ha : ¬ l.abi.Admits c (l.passOf r).demand := by
        rw [← Abi.bankFor_eq_bank_iff hrb, Pass.bank_demand, hbank]
        exact fun he => h he.symm
      have hstack : loc.bank = .stack := by
        rw [hg.bank]
        exact if_neg ha
      cases hcl : l.abi.closeOnSpill with
      | true =>
          have hfull := Abi.budget_le_used_of_spill hrb ha hcl
          rw [Pass.bank_demand, hbank, Abi.used_assign_ne h] at hfull
          exact ⟨fun _ => hfull, fun hn => absurd (Or.inr ⟨rfl, hbank, hstack⟩) hn⟩
      | false =>
          rw [if_neg (fun hc => by simpa [hcl] using hc.1.2.2.2)]
          constructor
          · rintro (hold | ⟨hc, -⟩)
            · exact hclosed hold
            · cases hc
          · exact fun hn => hopen (fun hold => hn (Or.inl hold))
    · -- the value is of another class
      rw [if_neg (fun hc => hbank (by rw [hc.2, Pass.bank_demand]))]
      constructor
      · rintro (hold | ⟨-, he, -⟩)
        · exact hclosed hold
        · exact absurd he hbank
      · exact fun hn => hopen (fun hold => hn (Or.inl hold))

end Lowering

/-! ### The rule along a run -/

/-- Every place of a run was granted by a cursor that records the places before it. -/
theorem Abi.Seated.exists_recorded {l : Lowering} (hv : l.abi.Valid) {c c' : Cursor}
    {ps : List Passenger} {zs before : List Placement} (h : l.abi.Seated c ps zs c')
    (hps : ∀ q ∈ ps, q.demand = (l.passOf q.role).demand)
    (hpos : ∀ r b, 0 < (l.passOf r).slots b) (hc : c.Within l.abi) (hr : l.Recorded before c)
    {xs ys : List Placement} {x : Placement} (hz : zs = xs ++ x :: ys) :
    ∃ c₀, l.Recorded (before ++ xs) c₀ ∧ l.abi.Grants c₀ (l.passOf x.role).demand x.location := by
  induction h generalizing before xs with
  | nil c => simp at hz
  | @cons c c' p ps zs hs _ ih =>
      have hn := hc.assign hs
      have hg := Abi.grants_assign hv hn
      have hd := hps p (by simp)
      rw [hd] at hg hn
      cases xs with
      | nil =>
          rw [List.nil_append, List.cons.injEq] at hz
          obtain ⟨rfl, -⟩ := hz
          refine ⟨c, by rwa [List.append_nil], ?_⟩
          rw [hd]
          exact hg
      | cons y xs =>
          rw [List.cons_append, List.cons.injEq] at hz
          obtain ⟨rfl, hz⟩ := hz
          have hnext := hr.concat (hpos p.role) hg
          rw [← hd] at hn hnext
          obtain ⟨c₀, hr₀, hg₀⟩ := ih (fun q hq => hps q (List.mem_cons_of_mem p hq)) hn hnext hz
          rw [List.append_assoc] at hr₀
          exact ⟨c₀, hr₀, hg₀⟩

theorem Abi.Seated.used_stack {abi : Abi} {c c' : Cursor} {ps : List Passenger}
    {xs : List Placement} (h : abi.Seated c ps xs c')
    (hx : ∀ x ∈ xs, x.location.bank ≠ .stack) : c'.used .stack = c.used .stack := by
  induction h with
  | nil c => rfl
  | @cons c c' p ps xs hs h ih =>
      have hne : Bank.stack ≠ abi.bankFor c p.demand := by
        have hb := hx _ List.mem_cons_self
        rw [assign_fst] at hb
        exact fun he => hb he.symm
      rw [ih (fun x hmem => hx x (List.mem_cons_of_mem _ hmem)), used_stack_assign_ne hne]

/-! ### Calls that fit their registers -/

namespace Lowering

variable (l : Lowering)

/-- Slots of a bank that values take when all values of its class go there. -/
def needed (b : Bank) (rs : List Role) : Nat :=
  rs.foldl
    (fun n r => if (l.passOf r).bank = b then l.startAfter r n + (l.passOf r).slots b else n) 0

theorem needed_concat (b : Bank) (rs : List Role) (r : Role) :
    l.needed b (rs ++ [r]) =
      if (l.passOf r).bank = b then l.startAfter r (l.needed b rs) + (l.passOf r).slots b
      else l.needed b rs := by
  simp [needed]

theorem le_startAfter (r : Role) (n : Nat) : n ≤ l.startAfter r n := by
  unfold startAfter
  split
  · exact le_evenUp n
  · exact Nat.le_refl n

theorem passOf_bank_ne_stack {l : Lowering} (h : ∀ q ∈ l.params, q.pass.bank ≠ .stack) (r : Role) :
    (l.passOf r).bank ≠ .stack := by
  cases r with
  | param k =>
      simp only [passOf]
      cases hq : l.params[k]? with
      | none =>
          intro he
          cases he
      | some q => exact h q (List.mem_of_getElem? hq)
  | hiddenReturn | object | secondObject =>
      intro he
      cases he

theorem needed_le_needed_append (b : Bank) (rs rs' : List Role) :
    l.needed b rs ≤ l.needed b (rs ++ rs') := by
  induction rs' using List.reverseRecOn with
  | nil => exact Nat.le_of_eq (congrArg _ (List.append_nil rs).symm)
  | append_singleton rs' r ih =>
      rw [← List.append_assoc, needed_concat]
      split
      · have := l.le_startAfter r (l.needed b (rs ++ rs'))
        omega
      · exact ih

end Lowering

namespace Plan

variable {p : Plan} {f : Callable} {abi : Abi}

theorem Planned.slots_pos (hv : abi.Valid) (hp : p.Planned f abi) (r : Role) (b : Bank) :
    0 < (p.passOf r).slots b :=
  (p.bounded_passOf (hp.sound hv) r).slots_pos b

theorem Planned.exists_recorded (hv : abi.Valid) (hp : p.Planned f abi) {xs ys : List Placement}
    {x : Placement} (hsplit : p.layout = xs ++ x :: ys) :
    ∃ c, p.Recorded xs c ∧ p.abi.Grants c (p.passOf x.role).demand x.location := by
  obtain ⟨c, hs⟩ := hp.seated
  exact hs.exists_recorded (hp.valid hv) (fun q hq => p.demand_eq hq) (hp.slots_pos hv)
    (Cursor.within_start p.abi) Lowering.recorded_start hsplit

/-- A value gets registers exactly if its class is open and its slots fit behind the last run. -/
theorem Planned.bank_eq_iff (hv : abi.Valid) (hp : p.Planned f abi) {xs ys : List Placement}
    {x : Placement} (hsplit : p.layout = xs ++ x :: ys) (hb : (p.passOf x.role).bank ≠ .stack) :
    x.location.bank = (p.passOf x.role).bank ↔
      ¬ p.ClosedBy (p.passOf x.role).bank xs ∧
        p.startAfter x.role (lastStop (p.passOf x.role).bank xs) +
            (p.passOf x.role).slots (p.passOf x.role).bank ≤
          p.abi.budget (p.passOf x.role).bank := by
  obtain ⟨c, hr, hg⟩ := hp.exists_recorded hv hsplit
  rw [← hr.admits_iff hb (hp.slots_pos hv _ _), hg.bank, ← Pass.bank_demand]
  exact Abi.bankFor_eq_bank_iff (by rwa [Pass.bank_demand])

theorem Planned.bank_eq_stack (hv : abi.Valid) (hp : p.Planned f abi) {x : Placement}
    (hx : x ∈ p.layout) (hne : x.location.bank ≠ (p.passOf x.role).bank) :
    x.location.bank = .stack :=
  (hp.proper hv x hx).bank.resolve_left hne

theorem Planned.bank_eq_stack_of_spilled (hv : abi.Valid) (hp : p.Planned f abi)
    (hclose : p.abi.closeOnSpill = true) {xs ys : List Placement} {x y : Placement}
    (hsplit : p.layout = xs ++ x :: ys) (hb : (p.passOf x.role).bank ≠ .stack)
    (hstack : x.location.bank = .stack) (hy : y ∈ ys)
    (hpass : (p.passOf y.role).bank = (p.passOf x.role).bank) : y.location.bank = .stack := by
  obtain ⟨as, bs, rfl⟩ := List.append_of_mem hy
  have hsplit' : p.layout = (xs ++ x :: as) ++ y :: bs := by simp [hsplit]
  have hclosed : p.ClosedBy (p.passOf y.role).bank (xs ++ x :: as) :=
    ⟨hclose, x, by simp, hpass.symm, hstack⟩
  apply hp.bank_eq_stack hv (by simp [hsplit'])
  intro he
  exact ((hp.bank_eq_iff hv hsplit' (by rwa [hpass])).mp he).1 hclosed

theorem Planned.first_eq (hv : abi.Valid) (hp : p.Planned f abi) {xs ys : List Placement}
    {x : Placement} (hsplit : p.layout = xs ++ x :: ys) (hb : (p.passOf x.role).bank ≠ .stack)
    (hbank : x.location.bank = (p.passOf x.role).bank) :
    x.location.first.toNat = p.startAfter x.role (lastStop (p.passOf x.role).bank xs) := by
  obtain ⟨c, hr, hg⟩ := hp.exists_recorded hv hsplit
  have hn := ((hp.bank_eq_iff hv hsplit hb).mp hbank).1
  rw [hg.first, hbank, Lowering.firstSlot_demand hb, (hr _ hb).2 hn]

/-- Where nothing was spilled the runs of a class end as far as its values need. -/
theorem Planned.needed_eq_lastStop (hv : abi.Valid) (hp : p.Planned f abi)
    {xs ys : List Placement} (hsplit : p.layout = xs ++ ys)
    (hreg : ∀ x ∈ xs, x.location.bank ≠ .stack) {b : Bank} (hb : b ≠ .stack) :
    p.needed b (xs.map Placement.role) = lastStop b xs := by
  induction xs using List.reverseRecOn generalizing ys with
  | nil => rfl
  | append_singleton xs x ih =>
      rw [List.append_assoc, List.singleton_append] at hsplit
      have hmem : x ∈ p.layout := by simp [hsplit]
      have hx := hp.proper hv x hmem
      have hbank := hp.bank_eq_of_ne_stack hv hmem (hreg x (by simp))
      have ih := ih hsplit (fun y hy => hreg y (by simp [hy]))
      rw [List.map_append, List.map_singleton, Lowering.needed_concat, lastStop_concat, ih, hbank]
      by_cases h : (p.passOf x.role).bank = b
      · rw [if_pos h, if_pos h, Location.stop, hp.first_eq hv hsplit (by rwa [h]) hbank, hx.count,
          hbank, h]
      · rw [if_neg h, if_neg h]

theorem Planned.bank_ne_stack_of_needed_le (hv : abi.Valid) (hp : p.Planned f abi)
    (hpass : ∀ q ∈ p.params, q.pass.bank ≠ .stack)
    (hfit : ∀ b, b ≠ .stack → p.needed b p.roles ≤ p.abi.budget b) {xs ys : List Placement}
    (hsplit : p.layout = xs ++ ys) : ∀ x ∈ xs, x.location.bank ≠ .stack := by
  have hroles := hp.map_role_layout
  induction xs using List.reverseRecOn generalizing ys with
  | nil => simp
  | append_singleton xs x ih =>
      have hsplit' := hsplit
      rw [List.append_assoc, List.singleton_append] at hsplit'
      have ih := ih hsplit'
      intro y hy
      rcases List.mem_append.mp hy with hy | hy
      · exact ih y hy
      rw [List.mem_singleton.mp hy]
      have hb := Lowering.passOf_bank_ne_stack hpass x.role
      have hopen : ¬ p.ClosedBy (p.passOf x.role).bank xs :=
        fun h => h.2.elim fun z hz => ih z hz.1 hz.2.2
      have hle : p.needed (p.passOf x.role).bank ((xs ++ [x]).map Placement.role) ≤
          p.abi.budget (p.passOf x.role).bank := by
        have hall : p.roles = (xs ++ [x]).map Placement.role ++ ys.map Placement.role := by
          rw [← hroles, hsplit, ← List.map_append]
        refine Nat.le_trans ?_ (hfit _ hb)
        rw [hall]
        exact p.needed_le_needed_append _ _ _
      rw [List.map_append, List.map_singleton, Lowering.needed_concat, if_pos rfl,
        hp.needed_eq_lastStop hv hsplit' ih hb] at hle
      rw [(hp.bank_eq_iff hv hsplit' hb).mpr ⟨hopen, hle⟩]
      exact hb

theorem Planned.stackNeed_eq_zero (hp : p.Planned f abi)
    (hx : ∀ x ∈ p.layout, x.location.bank ≠ .stack) : p.stackNeed = 0 := by
  obtain ⟨c, hs⟩ := hp.seated
  have hc := hs.used_stack hx
  rw [hs.cursor_eq] at hc
  exact hc

/-- The place of every value is decided by the places before it.  A value whose class is open and
whose slots fit behind the last run of the class gets the next registers of the class, and any
other value goes to the stack; a class is closed by its first spill if the ABI says so, and never
otherwise.  Where all values fit, nothing goes to the stack. -/
theorem registers_iff (hv : abi.validate = .ok ()) (hp : make f abi = .ok p) :
    p.abi = abi ∧
      (∀ x ∈ p.layout, (p.passOf x.role).bank = .stack → x.location.bank = .stack) ∧
      (∀ b xs x ys, p.layout = xs ++ x :: ys → (p.passOf x.role).bank = b → b ≠ .stack →
        (x.location.bank = b ↔
          ¬ p.ClosedBy b xs ∧
            p.startAfter x.role (lastStop b xs) + (p.passOf x.role).slots b ≤ abi.budget b) ∧
        (x.location.bank = b → x.location.first.toNat = p.startAfter x.role (lastStop b xs)) ∧
        (x.location.bank ≠ b → x.location.bank = .stack)) ∧
      (abi.closeOnSpill = true → ∀ b xs x ys, p.layout = xs ++ x :: ys →
        (p.passOf x.role).bank = b → b ≠ .stack → x.location.bank = .stack →
        ∀ y ∈ ys, (p.passOf y.role).bank = b → y.location.bank = .stack) ∧
      (abi.closeOnSpill = false → ∀ b xs x ys, p.layout = xs ++ x :: ys →
        (p.passOf x.role).bank = b → b ≠ .stack →
        (x.location.bank = b ↔
          p.startAfter x.role (lastStop b xs) + (p.passOf x.role).slots b ≤ abi.budget b)) ∧
      ((∀ q ∈ p.params, q.pass.bank ≠ .stack) →
        (∀ b, b ≠ .stack → p.needed b p.roles ≤ abi.budget b) →
        (∀ x ∈ p.layout, x.location.bank ≠ .stack) ∧ p.stackNeed = 0) := by
  have hv := abi.validate_eq_ok_iff.mp hv
  have hp := make_eq_ok_iff.mp hp
  have habi := hp.abi_eq
  subst habi
  have hrule : ∀ b xs x ys, p.layout = xs ++ x :: ys → (p.passOf x.role).bank = b → b ≠ .stack →
      (x.location.bank = b ↔
        ¬ p.ClosedBy b xs ∧
          p.startAfter x.role (lastStop b xs) + (p.passOf x.role).slots b ≤ p.abi.budget b) := by
    rintro _ xs x ys hsplit rfl hb
    exact hp.bank_eq_iff hv hsplit hb
  refine ⟨rfl, ?_, ?_, ?_, ?_, ?_⟩
  · intro x hx hb
    rcases (hp.proper hv x hx).bank with h | h
    · rw [h, hb]
    · exact h
  · rintro b xs x ys hsplit hpass hb
    refine ⟨hrule b xs x ys hsplit hpass hb, ?_, ?_⟩
    · subst hpass
      exact hp.first_eq hv hsplit hb
    · subst hpass
      exact hp.bank_eq_stack hv (by simp [hsplit])
  · rintro hclose _ xs x ys hsplit rfl hb hstack y hy hpass
    exact hp.bank_eq_stack_of_spilled hv hclose hsplit hb hstack hy hpass
  · intro hclose b xs x ys hsplit hpass hb
    rw [hrule b xs x ys hsplit hpass hb]
    have hopen : ¬ p.ClosedBy b xs := by
      rintro ⟨hc, -⟩
      rw [hclose] at hc
      cases hc
    exact and_iff_right hopen
  · intro hpass hfit
    have hx := hp.bank_ne_stack_of_needed_le hv hpass hfit (List.append_nil p.layout).symm
    exact ⟨hx, hp.stackNeed_eq_zero hx⟩

/-- On AArch64 the last pair of the crowded method does not fit any more, and closes its class. -/
theorem registers_iff_crowded : Abi.aarch64.validate = .ok () ∧
    ∃ p, make .crowded .aarch64 = .ok p ∧
      ∀ b xs x ys, p.layout = xs ++ x :: ys → (p.passOf x.role).bank = b → b ≠ .stack →
        x.location.bank = .stack →
        ∀ y ∈ ys, (p.passOf y.role).bank = b → y.location.bank = .stack := by
  obtain ⟨p, hp⟩ := Callable.make_crowded .aarch64
  obtain ⟨-, -, -, hclosed, -⟩ := registers_iff rfl hp
  exact ⟨rfl, p, hp, hclosed rfl⟩

end Plan

end ForeignCall
