import ForeignCall.Proofs.Alignment

/-! # The stack limit of an ABI

The router decides where a value goes without looking at the stack limit; the limit only ends a run
that leaves it.  So there is one run for all limits (`Abi.places`, `Abi.advance`), and a limit lets it
through or stops it.

* The stack never shrinks along the run (`stack_le_stack_advance`), so that a run lets all values
  through exactly if it does not end beyond the limit (`seat_eq_ok`, `exists_seat_eq_error`).
* `Abi.withLimit` changes the limit and nothing else.  Lowering, the decision for a value and the
  whole run are the same under every limit.
* The number of slots in the error is where the stack stood behind the first value that left the
  limit (`Lowering.Overflows`), which need not be where it would have ended.

`stackNeed_decides` puts these together: the slots that a call needs are the least limit under which
it can be planned. -/

namespace ForeignCall

/-! ### The run without a limit -/

namespace Abi

/-- The places of a list of values when nothing limits them. -/
def places (abi : Abi) (c : Cursor) : List Passenger → List Placement
  | [] => []
  | p :: ps => ⟨p.role, (abi.assign c p.demand).1⟩ :: places abi (abi.assign c p.demand).2 ps

variable {abi : Abi} {c : Cursor}

theorem stack_le_stack_assign (abi : Abi) (c : Cursor) (d : Demand) :
    c.stack ≤ (abi.assign c d).2.stack := by
  show c.used .stack ≤ (abi.assign c d).2.used .stack
  by_cases h : Bank.stack = abi.bankFor c d
  · rw [h, used_assign_self]
    exact Nat.le_trans (le_firstSlot ..) (Nat.le_add_right ..)
  · exact Nat.le_of_eq (used_stack_assign_ne h).symm

theorem advance_cons (abi : Abi) (c : Cursor) (d : Demand) (ds : List Demand) :
    abi.advance c (d :: ds) = abi.advance (abi.assign c d).2 ds := rfl

theorem stack_le_stack_advance (abi : Abi) (c : Cursor) (ds : List Demand) :
    c.stack ≤ (abi.advance c ds).stack := by
  induction ds generalizing c with
  | nil => exact Nat.le_refl _
  | cons d ds ih =>
      rw [advance_cons]
      exact Nat.le_trans (stack_le_stack_assign abi c d) (ih _)

theorem advance_append (abi : Abi) (c : Cursor) (ds ds' : List Demand) :
    abi.advance c (ds ++ ds') = abi.advance (abi.advance c ds) ds' :=
  List.foldl_append

theorem stackNeed_mono {ps ps' : List Passenger} (h : ps <+: ps') :
    abi.stackNeed (ps.map Passenger.demand) ≤ abi.stackNeed (ps'.map Passenger.demand) := by
  obtain ⟨rest, rfl⟩ := h
  unfold stackNeed
  rw [List.map_append, advance_append]
  exact stack_le_stack_advance ..

/-! ### What a limit does to a run -/

theorem seated_places {ps : List Passenger}
    (h : (abi.advance c (ps.map Passenger.demand)).stack ≤ abi.stackSlots) :
    abi.Seated c ps (abi.places c ps) (abi.advance c (ps.map Passenger.demand)) := by
  induction ps generalizing c with
  | nil => exact .nil c
  | cons p ps ih =>
      have hs : (abi.assign c p.demand).2.stack ≤ abi.stackSlots :=
        Nat.le_trans (stack_le_stack_advance abi _ (ps.map Passenger.demand)) h
      exact .cons hs (ih h)

theorem seat_eq_ok {ps : List Passenger}
    (h : (abi.advance c (ps.map Passenger.demand)).stack ≤ abi.stackSlots) :
    abi.seat c ps = .ok (abi.places c ps, abi.advance c (ps.map Passenger.demand)) :=
  seat_eq_ok_iff.mpr (seated_places h)

/-- A run that ends beyond the limit is stopped by the first value that gets there. -/
theorem exists_seat_eq_error {ps : List Passenger} (hc : c.stack ≤ abi.stackSlots)
    (h : abi.stackSlots < (abi.advance c (ps.map Passenger.demand)).stack) :
    ∃ before x after, ps = before ++ x :: after ∧
      (abi.advance c (before.map Passenger.demand)).stack ≤ abi.stackSlots ∧
      abi.stackSlots < (abi.advance c ((before ++ [x]).map Passenger.demand)).stack ∧
      abi.seat c ps = .error (.tooManyArguments abi.arch
        (abi.advance c ((before ++ [x]).map Passenger.demand)).stack abi.stackSlots) := by
  induction ps generalizing c with
  | nil => exact absurd hc (Nat.not_le.mpr h)
  | cons p ps ih =>
      by_cases hs : (abi.assign c p.demand).2.stack ≤ abi.stackSlots
      · obtain ⟨before, x, after, rfl, hle, hlt, hseat⟩ := ih hs h
        refine ⟨p :: before, x, after, rfl, hle, hlt, ?_⟩
        rw [seat, route_eq_ok_iff.mpr ⟨rfl, hs⟩]
        simp only [bind, Except.bind, hseat]
        rfl
      · have hlt := Nat.not_le.mp hs
        have hroute : abi.route c p.demand = .error (.tooManyArguments abi.arch
            (abi.assign c p.demand).2.stack abi.stackSlots) := if_pos hlt
        refine ⟨[], p, ps, rfl, hc, hlt, ?_⟩
        rw [seat, hroute]
        rfl

/-! ### Another limit -/

/-- The same ABI with another stack limit. -/
def withLimit (abi : Abi) (limit : Nat) : Abi := { abi with stackSlots := limit }

variable (limit : Nat)

theorem assign_withLimit (c : Cursor) (d : Demand) :
    (abi.withLimit limit).assign c d = abi.assign c d := by
  cases d <;> rfl

theorem advance_withLimit (c : Cursor) (ds : List Demand) :
    (abi.withLimit limit).advance c ds = abi.advance c ds := by
  induction ds generalizing c with
  | nil => rfl
  | cons d ds ih => rw [advance_cons, advance_cons, assign_withLimit, ih]

theorem places_withLimit (c : Cursor) (ps : List Passenger) :
    (abi.withLimit limit).places c ps = abi.places c ps := by
  induction ps generalizing c with
  | nil => rfl
  | cons p ps ih => rw [places, places, assign_withLimit, ih]

theorem pass_withLimit (t : ValueType) : (abi.withLimit limit).pass t = abi.pass t := rfl

theorem lowerParams_withLimit (index : Nat) (ts : List ValueType) :
    (abi.withLimit limit).lowerParams index ts = abi.lowerParams index ts := by
  induction ts generalizing index with
  | nil => rfl
  | cons t ts ih =>
      rw [lowerParams, lowerParams, pass_withLimit, ih]
      rfl

theorem lowerResult_withLimit (r : ResultType) :
    (abi.withLimit limit).lowerResult r = abi.lowerResult r := rfl

end Abi

/-- The lowered function for the same ABI with another stack limit. -/
def Lowering.withLimit (l : Lowering) (limit : Nat) : Lowering :=
  { l with abi := l.abi.withLimit limit }

theorem Lowering.passengers_withLimit (l : Lowering) (limit : Nat) :
    (l.withLimit limit).passengers = l.passengers := rfl

theorem Lowering.stackNeed_withLimit (l : Lowering) (limit : Nat) :
    (l.withLimit limit).stackNeed = l.stackNeed := by
  unfold stackNeed Abi.stackNeed
  rw [passengers_withLimit]
  exact congrArg Cursor.stack (Abi.advance_withLimit limit .start _)

/-! ### Plans -/

namespace Callable

variable {f : Callable} {abi : Abi} {l : Lowering}

theorem abi_of_lower (h : f.lower abi = .ok l) : l.abi = abi := by
  obtain ⟨-, params, result, -, -, rfl⟩ := lower_eq_ok_iff.mp h
  rfl

/-- Lowering does not know the limit. -/
theorem lower_withLimit (h : f.lower abi = .ok l) (limit : Nat) :
    f.lower (abi.withLimit limit) = .ok (l.withLimit limit) := by
  obtain ⟨ht, params, result, hparams, hresult, rfl⟩ := lower_eq_ok_iff.mp h
  refine lower_eq_ok_iff.mpr ⟨ht, params, result, ?_, ?_, rfl⟩
  · rw [Abi.lowerParams_withLimit, hparams]
  · rw [Abi.lowerResult_withLimit, hresult]

end Callable

/-- The stack stands at `needed` slots behind the first value that leaves the limit. -/
def Lowering.Overflows (l : Lowering) (needed : Nat) : Prop :=
  ∃ before x after, l.passengers = before ++ x :: after ∧
    l.abi.stackNeed (before.map Passenger.demand) ≤ l.abi.stackSlots ∧
    l.abi.stackSlots < needed ∧
    needed = l.abi.stackNeed ((before ++ [x]).map Passenger.demand)

theorem Lowering.Overflows.le_stackNeed {l : Lowering} {needed : Nat} (h : l.Overflows needed) :
    needed ≤ l.stackNeed := by
  obtain ⟨before, x, after, hps, -, -, rfl⟩ := h
  apply Abi.stackNeed_mono
  exact ⟨after, by simp [hps]⟩

/-- A value that leaves the limit is the first one, so that no other number is less. -/
theorem Lowering.Overflows.le {l : Lowering} {n m : Nat} (hn : l.Overflows n)
    (hm : l.Overflows m) : n ≤ m := by
  obtain ⟨before, x, after, hps, hle, -, rfl⟩ := hn
  obtain ⟨before', x', after', hps', -, hlt, rfl⟩ := hm
  have hx : before ++ [x] <+: l.passengers := ⟨after, by simp [hps]⟩
  have hx' : before' ++ [x'] <+: l.passengers := ⟨after', by simp [hps']⟩
  by_cases hlen : (before ++ [x]).length ≤ (before' ++ [x']).length
  · exact Abi.stackNeed_mono (List.prefix_of_prefix_length_le hx hx' hlen)
  · -- the value of `m` is among those that the limit has room for
    have hbefore : before <+: l.passengers := ⟨x :: after, hps.symm⟩
    have hlen' : (before' ++ [x']).length ≤ before.length := by
      simp only [List.length_append, List.length_singleton] at hlen ⊢
      omega
    have hneed := l.abi.stackNeed_mono (List.prefix_of_prefix_length_le hx' hbefore hlen')
    omega

theorem Lowering.Overflows.unique {l : Lowering} {n m : Nat} (hn : l.Overflows n)
    (hm : l.Overflows m) : n = m :=
  Nat.le_antisymm (hn.le hm) (hm.le hn)

namespace Plan

variable {f : Callable} {abi : Abi} {l : Lowering}

theorem make_eq_ok_of_stackNeed_le (hl : f.lower abi = .ok l) (h : l.stackNeed ≤ abi.stackSlots) :
    make f abi = .ok ⟨l, abi.places .start l.passengers⟩ := by
  obtain rfl := Callable.abi_of_lower hl
  unfold make
  rw [hl]
  simp only [bind, Except.bind, Abi.seat_eq_ok h]
  rfl

theorem exists_make_eq_error (hl : f.lower abi = .ok l) (h : abi.stackSlots < l.stackNeed) :
    ∃ needed, l.Overflows needed ∧
      make f abi = .error (.refused (.tooManyArguments abi.arch needed abi.stackSlots)) := by
  obtain rfl := Callable.abi_of_lower hl
  obtain ⟨before, x, after, hps, hle, hlt, hseat⟩ :=
    Abi.exists_seat_eq_error (c := .start) (Nat.zero_le _) h
  refine ⟨_, ⟨before, x, after, hps, hle, hlt, rfl⟩, ?_⟩
  unfold make
  rw [hl]
  simp only [bind, Except.bind, hseat]
  rfl

theorem exists_make_eq_ok_iff (hl : f.lower abi = .ok l) :
    (∃ p, make f abi = .ok p) ↔ l.stackNeed ≤ abi.stackSlots := by
  constructor
  · rintro ⟨p, hp⟩
    by_contra h
    obtain ⟨needed, -, hmake⟩ := exists_make_eq_error hl (Nat.not_le.mp h)
    rw [hp] at hmake
    cases hmake
  · intro h
    exact ⟨_, make_eq_ok_of_stackNeed_le hl h⟩

/-- The plan of a lowered function is that function with the run without a limit. -/
theorem eq_of_make (hl : f.lower abi = .ok l) {p : Plan} (hp : make f abi = .ok p) :
    p = ⟨l, abi.places .start l.passengers⟩ := by
  rw [make_eq_ok_of_stackNeed_le hl ((exists_make_eq_ok_iff hl).mp ⟨p, hp⟩)] at hp
  exact (Except.ok.inj hp).symm

/-- The need is where the stack part of a layout ends. -/
theorem Planned.lastStop_stack_eq (hv : abi.Valid) {p : Plan} (hp : p.Planned f abi) :
    lastStop .stack p.layout = p.stackNeed := by
  obtain ⟨c, hs⟩ := hp.seated
  have hused := hs.used_stack_eq_foldl (hp.valid hv) (Cursor.within_start p.abi)
  rw [hs.cursor_eq, Cursor.used_start] at hused
  exact hused.symm

/-- A function that can be lowered is planned exactly if the stack slots that its values need are
within the limit.  Otherwise the limit is reported, with the slots that are used up behind the first
value beyond it: more than the limit, and not more than the need.  The need is where the layout ends
on the stack, and it is the least limit under which there is a plan; under all of these limits the
plan is the same. -/
theorem stackNeed_decides (hv : abi.validate = .ok ()) (hl : f.lower abi = .ok l) :
    ((∃ arch needed limit,
        make f abi = .error (.refused (.tooManyArguments arch needed limit))) ↔
      abi.stackSlots < l.stackNeed) ∧
      (∀ e, make f abi = .error e → ∃ needed, l.Overflows needed ∧
        e = .refused (.tooManyArguments abi.arch needed abi.stackSlots) ∧
        abi.stackSlots < needed ∧ needed ≤ l.stackNeed) ∧
      (∀ p, make f abi = .ok p → lastStop .stack p.layout = l.stackNeed) ∧
      (∀ limit, (∃ p, make f (abi.withLimit limit) = .ok p) ↔ l.stackNeed ≤ limit) ∧
      (∀ limit p p', make f abi = .ok p → make f (abi.withLimit limit) = .ok p' →
        p'.params = p.params ∧ p'.result = p.result ∧ p'.layout = p.layout) ∧
      ∀ limit p, abi.stackSlots ≤ limit → make f abi = .ok p →
        ∃ p', make f (abi.withLimit limit) = .ok p' := by
  have hv := abi.validate_eq_ok_iff.mp hv
  have hplan := exists_make_eq_ok_iff hl
  have hlimit : ∀ limit, (∃ p, make f (abi.withLimit limit) = .ok p) ↔ l.stackNeed ≤ limit := by
    intro limit
    rw [exists_make_eq_ok_iff (Callable.lower_withLimit hl limit), l.stackNeed_withLimit]
    exact Iff.rfl
  have herror : ∀ e, make f abi = .error e → abi.stackSlots < l.stackNeed := by
    intro e he
    by_contra h
    obtain ⟨p, hp⟩ := hplan.mpr (Nat.not_lt.mp h)
    rw [hp] at he
    cases he
  refine ⟨?_, ?_, ?_, hlimit, ?_, ?_⟩
  · constructor
    · rintro ⟨arch, needed, limit, he⟩
      exact herror _ he
    · intro h
      obtain ⟨needed, -, he⟩ := exists_make_eq_error hl h
      exact ⟨_, needed, _, he⟩
  · intro e he
    obtain ⟨needed, hover, hmake⟩ := exists_make_eq_error hl (herror e he)
    rw [he] at hmake
    have hlt : abi.stackSlots < needed := by
      obtain ⟨-, -, -, -, -, hlt, -⟩ := hover
      rwa [Callable.abi_of_lower hl] at hlt
    exact ⟨needed, hover, Except.error.inj hmake, hlt, hover.le_stackNeed⟩
  · intro p hp
    have hneed := (make_eq_ok_iff.mp hp).lastStop_stack_eq hv
    rw [hneed, eq_of_make hl hp]
  · intro limit p p' hp hp'
    rw [eq_of_make hl hp, eq_of_make (Callable.lower_withLimit hl limit) hp',
      Abi.places_withLimit]
    exact ⟨rfl, rfl, rfl⟩
  · intro limit p hle hp
    exact (hlimit limit).mpr (Nat.le_trans (hplan.mp ⟨p, hp⟩) hle)

/-- The crowded method needs eight stack slots on System V.  With five of them the value that
reaches the sixth is reported. -/
theorem stackNeed_decides_crowded : (Abi.systemV.withLimit 5).validate = .ok () ∧
    ∃ l, Callable.crowded.lower (Abi.systemV.withLimit 5) = .ok l ∧ l.stackNeed = 8 ∧
      (∃ needed, l.Overflows needed ∧ make .crowded (Abi.systemV.withLimit 5) =
        .error (.refused (.tooManyArguments .x86_64 needed 5))) ∧
      ∃ p, make .crowded ((Abi.systemV.withLimit 5).withLimit 8) = .ok p := by
  have hl : ∃ l, Callable.crowded.lower (Abi.systemV.withLimit 5) = .ok l ∧ l.stackNeed = 8 :=
    ⟨_, rfl, rfl⟩
  obtain ⟨l, hl, hneed⟩ := hl
  obtain ⟨hrefused, hreport, -, hlimit, -⟩ := stackNeed_decides rfl hl
  have hlt : (Abi.systemV.withLimit 5).stackSlots < l.stackNeed := by
    rw [hneed]
    decide
  obtain ⟨arch, needed, limit, he⟩ := hrefused.mpr hlt
  obtain ⟨needed', hover, heq, -⟩ := hreport _ he
  exact ⟨rfl, l, hl, hneed, ⟨needed', hover, by rw [he, heq]; rfl⟩,
    (hlimit 8).mpr (Nat.le_of_eq hneed)⟩

end Plan

end ForeignCall
