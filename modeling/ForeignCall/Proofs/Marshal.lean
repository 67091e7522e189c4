import ForeignCall.Proofs.Image
import ForeignCall.Proofs.Layout

/-! # Marshaled frames

A frame is filled by walking the values of a call and routing each of them again.  The walk keeps
its own position in the argument buffer; it visits the passengers that the plan has placed
(`Plan.fill_eq_foldlM`), and what comes out is the layout of the plan with every place holding its
value.

* `Lowering.contents` says what belongs into a place, by its role and from the arguments alone.
* `Lowering.Accepts` are the promises of a caller.
* `Lowering.Carries` tells how a frame with some values on board differs from the frame before.  One
  step gives it for one value (`board_eq_ok`), and since the runs of a layout never share a slot it
  composes along the run (`Carries.cons`, `foldlM_board_eq_ok`).

`marshal_realizes_layout` puts these together. -/

namespace ForeignCall

/-! ### Slots of a frame -/

/-- The slot is one of the run. -/
def Location.Covers (l : Location) (b : Bank) (i : Nat) : Prop :=
  l.bank = b ∧ l.first.toNat ≤ i ∧ i < l.stop

namespace Frame

theorem slots_write_of_not_covers {f : Frame} {l : Location} {ws : List UInt64}
    (hws : ws.length = l.count.toNat) {b : Bank} {i : Nat} (h : ¬ l.Covers b i) :
    (f.write l ws).slots b i = f.slots b i := by
  simp only [write]
  split
  · rename_i hin
    have hstop : l.stop ≤ i := Nat.le_of_not_lt fun hlt => h ⟨hin.1.symm, hin.2, hlt⟩
    unfold Location.stop at hstop
    rw [List.getElem?_eq_none (by omega)]
    rfl
  · rfl

theorem read_write (f : Frame) {l : Location} {ws : List UInt64}
    (hws : ws.length = l.count.toNat) : (f.write l ws).read l = ws := by
  apply List.ext_getElem
  · simp [read, hws]
  · intro i hi hi'
    simp [read, write, hi']

theorem read_congr {f f' : Frame} {l : Location}
    (h : ∀ b i, l.Covers b i → f'.slots b i = f.slots b i) : f'.read l = f.read l := by
  unfold read
  apply List.map_congr_left
  intro i hi
  have hlt : i < l.count.toNat := List.mem_range.mp hi
  refine h l.bank (l.first.toNat + i) ⟨rfl, Nat.le_add_right .., ?_⟩
  unfold Location.stop
  omega

end Frame

/-! ### What belongs into a place -/

/-- The words of a parameter, taken from the buffer at `offset`. -/
def ParamPlan.contents (q : ParamPlan) (b : ArgumentBuffer) (m : Memory) (offset : Nat)
    (l : Location) : List UInt64 :=
  match q.pass with
  | .general scalar => [scalar.widen (b.value offset q.words)]
  | .float32 => [b.value offset 1]
  | .float64 | .address => [b.value offset 2]
  | .inlineWords _ size _ | .stackImage _ size _ =>
      m.image (b.value offset 2) size.toNat 8 l.count.toNat
  | .floatMembers _ width size =>
      m.image (b.value offset 2) size.toNat (if l.bank = .float then width.toNat else 8)
        l.count.toNat

/-- The pass copies the bytes of an object. -/
def Pass.copies : Pass → Bool
  | general _ | float32 | float64 | address => false
  | inlineWords .. | floatMembers .. | stackImage .. => true

/-- A parameter whose bytes are to be copied, without an address. -/
def Passenger.Missing (args : Arguments) : Passenger → Prop
  | .param _ offset q => q.pass.copies = true ∧ args.buffer.value offset 2 = 0
  | .hiddenReturn | .object | .secondObject => False

theorem ParamPlan.total_append (ps qs : List ParamPlan) :
    total (ps ++ qs) = total ps + total qs := by
  induction ps with
  | nil => rw [List.nil_append, total, Nat.zero_add]
  | cons p ps ih => rw [List.cons_append, total, total, ih, Nat.add_assoc]

namespace Lowering

variable (l : Lowering)

/-- The words that belong into a place.  The slot of the hidden result pointer stays zero. -/
def contents (args : Arguments) (m : Memory) (x : Placement) : List UInt64 :=
  match x.role with
  | .hiddenReturn => [0]
  | .object => [args.object]
  | .secondObject => [args.second]
  | .param k =>
      match l.params[k]? with
      | some q => q.contents args.buffer m (l.offset k) x.location
      | none => []

/-- What the caller promises: the whole buffer, the pointers that the convention passes, and an
address for every object whose bytes are copied. -/
structure Accepts (args : Arguments) : Prop where
  buffer : args.buffer.size = l.argWords
  object : l.convention.needsObject = true → args.object ≠ 0
  second : l.convention.needsSecondObject = true → args.second ≠ 0
  copied : ∀ k q, l.params[k]? = some q → q.pass.copies = true →
    args.buffer.value (l.offset k) 2 ≠ 0

theorem accepts_iff (args : Arguments) : l.Accepts args ↔
    args.buffer.size = l.argWords ∧ (l.convention.needsObject = true → args.object ≠ 0) ∧
      (l.convention.needsSecondObject = true → args.second ≠ 0) ∧
      ∀ k (h : k < l.params.length), l.params[k].pass.copies = true →
        args.buffer.value (l.offset k) 2 ≠ 0 := by
  constructor
  · rintro ⟨hbuffer, hobject, hsecond, hcopied⟩
    exact ⟨hbuffer, hobject, hsecond, fun k hk => hcopied k _ (List.getElem?_eq_getElem hk)⟩
  · rintro ⟨hbuffer, hobject, hsecond, hcopied⟩
    refine ⟨hbuffer, hobject, hsecond, fun k q hq => ?_⟩
    obtain ⟨hk, rfl⟩ := List.getElem?_eq_some_iff.mp hq
    exact hcopied k hk

instance (args : Arguments) : Decidable (l.Accepts args) :=
  decidable_of_iff _ (l.accepts_iff args).symm

variable {l} in
theorem Accepts.not_missing {args : Arguments} (ha : l.Accepts args) {x : Passenger}
    (hx : x ∈ l.passengers) : ¬ x.Missing args := by
  obtain ⟨rfl, -⟩ | rfl | rfl | ⟨k, q, hq, rfl⟩ := l.mem_passengers hx
  · exact id
  · exact id
  · exact id
  · rintro ⟨hcopies, hnull⟩
    exact ha.copied k q hq hcopies hnull

theorem offset_add_words_le {k : Nat} {q : ParamPlan} (h : l.params[k]? = some q) :
    l.offset k + q.words ≤ l.argWords := by
  obtain ⟨hk, hq⟩ := List.getElem?_eq_some_iff.mp h
  have hsum := congrArg ParamPlan.total (List.take_append_drop k l.params)
  rw [List.drop_eq_getElem_cons hk, hq, ParamPlan.total_append, ParamPlan.total] at hsum
  unfold argWords offset
  omega

end Lowering

/-! ### Putting one value into its slots -/

theorem Abi.Grants.fits {abi : Abi} (hv : abi.Valid) {c : Cursor} {d : Demand} {l : Location}
    (h : abi.Grants c d l) : l.Fits :=
  Nat.le_trans h.stop_le (abi.budget_le_capacity hv l.bank)

namespace Frame

variable {f : Frame} {m : Memory} {l : Location} {address : UInt64}

theorem writeObject_eq {unit size : Nat} (hs : size ≤ unit * l.count.toNat) :
    f.writeObject m l unit address size = f.write l (m.image address size unit l.count.toNat) := by
  unfold writeObject
  rw [Nat.min_eq_left hs, packWords_load]

theorem writeImage_eq_ok {size : Nat} (hl : l.Fits) (hs : size ≤ 8 * l.count.toNat) :
    f.writeImage m l address size =
      .ok (f.write l (m.image address size 8 l.count.toNat)) := by
  unfold writeImage
  rw [if_pos ⟨hl, hs⟩, writeObject_eq hs]

theorem stow_word_eq_ok (hl : l.Fits) (w : UInt64) : f.stow m l (.word w) = .ok (f.write l [w]) :=
  if_pos hl

theorem stow_image_eq_ok {size : UInt32} (ha : address ≠ 0) (hl : l.Fits)
    (hs : size.toNat ≤ 8 * l.count.toNat) :
    f.stow m l (.image address size) =
      .ok (f.write l (m.image address size.toNat 8 l.count.toNat)) := by
  rw [stow]
  rw [if_neg ha, writeImage_eq_ok hl hs]

theorem stow_members_eq_ok {width : UInt8} {size : UInt32} (ha : address ≠ 0) (hl : l.Fits)
    (hs : size.toNat ≤ (if l.bank = .float then width.toNat else 8) * l.count.toNat) :
    f.stow m l (.members width address size) =
      .ok (f.write l (m.image address size.toNat (if l.bank = .float then width.toNat else 8)
        l.count.toNat)) := by
  rw [stow]
  rw [if_neg ha]
  by_cases hb : l.bank = .float
  · rw [if_pos hb] at hs
    rw [if_pos hb, if_pos hl, if_pos hb, writeObject_eq hs]
  · rw [if_neg hb] at hs
    rw [if_neg hb, if_neg hb, writeImage_eq_ok hl hs]

end Frame

namespace ParamPlan

variable {abi : Abi} {q : ParamPlan} {c : Cursor} {l : Location} {b : ArgumentBuffer}

theorem length_contents (hg : abi.Grants c q.pass.demand l) (m : Memory) (offset : Nat) :
    (q.contents b m offset l).length = l.count.toNat := by
  have hcount := hg.count
  rw [Pass.slots_demand] at hcount
  unfold contents
  cases hp : q.pass with
  | general scalar | float32 | float64 | address =>
      rw [hp] at hcount
      exact hcount.symm
  | inlineWords words size align16 | stackImage words size align16
  | floatMembers count width size => exact Memory.length_image ..

/-- A sound parameter is found in the buffer, and its value fits the slots that it was granted. -/
theorem stow_freight (hv : abi.Valid) (hq : q.Sound abi) (hg : abi.Grants c q.pass.demand l)
    {offset : Nat} (hb : offset + q.words ≤ b.size)
    (hcopy : q.pass.copies = true → b.value offset 2 ≠ 0) (m : Memory) :
    ∃ fr, q.freight b offset = .ok fr ∧
      ∀ f : Frame, f.stow m l fr = .ok (f.write l (q.contents b m offset l)) := by
  have hfit := hg.fits hv
  have hcount := hg.count
  rw [Pass.slots_demand] at hcount
  obtain ⟨hbounded, hreads⟩ := hq
  unfold freight contents
  cases hp : q.pass with
  | general scalar =>
      rw [hp] at hreads
      rw [ArgumentBuffer.read_eq_ok hreads hb]
      exact ⟨_, rfl, fun f => Frame.stow_word_eq_ok hfit _⟩
  | float32 =>
      rw [hp] at hreads
      rw [ArgumentBuffer.read_eq_ok (Or.inl rfl) (by rwa [← hreads])]
      exact ⟨_, rfl, fun f => Frame.stow_word_eq_ok hfit _⟩
  | float64 | address =>
      rw [hp] at hreads
      rw [ArgumentBuffer.read_eq_ok (Or.inr rfl) (by rwa [← hreads])]
      exact ⟨_, rfl, fun f => Frame.stow_word_eq_ok hfit _⟩
  | inlineWords words size align16 | stackImage words size align16 =>
      rw [hp] at hreads hbounded hcount
      rw [ArgumentBuffer.address_eq_ok (by rwa [← hreads])]
      refine ⟨_, rfl, fun f => Frame.stow_image_eq_ok (hcopy (by rw [hp]; rfl)) hfit ?_⟩
      rw [hcount]
      exact (unitsFor_le_iff (by omega)).mp (Nat.le_of_eq hbounded.2.symm)
  | floatMembers count width size =>
      rw [hp] at hreads hbounded hcount
      obtain ⟨-, hw, hcw, -⟩ := hbounded
      rw [ArgumentBuffer.address_eq_ok (by rwa [← hreads])]
      refine ⟨_, rfl, fun f => Frame.stow_members_eq_ok (hcopy (by rw [hp]; rfl)) hfit ?_⟩
      -- the width counts in float registers only; a spilled aggregate is an image of whole words
      rw [hcount]
      by_cases hbank : l.bank = .float
      · rw [if_pos hbank, hbank, Pass.slots, hcw]
        exact le_mul_unitsFor (by omega)
      · rw [if_neg hbank, show (Pass.floatMembers count width size).slots l.bank =
          unitsFor size.toNat 8 by cases hl : l.bank <;> first | rfl | exact absurd hl hbank]
        exact le_mul_unitsFor (by omega)

end ParamPlan

/-! ### One step -/

namespace Lowering

variable (l : Lowering)

/-- `f'` is `f` with the values of some places on board: they hold what belongs there, and all other
slots are as before. -/
structure Carries (args : Arguments) (m : Memory) (xs : List Placement) (f f' : Frame) : Prop where
  object : f'.object = f.object
  second : f'.second = f.second
  reads : ∀ x ∈ xs, f'.read x.location = l.contents args m x
  slots : ∀ b i, (∀ x ∈ xs, ¬ x.location.Covers b i) → f'.slots b i = f.slots b i
  reserved : ∀ x ∈ xs, x.role = .hiddenReturn → x.location.bank = .general →
    f'.returnSlot = some x.location.first.toNat
  unreserved : (∀ x ∈ xs, x.role ≠ .hiddenReturn) → f'.returnSlot = f.returnSlot

variable {l : Lowering} {args : Arguments} {m : Memory}

theorem carries_nil (f : Frame) : l.Carries args m [] f f where
  object := rfl
  second := rfl
  reads := by simp
  slots := fun _ _ _ => rfl
  reserved := by simp
  unreserved := fun _ => rfl

/-- Later places share no slot with the first one, so that they leave its contents alone. -/
theorem Carries.cons {x : Placement} {xs : List Placement} {f g f' : Frame}
    (h : l.Carries args m [x] f g) (h' : l.Carries args m xs g f')
    (hdisj : ∀ y ∈ xs, ∀ b i, x.location.Covers b i → ¬ y.location.Covers b i)
    (hrole : ∀ y ∈ xs, x.role = .hiddenReturn → y.role ≠ .hiddenReturn) :
    l.Carries args m (x :: xs) f f' where
  object := h'.object.trans h.object
  second := h'.second.trans h.second
  reads := by
    intro y hy
    rcases List.mem_cons.mp hy with rfl | hy
    · rw [Frame.read_congr fun b i hc => h'.slots b i fun z hz => hdisj z hz b i hc]
      exact h.reads y (by simp)
    · exact h'.reads y hy
  slots := by
    intro b i hi
    rw [h'.slots b i fun y hy => hi y (List.mem_cons_of_mem x hy)]
    exact h.slots b i fun y hy => hi y (by simp [List.mem_singleton.mp hy])
  reserved := by
    intro y hy hr hb
    rcases List.mem_cons.mp hy with rfl | hy
    · rw [h'.unreserved fun z hz => hrole z hz hr]
      exact h.reserved y (by simp) hr hb
    · exact h'.reserved y hy hr hb
  unreserved := by
    intro hr
    rw [h'.unreserved fun y hy => hr y (List.mem_cons_of_mem x hy)]
    exact h.unreserved fun y hy => hr y (by simp [List.mem_singleton.mp hy])

theorem carries_write {f : Frame} {x : Placement} {ws : List UInt64} (c : Cursor)
    (hws : ws = l.contents args m x) (hlen : ws.length = x.location.count.toNat)
    (hr : x.role ≠ .hiddenReturn) :
    l.Carries args m [x] f ({ f with filled := c }.write x.location ws) where
  object := rfl
  second := rfl
  reads := by
    intro y hy
    rw [List.mem_singleton.mp hy, Frame.read_write _ hlen, hws]
  slots := by
    intro b i hi
    exact Frame.slots_write_of_not_covers hlen (hi x (by simp))
  reserved := by
    intro y hy h
    rw [List.mem_singleton.mp hy] at h
    exact absurd h hr
  unreserved := fun _ => rfl

end Lowering

/-- The slots that are not used up are zero. -/
def Frame.Clean (f : Frame) : Prop := ∀ b i, f.filled.used b ≤ i → f.slots b i = 0

theorem Frame.clean_empty (object second : UInt64) : (Frame.empty object second).Clean :=
  fun _ _ _ => rfl

namespace Lowering

variable {l : Lowering} {args : Arguments} {m : Memory} {f : Frame}

/-- The hidden result pointer: its slot is noted and stays zero. -/
theorem carries_reserve (hclean : f.Clean) {x : Placement} (c : Cursor)
    (hr : x.role = .hiddenReturn) (hcount : x.location.count.toNat = 1)
    (hfirst : f.filled.used x.location.bank ≤ x.location.first.toNat) :
    l.Carries args m [x] f
      (if x.location.bank = .general then
        { f with filled := c, returnSlot := some x.location.first.toNat }
      else { f with filled := c }) where
  object := by split <;> rfl
  second := by split <;> rfl
  reads := by
    intro y hy
    rw [List.mem_singleton.mp hy]
    have hzero : f.slots x.location.bank x.location.first.toNat = 0 := hclean _ _ hfirst
    have hread : f.read x.location = [0] := by
      simp [Frame.read, hcount, hzero]
    unfold contents
    rw [hr]
    split <;> exact hread
  slots := by
    intro b i _
    split <;> rfl
  reserved := by
    intro y hy _ hb
    rw [List.mem_singleton.mp hy] at hb ⊢
    rw [if_pos hb]
  unreserved := by
    intro h
    exact absurd hr (h x (by simp))

theorem board_eq_ok_of_stow {abi : Abi} {x : Passenger} {fr : Freight} {f' : Frame}
    (hs : (abi.assign f.filled x.demand).2.stack ≤ abi.stackSlots)
    (hfr : x.freight args = .ok fr)
    (hstow : { f with filled := (abi.assign f.filled x.demand).2 }.stow m
      (abi.assign f.filled x.demand).1 fr = .ok f') : Frame.board abi args m f x = .ok f' := by
  simp only [Frame.board, bind_eq_ok, mapError_eq_ok, Abi.route_eq_ok_iff]
  exact ⟨_, ⟨rfl, hs⟩, fr, hfr, hstow⟩

theorem board_eq_ok (hv : l.abi.Valid) (hsound : ∀ q ∈ l.params, q.Sound l.abi)
    (hsize : args.buffer.size = l.argWords) {x : Passenger} (hx : x ∈ l.passengers)
    (hn : ¬ x.Missing args) (hclean : f.Clean) (hw : f.filled.Within l.abi)
    (hs : (l.abi.assign f.filled x.demand).2.stack ≤ l.abi.stackSlots) :
    ∃ f', Frame.board l.abi args m f x = .ok f' ∧
      f'.filled = (l.abi.assign f.filled x.demand).2 ∧
      l.Carries args m [⟨x.role, (l.abi.assign f.filled x.demand).1⟩] f f' := by
  have hg := Abi.grants_assign hv (hw.assign hs)
  have hfit := hg.fits hv
  obtain ⟨rfl, -⟩ | rfl | rfl | ⟨k, q, hq, rfl⟩ := l.mem_passengers hx
  · refine ⟨_, board_eq_ok_of_stow hs rfl rfl, ?_, ?_⟩
    · split <;> rfl
    · exact carries_reserve hclean _ rfl hg.count hg.used_le_first
  · exact ⟨_, board_eq_ok_of_stow hs rfl (Frame.stow_word_eq_ok hfit _), rfl,
      carries_write _ rfl hg.count.symm nofun⟩
  · exact ⟨_, board_eq_ok_of_stow hs rfl (Frame.stow_word_eq_ok hfit _), rfl,
      carries_write _ rfl hg.count.symm nofun⟩
  · have hb : l.offset k + q.words ≤ args.buffer.size := by
      rw [hsize]
      exact l.offset_add_words_le hq
    obtain ⟨fr, hfr, hstow⟩ := q.stow_freight hv (hsound q (List.mem_of_getElem? hq)) hg hb
      (fun hcopies hnull => hn ⟨hcopies, hnull⟩) m
    refine ⟨_, board_eq_ok_of_stow hs hfr (hstow _), rfl, carries_write _ ?_ ?_ nofun⟩
    · simp [contents, Passenger.role, hq]
    · exact ParamPlan.length_contents hg m (l.offset k)

end Lowering

/-! ### A run of steps -/

namespace Frame

variable {abi : Abi} {args : Arguments} {m : Memory}

theorem boardParams_eq_foldlM (f : Frame) (index position : Nat) (ps : List ParamPlan) :
    f.boardParams abi args m index position ps =
      (Passenger.params index position ps).foldlM (board abi args m) f := by
  induction ps generalizing f index position with
  | nil => rfl
  | cons q ps ih =>
      rw [boardParams, Passenger.params, List.foldlM_cons]
      exact bind_congr fun g => ih g (index + 1) (position + q.words)

theorem boardIf_eq_foldlM (f : Frame) (present : Bool) (x : Passenger) :
    f.boardIf abi args m present x =
      (if present then [x] else []).foldlM (board abi args m) f := by
  cases present with
  | false => rfl
  | true => exact (bind_pure _).symm

end Frame

/-- The walk that fills a frame visits the passengers of the plan, each parameter at its offset. -/
theorem Plan.fill_eq_foldlM (p : Plan) (args : Arguments) (m : Memory) :
    p.fill args m =
      p.passengers.foldlM (Frame.board p.abi args m) (.empty args.object args.second) := by
  simp only [fill, Lowering.passengers, List.foldlM_append, Frame.boardIf_eq_foldlM,
    Frame.boardParams_eq_foldlM, bind_assoc]
  cases p.convention.trailing with
  | none => rfl
  | some t =>
      simp only [Option.toList_some, List.map_cons, List.map_nil, List.foldlM_cons,
        List.foldlM_nil, bind_pure]

namespace Lowering

variable {l : Lowering} {args : Arguments} {m : Memory} {f : Frame}

/-- Slots beyond the new cursor are neither in the run nor were they used before. -/
theorem Carries.clean {d : Demand} {r : Role} {f' : Frame} (hv : l.abi.Valid)
    (hw : f.filled.Within l.abi) (hs : (l.abi.assign f.filled d).2.stack ≤ l.abi.stackSlots)
    (hclean : f.Clean) (hfilled : f'.filled = (l.abi.assign f.filled d).2)
    (h : l.Carries args m [⟨r, (l.abi.assign f.filled d).1⟩] f f') : f'.Clean := by
  have hg := Abi.grants_assign hv (hw.assign hs)
  intro b i hi
  rw [hfilled] at hi
  rw [h.slots b i ?_]
  · exact hclean b i (Nat.le_trans (Abi.used_le_used_assign hw d b) hi)
  · intro x hx
    rw [List.mem_singleton.mp hx]
    rintro ⟨hb, -, hlt⟩
    rw [hg.stop, hb] at hlt
    omega

theorem not_covers_of_stop_le {x y : Placement}
    (h : x.location.bank = y.location.bank → x.location.stop ≤ y.location.first.toNat) (b : Bank)
    (i : Nat) (hx : x.location.Covers b i) : ¬ y.location.Covers b i := by
  rintro ⟨hb, hle, -⟩
  obtain ⟨hxb, -, hlt⟩ := hx
  have := h (hxb.trans hb.symm)
  omega

/-- Values that can be seated all board, and the frame carries their places. -/
theorem foldlM_board_eq_ok (hv : l.abi.Valid) (hsound : ∀ q ∈ l.params, q.Sound l.abi)
    (ha : l.Accepts args) {c c' : Cursor} {ps : List Passenger} {xs : List Placement}
    (h : l.abi.Seated c ps xs c') (hps : ∀ q ∈ ps, q ∈ l.passengers)
    (hroles : (xs.map Placement.role).Nodup) (hw : c.Within l.abi) (hfilled : f.filled = c)
    (hclean : f.Clean) :
    ∃ f', ps.foldlM (Frame.board l.abi args m) f = .ok f' ∧ f'.filled = c' ∧
      l.Carries args m xs f f' := by
  induction h generalizing f with
  | nil c => exact ⟨f, rfl, hfilled, carries_nil f⟩
  | @cons c c' p ps xs hs h ih =>
      -- what boards later is placed behind the first run, so the first value is not overwritten
      subst hfilled
      have hrun := (Abi.Seated.cons hs h).pairwise hv hw
      rw [List.map_cons, List.nodup_cons] at hroles
      have hp := hps p (by simp)
      obtain ⟨g, hboard, hg, hcarries⟩ :=
        board_eq_ok hv hsound ha.buffer hp (ha.not_missing hp) hclean hw hs
      obtain ⟨f', hfold, hf', hrest⟩ :=
        ih (fun q hq => hps q (List.mem_cons_of_mem p hq)) hroles.2 (hw.assign hs) hg
          (hcarries.clean hv hw hs hclean hg)
      refine ⟨f', ?_, hf', hcarries.cons hrest ?_ ?_⟩
      · rw [List.foldlM_cons, hboard]
        exact hfold
      · intro y hy
        exact not_covers_of_stop_le ((List.pairwise_cons.mp hrun).1 y hy)
      · intro y hy hr hyr
        exact hroles.1 (List.mem_map.mpr ⟨y, hy, hyr.trans hr.symm⟩)

end Lowering

/-! ### Plans -/

namespace Plan

variable {p : Plan} {f : Callable} {abi : Abi}

/-- A hidden result pointer that is an argument is routed first, to the first general register. -/
theorem Planned.layout_of_hiddenPointer (hv : abi.Valid) (hp : p.Planned f abi)
    (hh : p.hiddenPointerIsArgument = true) :
    ∃ xs, p.layout = ⟨.hiddenReturn, ⟨.general, 0, 1⟩⟩ :: xs := by
  obtain ⟨hg, -⟩ := p.abi.valid_iff.mp (hp.valid hv)
  obtain ⟨c, hs⟩ := hp.seated
  have hps : ∃ ps, p.passengers = .hiddenReturn :: ps := by
    simp [Lowering.passengers, hh]
  obtain ⟨ps, hps⟩ := hps
  have hfirst : (p.abi.assign .start (.general 1 false)).1 = ⟨.general, 0, 1⟩ := by
    simp [Abi.assign, Cursor.start, hg.1, Location.ofNat]
  rw [hps] at hs
  generalize p.layout = layout at hs
  cases hs with
  | @cons _ _ _ _ xs _ _ => exact ⟨xs, by rw [← hfirst]; rfl⟩

theorem Planned.hiddenPointerIsArgument_eq_true_iff (hp : p.Planned f abi) :
    p.hiddenPointerIsArgument = true ↔
      p.result.mechanism = .memory ∧ abi.hiddenPointer = .firstArgument := by
  rw [p.toLowering.hiddenPointerIsArgument_iff, hp.abi_eq]

theorem Planned.hiddenReturn_mem_iff (hp : p.Planned f abi) :
    (∃ x ∈ p.layout, x.role = .hiddenReturn) ↔ p.hiddenPointerIsArgument = true := by
  have hmem : (∃ x ∈ p.layout, x.role = .hiddenReturn) ↔ .hiddenReturn ∈ p.roles := by
    rw [← hp.map_role_layout, List.mem_map]
  rw [hmem, p.hiddenPointerIsArgument_iff, ← p.map_role_passengers, List.mem_map]
  constructor
  · rintro ⟨x, hx, hr⟩
    obtain ⟨-, hh⟩ | rfl | rfl | ⟨k, q, -, rfl⟩ := p.mem_passengers hx
    · exact p.hiddenPointerIsArgument_iff.mp hh
    · cases hr
    · cases hr
    · cases hr
  · intro h
    refine ⟨.hiddenReturn, ?_, rfl⟩
    simp [Lowering.passengers, p.hiddenPointerIsArgument_iff.mpr h]

theorem Planned.location_hiddenReturn (hv : abi.Valid) (hp : p.Planned f abi) {x : Placement}
    (hx : x ∈ p.layout) (hr : x.role = .hiddenReturn) : x.location = ⟨.general, 0, 1⟩ := by
  obtain ⟨xs, hxs⟩ := hp.layout_of_hiddenPointer hv (hp.hiddenReturn_mem_iff.mp ⟨x, hx, hr⟩)
  have hroles := p.nodup_roles
  rw [← hp.map_role_layout, hxs, List.map_cons, List.nodup_cons] at hroles
  rw [hxs] at hx
  rcases List.mem_cons.mp hx with rfl | hx
  · rfl
  · exact absurd (List.mem_map.mpr ⟨x, hx, hr⟩) hroles.1

theorem breach?_eq_none {args : Arguments} (ha : p.Accepts args) : p.breach? args = none := by
  unfold breach?
  rw [if_neg (by simp [ha.buffer]), if_neg (fun h => ha.object h.1 h.2),
    if_neg (fun h => ha.second h.1 h.2)]

/-- A frame that a plan has been marshaled into. -/
structure Realizes (p : Plan) (args : Arguments) (m : Memory) (frame : Frame) : Prop where
  carries : p.Carries args m p.layout (.empty args.object args.second) frame
  filled : frame.filled = p.abi.advance .start (p.passengers.map Passenger.demand)
  within : frame.filled.Within p.abi
  stop_le : ∀ x ∈ p.layout, x.location.stop ≤ frame.filled.used x.location.bank

/-- Marshaling succeeds and carries the whole layout. -/
theorem Planned.marshal_eq_ok (hv : abi.Valid) (hp : p.Planned f abi) {args : Arguments}
    (ha : p.Accepts args) (m : Memory) :
    ∃ frame, p.marshal args m = .ok frame ∧ p.Realizes args m frame := by
  obtain ⟨c, hs⟩ := hp.seated
  have hpv := hp.valid hv
  have hw := Cursor.within_start p.abi
  have hroles : (p.layout.map Placement.role).Nodup := by
    rw [hp.map_role_layout]
    exact p.nodup_roles
  obtain ⟨frame, hfold, hfilled, hcarries⟩ :=
    Lowering.foldlM_board_eq_ok (m := m) hpv (hp.sound hv) ha hs (fun q hq => hq) hroles hw rfl
      (Frame.clean_empty args.object args.second)
  have hwithin := hs.within hw
  have hfits : frame.Fits := by
    intro b _
    rw [hfilled]
    exact Nat.le_trans (hwithin b) (p.abi.budget_le_capacity hpv b)
  refine ⟨frame, ?_, hcarries, ?_, ?_, ?_⟩
  · unfold marshal
    rw [breach?_eq_none ha, fill_eq_foldlM]
    simp only [hfold]
    exact if_pos hfits
  · rw [hfilled, hs.cursor_eq]
  · rwa [hfilled]
  · rw [hfilled]
    exact hs.stop_le_used hpv hw

theorem Planned.returnSlot_eq (hv : abi.Valid) (hp : p.Planned f abi) {args : Arguments}
    {m : Memory} {frame : Frame} (h : p.Realizes args m frame) :
    frame.returnSlot = if p.hiddenPointerIsArgument then some 0 else none := by
  split
  · rename_i hh
    obtain ⟨xs, hxs⟩ := hp.layout_of_hiddenPointer hv hh
    exact h.carries.reserved ⟨.hiddenReturn, ⟨.general, 0, 1⟩⟩ (by simp [hxs]) rfl rfl
  · rename_i hh
    exact h.carries.unreserved fun x hx hr => hh (hp.hiddenReturn_mem_iff.mp ⟨x, hx, hr⟩)

/-- Marshaling never fails on arguments that keep their promises.  Every place of the layout holds
the words that belong there, all other slots are zero, the used slots of every bank reach over its
places and stay within the budget, and the slot for the hidden result pointer is noted exactly if
that pointer is an argument. -/
theorem marshal_realizes_layout (hv : abi.validate = .ok ()) (hp : make f abi = .ok p)
    {args : Arguments} (ha : p.Accepts args) (m : Memory) :
    ∃ frame, p.marshal args m = .ok frame ∧
      (∀ x ∈ p.layout, frame.read x.location = p.contents args m x) ∧
      (∀ b i, (∀ x ∈ p.layout, ¬ x.location.Covers b i) → frame.slots b i = 0) ∧
      (∀ x ∈ p.layout, x.location.stop ≤ frame.filled.used x.location.bank) ∧
      (∀ b, frame.filled.used b ≤ abi.budget b) ∧
      frame.filled = abi.advance .start (p.passengers.map Passenger.demand) ∧
      frame.returnSlot = (if p.hiddenPointerIsArgument then some 0 else none) ∧
      frame.object = args.object ∧ frame.second = args.second := by
  have hv := abi.validate_eq_ok_iff.mp hv
  have hp := make_eq_ok_iff.mp hp
  obtain ⟨frame, hmarshal, h⟩ := hp.marshal_eq_ok hv ha m
  have hreturn := hp.returnSlot_eq hv h
  obtain ⟨hcarries, hfilled, hwithin, hstop⟩ := h
  rw [hp.abi_eq] at hfilled hwithin
  exact ⟨frame, hmarshal, hcarries.reads, hcarries.slots, hstop, hwithin, hfilled, hreturn,
    hcarries.object, hcarries.second⟩

end Plan

/-- Arguments for the crowded method, with an address for each of its objects. -/
def Arguments.crowded : Arguments where
  buffer := .ofArguments
    [.i32 (-7), .i64 1000000000000, .address 0x2000, .f32 0x3f800000, .address 0x3000,
      .address 0x4000, .address 0x5000, .i64 (-1), .bool true]
  object := 0x6000
  second := 0x7000

/-- Memory in which the bytes of an object count up, from another number for each object. -/
def Memory.crowded : Memory := ⟨fun a => (a >>> 8).toUInt8 + a.toUInt8 + 1⟩

/-- The third object goes to the stack, and the second one leaves over half a register. -/
theorem Plan.marshal_realizes_layout_crowded : Abi.systemV.validate = .ok () ∧
    ∃ p, make .crowded .systemV = .ok p ∧ p.Accepts .crowded ∧
      ∃ frame, p.marshal .crowded .crowded = .ok frame ∧
        (∀ x ∈ p.layout, frame.read x.location = p.contents .crowded .crowded x) ∧
        frame.read ⟨.stack, 0, 3⟩ =
          [0x4847464544434241, 0x504f4e4d4c4b4a49, 0x5857565554535251] ∧
        frame.read ⟨.float, 1, 2⟩ = [0x3837363534333231, 0x3c3b3a39] := by
  have hp : ∃ p, make .crowded .systemV = .ok p ∧ p.Accepts .crowded ∧
      ⟨.param 5, ⟨.stack, 0, 3⟩⟩ ∈ p.layout ∧ ⟨.param 4, ⟨.float, 1, 2⟩⟩ ∈ p.layout ∧
      p.contents .crowded .crowded ⟨.param 5, ⟨.stack, 0, 3⟩⟩ =
        [0x4847464544434241, 0x504f4e4d4c4b4a49, 0x5857565554535251] ∧
      p.contents .crowded .crowded ⟨.param 4, ⟨.float, 1, 2⟩⟩ =
        [0x3837363534333231, 0x3c3b3a39] :=
    ⟨_, rfl, by decide, by decide, by decide, by decide, by decide⟩
  obtain ⟨p, hp, ha, hstack, hfloat, himage, hmembers⟩ := hp
  obtain ⟨frame, hmarshal, hreads, -⟩ := marshal_realizes_layout rfl hp ha .crowded
  exact ⟨rfl, p, hp, ha, frame, hmarshal, hreads, (hreads _ hstack).trans himage,
    (hreads _ hfloat).trans hmembers⟩

end ForeignCall
