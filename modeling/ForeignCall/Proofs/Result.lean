import ForeignCall.Proofs.Outcome

/-! # Results in memory

A result is a number of bytes at the front of a register image (`ResultRegisters.image`): the low
bytes of the registers that its mechanism names, one register after the other.  The code never forms
the image.  It goes through the registers with a count of missing bytes, and it would stop early if
there were too few of them.

* `Memory.load_store` and `Memory.byte_store_of_le` say what a store leaves at an address.
* `unpackWords_eq_take` says that going through the registers yields the front of their image.
* `ResultPlan.eq_take_of_bytes_eq_ok` says that whatever is written is that front, in full length.

That something is written at all rests on the bounds that lowering guarantees.
`deliver_writes_image` puts these together. -/

namespace ForeignCall

/-! ### Stores -/

namespace Memory

theorem getElem_load (m : Memory) (address : UInt64) {n i : Nat} (h : i < (m.load address n).length) :
    (m.load address n)[i] = m.byte (address + UInt64.ofNat i) := by
  have hi : i < n := by rwa [length_load] at h
  rw [← List.getD_eq_getElem _ 0 h, getD_load, objectByte, if_pos hi]

/-- What was stored is loaded, as long as it does not reach around the whole memory. -/
theorem load_store (m : Memory) (address : UInt64) {bytes : List UInt8}
    (h : bytes.length ≤ UInt64.size) :
    (m.store address bytes).load address bytes.length = bytes := by
  apply List.ext_getElem (length_load ..)
  intro i _ hi
  have hoffset : (address + UInt64.ofNat i - address).toNat = i := by
    rw [UInt64.add_comm, UInt64.add_sub_cancel, UInt64.toNat_ofNat']
    exact Nat.mod_eq_of_lt (Nat.lt_of_lt_of_le hi h)
  rw [getElem_load, byte_store, hoffset, List.getElem?_eq_getElem hi]
  rfl

theorem byte_store_of_le (m : Memory) {address a : UInt64} {bytes : List UInt8}
    (h : bytes.length ≤ (a - address).toNat) : (m.store address bytes).byte a = m.byte a := by
  rw [byte_store, List.getElem?_eq_none h]
  rfl

end Memory

/-! ### Register images -/

/-- The lowest `unit` bytes of each word, one word after the other. -/
def wordsImage (unit : Nat) (ws : List UInt64) : List UInt8 :=
  ws.flatMap fun w => (wordBytes w).take unit

theorem length_wordsImage {unit : Nat} (h : unit ≤ 8) (ws : List UInt64) :
    (wordsImage unit ws).length = unit * ws.length := by
  unfold wordsImage
  induction ws with
  | nil => rfl
  | cons w ws ih =>
      rw [List.flatMap_cons, List.length_append, ih, List.length_take, length_wordBytes,
        Nat.min_eq_left h, List.length_cons, Nat.mul_succ, Nat.add_comm]

theorem wordsImage_eight (ws : List UInt64) : wordsImage 8 ws = ws.flatMap wordBytes := by
  have htake : ∀ w, (wordBytes w).take 8 = wordBytes w :=
    fun w => List.take_of_length_le (Nat.le_of_eq (length_wordBytes w))
  simp only [wordsImage, htake]

/-- Unpacking takes whole units and a rest of the last one, which is the front of the image. -/
theorem unpackWords_eq_take {unit : Nat} (h : unit ≤ 8) (ws : List UInt64) (n : Nat) :
    unpackWords unit ws n = (wordsImage unit ws).take n := by
  unfold wordsImage
  induction ws generalizing n with
  | nil => rw [unpackWords, List.flatMap_nil, List.take_nil]
  | cons w ws ih =>
      have hlen : ((wordBytes w).take unit).length = unit := by
        rw [List.length_take, length_wordBytes, Nat.min_eq_left h]
      rw [unpackWords, ih, List.flatMap_cons, List.take_append, List.take_take, hlen,
        Nat.min_comm]

namespace ResultRegisters

/-- The bytes of the registers that a mechanism names. -/
def image (r : ResultRegisters) : Mechanism → List UInt8
  | .void | .memory => []
  | .general | .generalPair => r.general.toList.flatMap wordBytes
  | .float32 | .float64 => (r.float.toList.take 1).flatMap wordBytes
  | .floatAggregate width registers =>
      wordsImage width.toNat (r.float.toList.take registers.toNat)

variable {r : ResultRegisters}

theorem eq_take_of_consecutive_eq_ok {regs : List UInt64} {size : Nat} {bytes : List UInt8}
    (h : consecutive regs size = .ok bytes) :
    size ≤ (regs.flatMap wordBytes).length ∧ bytes = (regs.flatMap wordBytes).take size := by
  unfold consecutive at h
  split at h
  · rename_i hsize
    rw [← wordsImage_eight, length_wordsImage (Nat.le_refl 8),
      ← unpackWords_eq_take (Nat.le_refl 8)]
    cases h
    exact ⟨hsize, rfl⟩
  · cases h

theorem eq_take_of_floatAggregate_eq_ok {width registers : UInt8} {size : Nat}
    {bytes : List UInt8} (h : r.floatAggregate width registers size = .ok bytes) :
    size ≤ (r.image (.floatAggregate width registers)).length ∧
      bytes = (r.image (.floatAggregate width registers)).take size := by
  unfold floatAggregate at h
  split at h
  · rename_i hguard
    obtain ⟨hwidth, hsize, hregisters⟩ := hguard
    have h8 : width.toNat ≤ 8 := by
      rcases hwidth with rfl | rfl <;> decide
    have hlen : (r.float.toList.take registers.toNat).length = registers.toNat := by
      rw [List.length_take, Vector.length_toList]
      exact Nat.min_eq_left hregisters
    rw [image, length_wordsImage h8, hlen, ← unpackWords_eq_take h8]
    cases h
    exact ⟨hsize, rfl⟩
  · cases h

end ResultRegisters

/-! ### What is delivered -/

namespace ResultPlan

variable {abi : Abi} {p : ResultPlan}

theorem eq_take_of_bytes_eq_ok {r : ResultRegisters} {bytes : List UInt8}
    (hw : p.writesNothing = false) (h : p.bytes r = .ok bytes) :
    p.size.toNat ≤ (r.image p.mechanism).length ∧
      bytes = (r.image p.mechanism).take p.size.toNat := by
  obtain ⟨mechanism, size⟩ := p
  cases mechanism with
  | void | memory => cases hw
  | general | generalPair | float32 | float64 =>
      exact ResultRegisters.eq_take_of_consecutive_eq_ok h
  | floatAggregate width registers => exact ResultRegisters.eq_take_of_floatAggregate_eq_ok h

/-- The bounds of lowering rule out every failure on the way to the bytes. -/
theorem bytes_eq_take (hv : abi.Valid) (hb : p.Bounded abi) (hw : p.writesNothing = false)
    (r : ResultRegisters) :
    p.size.toNat ≤ (r.image p.mechanism).length ∧
      p.bytes r = .ok ((r.image p.mechanism).take p.size.toNat) := by
  obtain ⟨bytes, hbytes⟩ := bytes_eq_ok hv hb r
  obtain ⟨hsize, rfl⟩ := eq_take_of_bytes_eq_ok hw hbytes
  exact ⟨hsize, hbytes⟩

theorem exists_deliver (hv : abi.Valid) (hb : p.Bounded abi) (hw : p.writesNothing = false)
    {destination : UInt64} (hd : destination ≠ 0) (r : ResultRegisters) (m : Memory) :
    ∃ m', p.deliver r destination m = .ok m' ∧
      m'.load destination p.size.toNat = (r.image p.mechanism).take p.size.toNat ∧
      ∀ a, p.size.toNat ≤ (a - destination).toNat → m'.byte a = m.byte a := by
  obtain ⟨hsize, hbytes⟩ := bytes_eq_take hv hb hw r
  have hdeliver : p.deliver r destination m =
      .ok (m.store destination ((r.image p.mechanism).take p.size.toNat)) := by
    unfold deliver
    rw [if_neg (by simp [hw]), if_neg hd, hbytes]
    rfl
  have hlen : ((r.image p.mechanism).take p.size.toNat).length = p.size.toNat := by
    rw [List.length_take, Nat.min_eq_left hsize]
  have hmemory : p.size.toNat ≤ UInt64.size :=
    Nat.le_of_lt (Nat.lt_trans p.size.toNat_lt (by decide))
  refine ⟨_, hdeliver, ?_, ?_⟩
  · have hload := m.load_store destination (Nat.le_trans (Nat.le_of_eq hlen) hmemory)
    rwa [hlen] at hload
  · intro a ha
    exact m.byte_store_of_le (Nat.le_trans (Nat.le_of_eq hlen) ha)

/-- Every result that was lowered for a valid ABI is delivered from any registers.  The planned
number of bytes at the destination becomes the front of the register image, which is at least as
long, and every other byte stays.  A result that is void or in memory leaves all bytes as they
are and needs no destination. -/
theorem deliver_writes_image {t : ResultType} (hv : abi.validate = .ok ())
    (hp : abi.lowerResult t = .ok p) (r : ResultRegisters) (m : Memory) :
    p.size = t.size ∧
      (p.mechanism = .void ∨ p.mechanism = .memory →
        ∀ destination, p.deliver r destination m = .ok m) ∧
      (p.mechanism ≠ .void → p.mechanism ≠ .memory →
        0 < p.size.toNat ∧ p.size.toNat ≤ (r.image p.mechanism).length ∧
          ∀ destination, destination ≠ 0 →
            ∃ m', p.deliver r destination m = .ok m' ∧
              m'.load destination p.size.toNat = (r.image p.mechanism).take p.size.toNat ∧
              ∀ a, p.size.toNat ≤ (a - destination).toNat → m'.byte a = m.byte a) := by
  have hv := abi.validate_eq_ok_iff.mp hv
  have hnothing := Abi.writesNothing_iff hp
  refine ⟨(Abi.lowerResult_eq_ok_iff.mp hp).2, ?_, ?_⟩
  · intro hm destination
    exact if_pos (hnothing.mpr hm)
  · intro hvoid hmemory
    have hw : p.writesNothing = false := by
      rw [← Bool.not_eq_true, hnothing, not_or]
      exact ⟨hvoid, hmemory⟩
    have hb := Abi.bounded_lowerResult hv hp
    have hsize : p.size ≠ 0 := by
      rintro h0
      simp [writesNothing, h0] at hw
    refine ⟨?_, (bytes_eq_take hv hb hw r).1, fun _ hd => exists_deliver hv hb hw hd r m⟩
    exact Nat.pos_of_ne_zero fun h0 => hsize (UInt32.toNat_inj.mp h0)

/-- On System V three floats come back in two registers, the second of them half used. -/
theorem deliver_writes_image_partial : Abi.systemV.validate = .ok () ∧
    ∃ p, Abi.systemV.lowerResult (.value (.ofComposite (.plain 12 4 (.float32 3)))) = .ok p ∧
      p.mechanism = .floatAggregate 8 2 ∧
      ∀ r : ResultRegisters, ∃ m', p.deliver r 0x9000 .crowded = .ok m' ∧
        m'.load 0x9000 12 = (r.image (.floatAggregate 8 2)).take 12 ∧ m'.byte 0x900c = 0x9d := by
  have hp : ∃ p, Abi.systemV.lowerResult (.value (.ofComposite (.plain 12 4 (.float32 3)))) =
      .ok p ∧ p = ⟨.floatAggregate 8 2, 12⟩ := ⟨_, rfl, rfl⟩
  obtain ⟨p, hp, rfl⟩ := hp
  refine ⟨rfl, _, hp, rfl, fun r => ?_⟩
  obtain ⟨-, -, hwrites⟩ := deliver_writes_image rfl hp r .crowded
  obtain ⟨-, -, hdeliver⟩ := hwrites nofun nofun
  obtain ⟨m', hm', hload, hbeyond⟩ := hdeliver 0x9000 (by decide)
  exact ⟨m', hm', hload, hbeyond 0x900c (by decide)⟩

end ResultPlan

end ForeignCall
