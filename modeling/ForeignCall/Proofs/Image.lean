import ForeignCall.ArgumentBuffer
import ForeignCall.Memory
import Mathlib.Data.List.GetD

/-! # Objects in slots, values in buffers

What the bytes of an object become when they are spread over slots, said byte by byte
(`Memory.image`), and what a value in an argument buffer is when all of its words are there
(`ArgumentBuffer.value`).  `packWords_load` and `read_eq_ok` tie them to the code that packs and
reads. -/

namespace ForeignCall

/-! ### Images of objects -/

namespace Memory

/-- Byte `i` of an object of `size` bytes, zero behind its end. -/
def objectByte (m : Memory) (address : UInt64) (size i : Nat) : UInt8 :=
  if i < size then m.byte (address + UInt64.ofNat i) else 0

/-- Slot `k` of an object that has `unit` bytes in every slot, lowest byte first. -/
def imageWord (m : Memory) (address : UInt64) (size unit k : Nat) : UInt64 :=
  wordOfBytes ((List.range unit).map fun j => m.objectByte address size (unit * k + j))

/-- The slots of an object. -/
def image (m : Memory) (address : UInt64) (size unit count : Nat) : List UInt64 :=
  (List.range count).map (m.imageWord address size unit)

@[simp] theorem length_image (m : Memory) (address : UInt64) (size unit count : Nat) :
    (m.image address size unit count).length = count := by
  simp [image]

end Memory

theorem ofLittleEndian_eq_zero {bs : List UInt8} (h : ∀ i, bs.getD i 0 = 0) :
    ofLittleEndian bs = 0 := by
  induction bs with
  | nil => rfl
  | cons b bs ih =>
      have hb : b = 0 := h 0
      have hbs := ih (fun i => h (i + 1))
      rw [ofLittleEndian, hbs, hb]
      rfl

/-- Zeros behind the last byte do not change a number. -/
theorem ofLittleEndian_congr {xs ys : List UInt8} (h : ∀ i, xs.getD i 0 = ys.getD i 0) :
    ofLittleEndian xs = ofLittleEndian ys := by
  induction xs generalizing ys with
  | nil => exact (ofLittleEndian_eq_zero fun i => (h i).symm).symm
  | cons x xs ih =>
      cases ys with
      | nil => exact ofLittleEndian_eq_zero h
      | cons y ys =>
          have hxy : x = y := h 0
          have hrest := @ih ys (fun i => h (i + 1))
          rw [ofLittleEndian, ofLittleEndian, hxy, hrest]

theorem wordOfBytes_congr {xs ys : List UInt8} (h : ∀ i, xs.getD i 0 = ys.getD i 0) :
    wordOfBytes xs = wordOfBytes ys := by
  unfold wordOfBytes
  rw [ofLittleEndian_congr h]

theorem getElem?_packWords {unit n : Nat} (bs : List UInt8) {k : Nat} (hk : k < n) :
    (packWords unit n bs)[k]? = some (wordOfBytes ((bs.drop (unit * k)).take unit)) := by
  induction n generalizing bs k with
  | zero => exact absurd hk (Nat.not_lt_zero k)
  | succ n ih =>
      cases k with
      | zero => rfl
      | succ k =>
          rw [packWords, List.getElem?_cons_succ, ih (bs.drop unit) (Nat.lt_of_succ_lt_succ hk),
            List.drop_drop, Nat.mul_succ, Nat.add_comm unit]

theorem Memory.getD_load (m : Memory) (address : UInt64) (n i : Nat) :
    (m.load address n).getD i 0 = m.objectByte address n i := by
  induction n generalizing address i with
  | zero => rfl
  | succ n ih =>
      cases i with
      | zero => simp [load, objectByte]
      | succ i =>
          have he : address + 1 + UInt64.ofNat i = address + UInt64.ofNat (i + 1) := by
            rw [UInt64.add_assoc, UInt64.add_comm 1, UInt64.ofNat_add]
            rfl
          have hs := ih (address + 1) i
          simp only [load, List.getD_cons_succ, hs, objectByte, he, Nat.add_lt_add_iff_right]

/-- Packing the bytes of an object gives its image. -/
theorem packWords_load (m : Memory) (address : UInt64) (size unit count : Nat) :
    packWords unit count (m.load address size) = m.image address size unit count := by
  apply List.ext_getElem?
  intro k
  by_cases hk : k < count
  · rw [getElem?_packWords _ hk, Memory.image, List.getElem?_map, List.getElem?_range hk,
      Option.map_some, Memory.imageWord]
    congr 1
    apply wordOfBytes_congr
    intro i
    have hload := m.getD_load address size (unit * k + i)
    simp only [List.getD_eq_getElem?_getD, List.getElem?_take, List.getElem?_drop,
      List.getElem?_map] at hload ⊢
    by_cases hi : i < unit
    · rw [if_pos hi, hload, List.getElem?_range hi]
      rfl
    · rw [if_neg hi, List.getElem?_eq_none (by simpa using hi)]
      rfl
  · rw [List.getElem?_eq_none (by rw [length_packWords]; omega),
      List.getElem?_eq_none (by rw [Memory.length_image]; omega)]

/-! ### Values in a buffer -/

namespace ArgumentBuffer

/-- The value of one or two words at a position; missing words count as zero. -/
def value (b : ArgumentBuffer) (position count : Nat) : UInt64 :=
  if count = 1 then (b.words.getD position 0).toUInt64
  else joinHalves (b.words.getD position 0) (b.words.getD (position + 1) 0)

theorem read_eq_ok {b : ArgumentBuffer} {position count : Nat} (hc : count = 1 ∨ count = 2)
    (hb : position + count ≤ b.size) : b.read position count = .ok (b.value position count) := by
  unfold size at hb
  have h0 : b.words[position]? = some (b.words.getD position 0) := by
    rw [List.getD_eq_getElem _ _ (by omega), List.getElem?_eq_getElem (by omega)]
  unfold read value
  rw [h0]
  rcases hc with rfl | rfl
  · rfl
  · have h1 : b.words[position + 1]? = some (b.words.getD (position + 1) 0) := by
      rw [List.getD_eq_getElem _ _ (by omega), List.getElem?_eq_getElem (by omega)]
    simp only [h1]
    rfl

theorem address_eq_ok {b : ArgumentBuffer} {position : Nat} (hb : position + 2 ≤ b.size) :
    b.address position = .ok (b.value position 2) :=
  read_eq_ok (Or.inr rfl) hb

end ArgumentBuffer

end ForeignCall
