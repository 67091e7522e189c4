import ForeignCall.Word

/-! # Memory

Memory is a byte for every 64-bit address. By-value objects and virtual tables are read from it,
results are stored into it, and address arithmetic wraps around.

`byte_store` says what a store does to every byte, and `load_congr` that a load depends on the
loaded bytes alone. -/

namespace ForeignCall

structure Memory where
  byte : UInt64 → UInt8

namespace Memory

def zero : Memory := ⟨fun _ => 0⟩

/-- The bytes `bytes` at `address` and behind it, everything else as before. -/
def store (m : Memory) (address : UInt64) (bytes : List UInt8) : Memory :=
  let block := bytes.toArray
  ⟨fun a => (block[(a - address).toNat]?).getD (m.byte a)⟩

/-- The `n` bytes from `address` on. -/
def load (m : Memory) (address : UInt64) : Nat → List UInt8
  | 0 => []
  | n + 1 => m.byte address :: m.load (address + 1) n

/-- The little-endian word at `address`. -/
def loadWord (m : Memory) (address : UInt64) : UInt64 := wordOfBytes (m.load address 8)

theorem byte_store (m : Memory) (address : UInt64) (bytes : List UInt8) (a : UInt64) :
    (m.store address bytes).byte a = (bytes[(a - address).toNat]?).getD (m.byte a) := by
  simp [store]

@[simp] theorem length_load (m : Memory) (address : UInt64) (n : Nat) :
    (m.load address n).length = n := by
  induction n generalizing address with
  | zero => rfl
  | succ n ih => simp [load, ih]

theorem load_congr {m m' : Memory} {address : UInt64} {n : Nat}
    (h : ∀ i < n, m.byte (address + UInt64.ofNat i) = m'.byte (address + UInt64.ofNat i)) :
    m.load address n = m'.load address n := by
  induction n generalizing address with
  | zero => rfl
  | succ n ih =>
      have h0 : m.byte address = m'.byte address := by simpa using h 0 (by omega)
      rw [load, load, h0, ih]
      intro i hi
      have hs := h (i + 1) (by omega)
      have e : address + UInt64.ofNat (i + 1) = address + 1 + UInt64.ofNat i := by
        rw [UInt64.add_assoc, UInt64.add_comm 1, UInt64.ofNat_add]
        rfl
      rwa [e] at hs

end Memory

end ForeignCall
