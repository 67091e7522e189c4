/-! # Words, bytes and numerals

A slot of a call is a 64-bit word and memory is made of bytes; the two meet in little-endian
order.

* `littleEndian w n` is `n` as `w` bytes, least significant first, and `ofLittleEndian` reads
  bytes back (`ofLittleEndian_littleEndian`, `littleEndian_ofLittleEndian`).
* `packWords unit count bytes` spreads a byte string over `count` words, `unit` bytes to a word
  and the rest of each word zero; `unpackWords unit words n` reads `n` bytes back the same way.
* `signExtend` and `zeroExtend` rebuild a word from its low bits.
* `digits base n` writes a natural number, and `digitsValue base` reads it
  (`digitsValue_digits`). -/

namespace ForeignCall

/-! ### Bytes -/

/-- The `w` little-endian bytes of `n`; what does not fit is dropped. -/
def littleEndian : Nat → Nat → List UInt8
  | 0, _ => []
  | w + 1, n => UInt8.ofNat n :: littleEndian w (n / 256)

/-- The number with the given little-endian bytes. -/
def ofLittleEndian : List UInt8 → Nat
  | [] => 0
  | b :: bs => b.toNat + 256 * ofLittleEndian bs

@[simp] theorem length_littleEndian (w n : Nat) : (littleEndian w n).length = w := by
  induction w generalizing n with
  | zero => rfl
  | succ w ih => simp [littleEndian, ih]

theorem one_shiftLeft_byte (w : Nat) : 1 <<< (8 * (w + 1)) = 256 * 1 <<< (8 * w) := by
  rw [Nat.shiftLeft_eq, Nat.shiftLeft_eq, Nat.mul_succ, Nat.pow_add]
  omega

theorem ofLittleEndian_lt (bs : List UInt8) : ofLittleEndian bs < 1 <<< (8 * bs.length) := by
  induction bs with
  | nil => simp [ofLittleEndian]
  | cons b bs ih =>
      have hb : b.toNat < 256 := b.toNat_lt
      rw [ofLittleEndian, List.length_cons, one_shiftLeft_byte]
      omega

theorem littleEndian_ofLittleEndian (bs : List UInt8) :
    littleEndian bs.length (ofLittleEndian bs) = bs := by
  induction bs with
  | nil => rfl
  | cons b bs ih =>
      have hb : b.toNat < 256 := b.toNat_lt
      rw [List.length_cons, littleEndian, ofLittleEndian]
      congr 1
      · apply UInt8.toNat_inj.mp
        rw [UInt8.toNat_ofNat']
        omega
      · rw [show (b.toNat + 256 * ofLittleEndian bs) / 256 = ofLittleEndian bs by omega, ih]

theorem ofLittleEndian_littleEndian (w n : Nat) :
    ofLittleEndian (littleEndian w n) = n % 1 <<< (8 * w) := by
  induction w generalizing n with
  | zero => simp [littleEndian, ofLittleEndian, Nat.mod_one]
  | succ w ih =>
      have hb : (UInt8.ofNat n).toNat = n % 256 := by simp
      rw [littleEndian, ofLittleEndian, ih, hb, one_shiftLeft_byte, Nat.mod_mul]

/-- The eight bytes of a word. -/
def wordBytes (w : UInt64) : List UInt8 := littleEndian 8 w.toNat

/-- The word whose lowest bytes are given; missing bytes are zero. -/
def wordOfBytes (bs : List UInt8) : UInt64 := UInt64.ofNat (ofLittleEndian bs)

@[simp] theorem length_wordBytes (w : UInt64) : (wordBytes w).length = 8 :=
  length_littleEndian 8 w.toNat

/-- Consecutive words, each made of the next `unit` bytes. -/
def packWords (unit : Nat) : Nat → List UInt8 → List UInt64
  | 0, _ => []
  | n + 1, bs => wordOfBytes (bs.take unit) :: packWords unit n (bs.drop unit)

/-- The first `n` bytes of the image that takes the lowest `unit` bytes of each word. -/
def unpackWords (unit : Nat) : List UInt64 → Nat → List UInt8
  | [], _ => []
  | w :: ws, n => (wordBytes w).take (min unit n) ++ unpackWords unit ws (n - unit)

@[simp] theorem length_packWords (unit n : Nat) (bs : List UInt8) :
    (packWords unit n bs).length = n := by
  induction n generalizing bs with
  | zero => rfl
  | succ n ih => simp [packWords, ih]

/-- How many units of `unit` bytes hold `size` bytes. -/
def unitsFor (size unit : Nat) : Nat := (size + unit - 1) / unit

/-! ### Widening -/

/-- The word that the low `bits` bits of `w` stand for as a two's complement number. -/
def signExtend (bits : Nat) (w : UInt64) : UInt64 :=
  UInt64.ofBitVec ((w.toBitVec.setWidth bits).signExtend 64)

/-- The low `bits` bits of `w`, zero above. -/
def zeroExtend (bits : Nat) (w : UInt64) : UInt64 :=
  UInt64.ofBitVec ((w.toBitVec.setWidth bits).setWidth 64)

/-! ### Numerals -/

/-- The digit for a value below sixteen, letters in lower case. -/
def digitChar (d : Nat) : Char :=
  if d < 10 then Char.ofNat (48 + d) else Char.ofNat (87 + d)

/-- The value of a decimal or hexadecimal digit. -/
def digitValue (c : Char) : Nat :=
  if '0' ≤ c ∧ c ≤ '9' then c.toNat - 48
  else if 'a' ≤ c ∧ c ≤ 'f' then c.toNat - 87
  else c.toNat - 55

/-- The numeral of `n`, most significant digit first. -/
def digits (base n : Nat) : List Char :=
  if _h : 2 ≤ base ∧ base ≤ n then digits base (n / base) ++ [digitChar (n % base)]
  else [digitChar n]
termination_by n
decreasing_by exact Nat.div_lt_self (by omega) (by omega)

/-- The number that a run of digits stands for. -/
def digitsValue (base : Nat) (cs : List Char) : Nat :=
  cs.foldl (fun n c => base * n + digitValue c) 0

theorem digitValue_digitChar {d : Nat} (h : d < 16) : digitValue (digitChar d) = d := by
  have all : ∀ d < 16, digitValue (digitChar d) = d := by decide
  exact all d h

/-- Numerals read back in every base up to sixteen. -/
theorem digitsValue_digits {base : Nat} (h2 : 2 ≤ base) (h16 : base ≤ 16) (n : Nat) :
    digitsValue base (digits base n) = n := by
  fun_induction digits base n with
  | case1 n h ih =>
      have hd : n % base < 16 := Nat.lt_of_lt_of_le (Nat.mod_lt n (by omega)) h16
      have happ : digitsValue base (digits base (n / base) ++ [digitChar (n % base)]) =
          base * digitsValue base (digits base (n / base)) + digitValue (digitChar (n % base)) := by
        simp [digitsValue]
      rw [happ, ih, digitValue_digitChar hd, Nat.div_add_mod]
  | case2 n h => simp [digitsValue, digitValue_digitChar (show n < 16 by omega)]

def decimal (n : Nat) : String := String.ofList (digits 10 n)

/-- Hexadecimal text of a word, without padding. -/
def hex (w : UInt64) : String := "0x" ++ String.ofList (digits 16 w.toNat)

end ForeignCall
