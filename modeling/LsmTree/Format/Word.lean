import LsmTree.Bytes

/-!
# Format/Word — the integers of a segment file

Every integer of a segment file takes eight bytes, least significant first.  `Word.encode` writes
a number modulo `Word.modulus` and `Word.decode` reads eight bytes back (`Word.decode_encode`,
`Word.encode_decode`); lengths, counts and offsets are read as signed numbers (`Word.signed`).
-/

namespace LsmTree.Word

/-- The bytes an integer takes. -/
def size : Nat := 8

/-! ## Little-endian numbers of any width -/

/-- How many numbers can be written with `width` bytes. -/
def range : Nat → Nat
  | 0 => 1
  | width + 1 => 256 * range width

/-- The low `width` bytes of a number, least significant first. -/
def toLittleEndian : Nat → Nat → Bytes
  | 0, _ => []
  | width + 1, n => UInt8.ofNat n :: toLittleEndian width (n / 256)

/-- The number whose bytes are given, least significant first. -/
def ofLittleEndian : Bytes → Nat
  | [] => 0
  | b :: bs => b.toNat + 256 * ofLittleEndian bs

@[simp] theorem length_toLittleEndian (width n : Nat) :
    (toLittleEndian width n).length = width := by
  induction width generalizing n with
  | zero => rfl
  | succ width ih => simp [toLittleEndian, ih]

theorem ofLittleEndian_toLittleEndian (width n : Nat) :
    ofLittleEndian (toLittleEndian width n) = n % range width := by
  induction width generalizing n with
  | zero => simp [toLittleEndian, ofLittleEndian, range, Nat.mod_one]
  | succ width ih =>
    rw [toLittleEndian, ofLittleEndian, ih, range, Nat.mod_mul]
    simp

theorem toLittleEndian_ofLittleEndian (bytes : Bytes) :
    toLittleEndian bytes.length (ofLittleEndian bytes) = bytes := by
  induction bytes with
  | nil => rfl
  | cons b bs ih =>
    have hb : b.toNat < 256 := b.toNat_lt
    have hdiv : (b.toNat + 256 * ofLittleEndian bs) / 256 = ofLittleEndian bs := by omega
    have hmod : UInt8.ofNat (b.toNat + 256 * ofLittleEndian bs) = b := by
      apply UInt8.toNat_inj.mp
      simp only [UInt8.toNat_ofNat']
      omega
    rw [List.length_cons, ofLittleEndian, toLittleEndian, hdiv, hmod, ih]

theorem ofLittleEndian_lt (bytes : Bytes) : ofLittleEndian bytes < range bytes.length := by
  induction bytes with
  | nil => simp [ofLittleEndian, range]
  | cons b bs ih =>
    have hb : b.toNat < 256 := b.toNat_lt
    rw [ofLittleEndian, List.length_cons, range]
    omega

/-! ## Integers of a file -/

/-- The number of integers that eight bytes can tell apart: two to the power 64. -/
def modulus : Nat := 18446744073709551616

/-- The first number that eight bytes stand for a negative number with: two to the power 63. -/
def signBit : Nat := 9223372036854775808

theorem range_size : range size = modulus := rfl

/-- A number as eight bytes, modulo `modulus`. -/
def encode (n : Nat) : Bytes := toLittleEndian size n

/-- The unsigned number in eight bytes. -/
def decode (bytes : Bytes) : Nat := ofLittleEndian bytes

@[simp] theorem length_encode (n : Nat) : (encode n).length = 8 := length_toLittleEndian _ _

/-- **A number below the modulus is read back.** -/
theorem decode_encode {n : Nat} (h : n < modulus) : decode (encode n) = n := by
  rw [decode, encode, ofLittleEndian_toLittleEndian, range_size, Nat.mod_eq_of_lt h]

/-- **Every eight bytes are what their number is written as.** -/
theorem encode_decode {bytes : Bytes} (h : bytes.length = 8) : encode (decode bytes) = bytes := by
  have := toLittleEndian_ofLittleEndian bytes
  rwa [h] at this

theorem decode_lt {bytes : Bytes} (h : bytes.length = 8) : decode bytes < modulus := by
  have := ofLittleEndian_lt bytes
  rwa [h] at this

/-- The signed number with the same eight bytes as an unsigned one. -/
def signed (n : Nat) : Int := if n < signBit then n else n - modulus

/-- The unsigned number with the same eight bytes as a signed one. -/
def unsigned (i : Int) : Nat := (i % modulus).toNat

theorem signed_of_lt {n : Nat} (h : n < signBit) : signed n = n := if_pos h

theorem signed_of_le {n : Nat} (h : signBit ≤ n) : signed n = n - modulus :=
  if_neg (Nat.not_lt.mpr h)

theorem signed_eq_zero_iff {n : Nat} (h : n < modulus) : signed n = 0 ↔ n = 0 := by
  unfold signed signBit modulus at *
  split <;> omega

theorem unsigned_signed {n : Nat} (h : n < modulus) : unsigned (signed n) = n := by
  rcases Nat.lt_or_ge n signBit with hn | hn
  · rw [signed_of_lt hn]
    unfold unsigned modulus at *
    omega
  · rw [signed_of_le hn]
    unfold unsigned modulus at *
    omega

theorem signed_unsigned {i : Int} (lower : -signBit ≤ i) (upper : i < signBit) :
    signed (unsigned i) = i := by
  by_cases hi : i < 0
  · rw [signed_of_le (by unfold unsigned signBit modulus at *; omega)]
    unfold unsigned signBit modulus at *
    omega
  · rw [signed_of_lt (by unfold unsigned signBit modulus at *; omega)]
    unfold unsigned signBit modulus at *
    omega

end LsmTree.Word
