import LsmTree.Format.Record

/-!
# Proofs/Format/Machine — reading with integers of 64 bits

The readers of the format count with natural numbers.  A machine counts with 64 bits: the readers are
written once more for it here, and a sum, difference or product that 64 bits have no place for is a
**fault**, as it is to take bytes that are not there.  Only where the readers look first, by a checked
sum or by asking for bytes that may be missing, is there none.  On a file whose size is a signed
number, whatever its bytes are, the readers come to an end without a fault, with the result that the
numbers without limits have (`Machine.readHeader_eq`, `Machine.indexSlot_eq`, `Machine.decode_eq`).
-/

namespace LsmTree

/-- What goes wrong on a machine that does not look first. -/
inductive Fault where
  /-- 64 bits have no place for the result -/
  | overflow
  /-- the bytes are not there -/
  | outOfBounds

/-- A computation on a machine: it ends in a fault, or with a result. -/
abbrev Machine := ExceptT Error (Except Fault)

namespace Machine

variable {α β γ : Type} {image : Image}

/-- The computation that ends with a result, without a fault. -/
def exact (result : Except Error α) : Machine α := ExceptT.mk (.ok result)

/-! ## Numbers -/

/-- A sum. -/
def add (a b : UInt64) : Except Fault UInt64 :=
  if a.toNat + b.toNat < UInt64.size then .ok (a + b) else .error .overflow

/-- A difference. -/
def sub (a b : UInt64) : Except Fault UInt64 := if b ≤ a then .ok (a - b) else .error .overflow

/-- A product. -/
def mul (a b : UInt64) : Except Fault UInt64 :=
  if a.toNat * b.toNat < UInt64.size then .ok (a * b) else .error .overflow

/-- A sum, if there is a place for it. -/
def add? (a b : UInt64) : Option UInt64 :=
  if a.toNat + b.toNat < UInt64.size then some (a + b) else none

/-- A product, if there is a place for it. -/
def mul? (a b : UInt64) : Option UInt64 :=
  if a.toNat * b.toNat < UInt64.size then some (a * b) else none

/-- A signed number as a length, unless it is negative. -/
def length? (raw : Int64) : Option UInt64 := if 0 ≤ raw then some raw.toUInt64 else none

/-- The bytes of an integer. -/
def wordSize : UInt64 := 8

/-- The bytes of a header. -/
def headerSize : UInt64 := 16

theorem add_spec {a b : UInt64} (h : a.toNat + b.toNat < UInt64.size) :
    ∃ c, add a b = .ok c ∧ c.toNat = a.toNat + b.toNat :=
  ⟨a + b, if_pos h, (UInt64.toNat_add a b).trans (Nat.mod_eq_of_lt h)⟩

example : add 18446744073709551615 1 = .error .overflow := rfl

theorem toNat_of_add {a b c : UInt64} (h : add a b = .ok c) : c.toNat = a.toNat + b.toNat := by
  unfold add at h
  split at h
  · rename_i hlt
    rw [← Except.ok.inj h, UInt64.toNat_add, Nat.mod_eq_of_lt hlt]
  · cases h

theorem sub_spec {a b : UInt64} (h : b ≤ a) :
    ∃ c, sub a b = .ok c ∧ c.toNat = a.toNat - b.toNat :=
  ⟨a - b, if_pos h, UInt64.toNat_sub_of_le a b h⟩

theorem mul_spec {a b : UInt64} (h : a.toNat * b.toNat < UInt64.size) :
    ∃ c, mul a b = .ok c ∧ c.toNat = a.toNat * b.toNat :=
  ⟨a * b, if_pos h, (UInt64.toNat_mul a b).trans (Nat.mod_eq_of_lt h)⟩

theorem add?_eq (a b : UInt64) :
    (add? a b).map UInt64.toNat =
      if a.toNat + b.toNat < UInt64.size then some (a.toNat + b.toNat) else none := by
  unfold add?
  split
  · rename_i h
    exact congrArg some ((UInt64.toNat_add a b).trans (Nat.mod_eq_of_lt h))
  · rfl

theorem mul?_eq (a b : UInt64) :
    (mul? a b).map UInt64.toNat =
      if a.toNat * b.toNat < UInt64.size then some (a.toNat * b.toNat) else none := by
  unfold mul?
  split
  · rename_i h
    exact congrArg some ((UInt64.toNat_mul a b).trans (Nat.mod_eq_of_lt h))
  · rfl

/-- The signed number with the bits of an unsigned one. -/
theorem toInt_toInt64 (w : UInt64) : w.toInt64.toInt = Word.signed w.toNat := by
  have hlt := w.toNat_lt
  change w.toBitVec.toInt = _
  rw [BitVec.toInt_eq_toNat_cond, Word.signed, Word.signBit, Word.modulus]
  change (if 2 * w.toNat < 2 ^ 64 then (w.toNat : Int) else w.toNat - (2 ^ 64 : Nat)) = _
  split <;> split <;> omega

theorem length?_toInt64 (w : UInt64) :
    length? w.toInt64 = if 0 ≤ Word.signed w.toNat then some w else none := by
  rw [length?, UInt64.toUInt64_toInt64]
  simp only [Int64.le_iff_toInt_le, toInt_toInt64, Int64.toInt_zero]

/-! ## Bytes -/

/-- The size of a file. -/
def fileSize (image : Image) : UInt64 := .ofNat image.size

/-- Takes the bytes between two positions. -/
def take (image : Image) (start stop : UInt64) : Except Fault Bytes :=
  if start.toNat ≤ stop.toNat ∧ stop.toNat ≤ image.size then
    .ok (image.extract start.toNat stop.toNat).toList
  else .error .outOfBounds

/-- The bytes between two positions, if they are there. -/
def get? (image : Image) (start stop : UInt64) : Except Fault (Option Bytes) :=
  if start ≤ stop ∧ stop ≤ fileSize image then some <$> take image start stop else .ok none

/-- So many bytes from a position on, if they are there, and the position behind them. -/
def slice? (image : Image) (start length : UInt64) : Except Fault (Option (Bytes × UInt64)) :=
  match add? start length with
  | none => .ok none
  | some stop => do
    let bytes ← get? image start stop
    return bytes.map (·, stop)

/-- The integer in eight bytes. -/
def toInt64 (bytes : Bytes) : Except Fault Int64 :=
  if Word.size ≤ bytes.length then
    .ok (UInt64.ofNat (Word.decode (bytes.take Word.size))).toInt64
  else .error .outOfBounds

/-- The integer at a position, if its bytes are there. -/
def int? (image : Image) (pos : UInt64) : Except Fault (Option Int64) := do
  match ← slice? image pos wordSize with
  | none => return none
  | some (bytes, _) => some <$> toInt64 bytes

/-- A file that is not too large has a size. -/
theorem toNat_fileSize (hfits : image.size < Word.signBit) : (fileSize image).toNat = image.size :=
  UInt64.toNat_ofNat_of_lt' (Nat.lt_trans hfits (by decide))

theorem toNat_ofNat_of_le (hfits : image.size < Word.signBit) {n : Nat} (hn : n ≤ image.size) :
    (UInt64.ofNat n).toNat = n :=
  UInt64.toNat_ofNat_of_lt' (Nat.lt_of_le_of_lt hn (Nat.lt_trans hfits (by decide)))

/-- Behind a position of a file there is a place for one word more. -/
theorem add_within (hfits : image.size < Word.signBit) {pos width : UInt64}
    (hpos : pos.toNat ≤ image.size) (hwidth : width.toNat ≤ Word.size) :
    ∃ next, add pos width = .ok next ∧ next.toNat = pos.toNat + width.toNat := by
  refine add_spec ?_
  have hroom : Word.signBit + Word.size < UInt64.size := by decide
  omega

theorem get?_eq (hfits : image.size < Word.signBit) {start stop : UInt64}
    (hordered : start.toNat ≤ stop.toNat) :
    get? image start stop =
      .ok (if stop.toNat ≤ image.size then
        some (image.extract start.toNat stop.toNat).toList else none) := by
  unfold get? take
  simp only [UInt64.le_iff_toNat_le, toNat_fileSize hfits, hordered, true_and]
  split <;> rfl

/-- **Bytes are got where they are there**, and nothing goes wrong where they are not. -/
theorem slice?_eq (hfits : image.size < Word.signBit) (start length : UInt64) :
    slice? image start length =
      .ok ((image.slice? start.toNat length.toNat).map
        (·, .ofNat (start.toNat + length.toNat))) := by
  have hsum := add?_eq start length
  unfold slice? Image.slice?
  cases hstop : add? start length with
  | none =>
    rw [hstop, Option.map_none, eq_comm, ite_eq_right_iff] at hsum
    have hover : ¬ start.toNat + length.toNat ≤ image.size := fun hle => by
      have hlt : start.toNat + length.toNat < UInt64.size :=
        Nat.lt_of_le_of_lt hle (Nat.lt_trans hfits (by decide))
      cases hsum hlt
    rw [if_neg hover]
    rfl
  | some stop =>
    rw [hstop, Option.map_some, eq_comm, Option.ite_none_right_eq_some] at hsum
    have hnat : start.toNat + length.toNat = stop.toNat := Option.some.inj hsum.2
    have hget := get?_eq hfits (show start.toNat ≤ stop.toNat by omega)
    dsimp only
    rw [hget, hnat, UInt64.ofNat_toNat]
    rfl

/-- **An integer is read where its bytes are there.** -/
theorem int?_eq (hfits : image.size < Word.signBit) (pos : UInt64) :
    int? image pos =
      .ok ((image.word? pos.toNat).map fun n => (UInt64.ofNat n).toInt64) := by
  have hwidth : wordSize.toNat = Word.size := rfl
  unfold int? Image.word?
  rw [slice?_eq hfits, hwidth]
  cases hslice : image.slice? pos.toNat Word.size with
  | none => rfl
  | some bytes =>
    obtain ⟨_, _, _, _, hlength⟩ := Image.slice?_eq_some_iff.mp hslice
    have htake : bytes.take Word.size = bytes := List.take_of_length_le (Nat.le_of_eq hlength)
    change some <$> toInt64 bytes = _
    rw [toInt64, if_pos (Nat.le_of_eq hlength.symm), htake]
    rfl

/-! ## Steps of a computation -/

@[simp] theorem exact_ok_bind (a : α) (next : α → Machine β) :
    exact (.ok a) >>= next = next a := rfl

/-- A step without a fault. -/
@[simp] theorem lift_ok_bind (a : α) (next : α → Machine β) :
    (liftM (.ok a : Except Fault α) : Machine α) >>= next = next a := rfl

theorem map_exact (f : α → β) (found : Except Error α) : f <$> exact found = exact (f <$> found) := by
  cases found <;> rfl

/-- **Computations are exact if each of their steps is**, as far as what they come to is looked at
without limits. -/
theorem bind_exact {found : Machine α} {told : Except Error β} {view : α → β}
    {next : α → Machine γ} {rest : β → Except Error γ} (h : view <$> found = exact told)
    (hnext : ∀ a, told = .ok (view a) → next a = exact (rest (view a))) :
    found >>= next = exact (told >>= rest) := by
  obtain fault | e | a := found
  · cases h
  · obtain rfl : .error e = told := Except.ok.inj h
    rfl
  · obtain rfl : .ok (view a) = told := Except.ok.inj h
    exact hnext a rfl

/-! ## Integers that were read -/

section Words

variable {n pos : Nat}

/-- A word that was read, as a number. -/
theorem toNat_of_word? (h : image.word? pos = some n) : (UInt64.ofNat n).toNat = n :=
  UInt64.toNat_ofNat_of_lt' (Image.word?_lt h)

/-- A number that is not negative is the number with its bits. -/
theorem signed_of_nonneg (h : n < Word.modulus) (hsign : 0 ≤ Word.signed n) :
    Word.signed n = n := by
  rcases Nat.lt_or_ge n Word.signBit with hlt | hge
  · exact Word.signed_of_lt hlt
  · rw [Word.signed_of_le hge] at hsign
    omega

theorem toInt_of_word? (h : image.word? pos = some n) :
    (UInt64.ofNat n).toInt64.toInt = Word.signed n := by
  rw [toInt_toInt64, toNat_of_word? h]

/-- **A length that was read is the number that it says**, unless that is negative. -/
theorem length?_of_word? (h : image.word? pos = some n) :
    (0 ≤ Word.signed n ∧ Word.signed n = n ∧
        length? (UInt64.ofNat n).toInt64 = some (.ofNat n)) ∨
      (¬ 0 ≤ Word.signed n ∧ length? (UInt64.ofNat n).toInt64 = none) := by
  rw [length?_toInt64, toNat_of_word? h]
  by_cases hsign : 0 ≤ Word.signed n
  · exact .inl ⟨hsign, signed_of_nonneg (Image.word?_lt h) hsign, if_pos hsign⟩
  · exact .inr ⟨hsign, if_neg hsign⟩

end Words

/-! ## The header -/

/-- The number of entries that a header says, if the file has their index. -/
def entryCount (image : Image) (raw : Int64) : Machine UInt64 := do
  let some count := length? raw | throw (.corrupt (.invalidEntryCount raw.toInt))
  let some indexEnd := (mul? count wordSize).bind (add? · headerSize)
    | throw (.corrupt (.invalidEntryCount raw.toInt))
  if fileSize image < indexEnd then throw (.corrupt (.invalidEntryCount raw.toInt))
  return count

/-- Reads the header of a file. -/
def readHeader (image : Image) : Machine (Version × UInt64) := do
  let some rawVersion ← int? image 0 | throw (.corrupt .truncatedHeader)
  let some rawCount ← int? image wordSize | throw (.corrupt .truncatedHeader)
  let version ← exact (Version.ofRaw rawVersion.toUInt64)
  let count ← entryCount image rawCount
  return (version, count)

/-- The end of the index, if 64 bits have a place for it. -/
theorem indexEnd_eq (count : UInt64) :
    ((mul? count wordSize).bind (add? · headerSize)).map UInt64.toNat =
      if Header.indexEnd count.toNat < UInt64.size then some (Header.indexEnd count.toNat)
      else none := by
  have hmul := mul?_eq count wordSize
  rw [show wordSize.toNat = Word.size from rfl] at hmul
  have hend : Header.indexEnd count.toNat = count.toNat * Word.size + Header.size := by
    rw [Header.indexEnd, Nat.mul_comm, Nat.add_comm]
  rw [hend]
  cases hscaled : mul? count wordSize with
  | none =>
    rw [hscaled, Option.map_none, eq_comm, ite_eq_right_iff] at hmul
    rw [if_neg fun hlt => by cases hmul (Nat.lt_of_le_of_lt (Nat.le_add_right _ _) hlt)]
    rfl
  | some scaled =>
    rw [hscaled, Option.map_some, eq_comm, Option.ite_none_right_eq_some] at hmul
    rw [Option.some.inj hmul.2]
    exact add?_eq scaled headerSize

/-- **A count is accepted if the index lies in the file**; one for whose index 64 bits have no place
is not. -/
theorem entryCount_eq (hfits : image.size < Word.signBit) {pos n : Nat}
    (hword : image.word? pos = some n) :
    UInt64.toNat <$> entryCount image (UInt64.ofNat n).toInt64 =
      exact (if 0 ≤ Word.signed n ∧ Header.indexEnd (Word.signed n).toNat ≤ image.size then
        .ok (Word.signed n).toNat else .error (.corrupt (.invalidEntryCount (Word.signed n)))) := by
  have hnat := toNat_of_word? hword
  rw [entryCount, toInt_of_word? hword]
  rcases length?_of_word? hword with ⟨hsign, hraw, hlength⟩ | ⟨hsign, hlength⟩
  · have hend := indexEnd_eq (.ofNat n)
    rw [hnat] at hend
    simp only [hlength, hraw, Int.toNat_natCast, Int.natCast_nonneg, true_and]
    cases hindex : (mul? (UInt64.ofNat n) wordSize).bind (add? · headerSize) with
    | none =>
      rw [hindex, Option.map_none, eq_comm, ite_eq_right_iff] at hend
      have hover : ¬ Header.indexEnd n ≤ image.size := fun hle => by
        cases hend (Nat.lt_of_le_of_lt hle (Nat.lt_trans hfits (by decide)))
      rw [if_neg hover]
      rfl
    | some indexEnd =>
      rw [hindex, Option.map_some, eq_comm, Option.ite_none_right_eq_some] at hend
      have hout : fileSize image < indexEnd ↔ ¬ Header.indexEnd n ≤ image.size := by
        rw [UInt64.lt_iff_toNat_lt, toNat_fileSize hfits, Option.some.inj hend.2, Nat.not_le]
      simp only [hout, ite_not]
      split
      · exact congrArg (fun count => exact (.ok count)) hnat
      · rfl
  · rw [hlength, if_neg (not_and_of_not_left _ hsign)]
    rfl

/-- **A header is read on a machine** as it is without one. -/
theorem readHeader_eq (hfits : image.size < Word.signBit) :
    (fun header => ⟨header.1, header.2.toNat⟩) <$> readHeader image =
      exact (Header.decode image) := by
  have hfirst : (0 : UInt64).toNat = 0 := rfl
  have hsecond : wordSize.toNat = Word.size := rfl
  unfold readHeader Header.decode Image.int?
  rw [int?_eq hfits, lift_ok_bind, int?_eq hfits, hfirst, hsecond]
  cases image.word? 0 with
  | none => rfl
  | some rawVersion =>
    dsimp only [Option.map_some]
    rw [lift_ok_bind]
    cases hcount : image.word? Word.size with
    | none => rfl
    | some rawCount =>
      dsimp only [Option.map_some]
      rw [UInt64.toUInt64_toInt64]
      cases Version.ofRaw (UInt64.ofNat rawVersion) with
      | error e => rfl
      | ok version =>
        have hentries := congrArg (Header.mk version <$> ·) (entryCount_eq hfits hcount)
        rw [exact_ok_bind, bind_pure_comp, Functor.map_map]
        simp only [Functor.map_map, map_exact] at hentries
        refine hentries.trans (congrArg exact ?_)
        change _ = (if _ then _ else _ : Except Error Header)
        split <;> rfl

/-! ## Slots and records -/

/-- The position of a slot of the index. -/
def slotPosition (pos : UInt64) : Except Fault UInt64 := do
  let scaled ← mul pos wordSize
  add headerSize scaled

/-- The offset in a slot of the index. -/
def indexSlot (image : Image) (pos : UInt64) : Machine UInt64 := do
  let slot ← slotPosition pos
  let some raw ← int? image slot | throw (.corrupt (.invalidOffset (-1)))
  let some offset := length? raw | throw (.corrupt (.invalidOffset raw.toInt))
  if offset < headerSize ∨ fileSize image ≤ offset then
    throw (.corrupt (.invalidOffset raw.toInt))
  return offset

/-- As many bytes as an integer says, behind it: the bytes, and the position behind them. -/
def sized (image : Image) (pos : UInt64) (raw : Int64) (wrong : Int → Corruption) :
    Machine (Bytes × UInt64) := do
  let some length := length? raw | throw (.corrupt (wrong raw.toInt))
  let start ← add pos wordSize
  let some field ← slice? image start length | throw (.corrupt (wrong raw.toInt))
  return field

/-- The key of the record at `offset`, and the position behind the key. -/
def keyField (image : Image) (offset : UInt64) : Machine (Bytes × UInt64) := do
  let some raw ← int? image offset | throw (.corrupt (.invalidOffset offset.toInt64.toInt))
  sized image offset raw .invalidKeyLength

/-- The value part of a record that begins at `pos`. -/
def valueField (image : Image) (pos : UInt64) : Machine (Option Bytes) := do
  let some raw ← int? image pos | throw (.corrupt (.invalidValueLength pos.toInt64.toInt))
  if raw = -1 then return none
  let (value, _) ← sized image pos raw .invalidValueLength
  return some value

/-- The entry whose record begins at `offset`. -/
def decode (image : Image) (offset : UInt64) : Machine Entry := do
  let (key, rest) ← keyField image offset
  let value ← valueField image rest
  return ⟨key, value⟩

/-- **The position of a slot is found without a fault**, if the file has the slot. -/
theorem slotPosition_spec (hfits : image.size < Word.signBit) {pos : UInt64}
    (hpos : Header.indexEnd pos.toNat ≤ image.size) :
    ∃ slot, slotPosition pos = .ok slot ∧
      slot.toNat = Header.size + pos.toNat * Word.size := by
  have hwidth : wordSize.toNat = Word.size := rfl
  have hheader : headerSize.toNat = Header.size := rfl
  have hbound : Header.size + pos.toNat * Word.size < UInt64.size := by
    rw [Header.indexEnd, Nat.mul_comm] at hpos
    exact Nat.lt_of_le_of_lt hpos (Nat.lt_trans hfits (by decide))
  obtain ⟨scaled, hmul, hscaled⟩ := @mul_spec pos wordSize (by rw [hwidth]; omega)
  rw [hwidth] at hscaled
  obtain ⟨slot, hadd, hslot⟩ := @add_spec headerSize scaled (by rwa [hheader, hscaled])
  exact ⟨slot, by rw [slotPosition, hmul]; exact hadd, by rw [hslot, hheader, hscaled]⟩

/-- **An offset is accepted if it is one of a record in the file.** -/
theorem indexSlot_eq (hfits : image.size < Word.signBit) {pos : UInt64}
    (hpos : Header.indexEnd pos.toNat ≤ image.size) :
    UInt64.toNat <$> indexSlot image pos = exact (IndexSlot.decode image pos.toNat) := by
  obtain ⟨slot, hposition, hslot⟩ := slotPosition_spec hfits hpos
  unfold indexSlot IndexSlot.decode Image.int?
  rw [hposition, lift_ok_bind, int?_eq hfits, lift_ok_bind, hslot]
  cases hword : image.word? (Header.size + pos.toNat * Word.size) with
  | none => rfl
  | some n =>
    have hnat := toNat_of_word? hword
    simp only [Option.map_some, toInt_of_word? hword]
    rcases length?_of_word? hword with ⟨-, hraw, hlength⟩ | ⟨hsign, hlength⟩
    · have hheader : headerSize.toNat = Header.size := rfl
      have hinside : UInt64.ofNat n < headerSize ∨ fileSize image ≤ UInt64.ofNat n ↔
          ¬((Header.size : Int) ≤ n ∧ (n : Int) < image.size) := by
        rw [UInt64.lt_iff_toNat_lt, UInt64.le_iff_toNat_le, hnat, hheader, toNat_fileSize hfits]
        omega
      simp only [hlength, hraw, hinside, ite_not]
      split
      · exact congrArg (fun n => exact (.ok n)) hnat
      · rfl
    · have hrange : ¬((Header.size : Int) ≤ Word.signed n ∧ Word.signed n < image.size) := by
        omega
      rw [hlength, if_neg hrange]
      rfl

/-- **As many bytes as an integer says are there or not**, and nothing goes wrong if not. -/
theorem sized_eq (hfits : image.size < Word.signBit) {pos : UInt64} {n : Nat}
    (hword : image.word? pos.toNat = some n) (wrong : Int → Corruption) :
    (fun field => (field.1, field.2.toNat)) <$> sized image pos (UInt64.ofNat n).toInt64 wrong =
      exact (if 0 ≤ Word.signed n then
        match image.slice? (pos.toNat + Word.size) (Word.signed n).toNat with
        | some bytes => .ok (bytes, pos.toNat + Word.size + (Word.signed n).toNat)
        | none => .error (.corrupt (wrong (Word.signed n)))
      else .error (.corrupt (wrong (Word.signed n)))) := by
  have hnat := toNat_of_word? hword
  rw [sized, toInt_of_word? hword]
  rcases length?_of_word? hword with ⟨hsign, hraw, hlength⟩ | ⟨hsign, hlength⟩
  · have hpos : pos.toNat ≤ image.size := Nat.le_of_add_right_le (Image.end_le_of_word? hword)
    obtain ⟨start, hadd, hstart⟩ := @add_within image hfits pos wordSize hpos (Nat.le_refl 8)
    have hstart : start.toNat = pos.toNat + Word.size := hstart
    rw [hlength, if_pos hsign, hraw, Int.toNat_natCast]
    dsimp only
    rw [hadd, lift_ok_bind, slice?_eq hfits, lift_ok_bind, hstart, hnat]
    cases hslice : image.slice? (pos.toNat + Word.size) n with
    | none => rfl
    | some bytes =>
      have hrest := toNat_ofNat_of_le hfits (Image.end_le_of_slice? hslice)
      exact congrArg (fun rest => exact (.ok (bytes, rest))) hrest
  · rw [hlength, if_neg hsign]
    rfl

theorem keyField_eq (hfits : image.size < Word.signBit) (offset : UInt64) :
    (fun field => (field.1, field.2.toNat)) <$> keyField image offset =
      exact (Record.keyField image offset.toNat) := by
  unfold keyField Record.keyField Image.int?
  rw [int?_eq hfits, lift_ok_bind]
  cases hword : image.word? offset.toNat with
  | none =>
    simp only [Option.map_none, toInt_toInt64]
    rfl
  | some n => exact sized_eq hfits hword .invalidKeyLength

theorem valueField_eq (hfits : image.size < Word.signBit) (pos : UInt64) :
    valueField image pos = exact (Record.valueField image pos.toNat) := by
  unfold valueField Record.valueField Image.int?
  rw [int?_eq hfits, lift_ok_bind]
  cases hword : image.word? pos.toNat with
  | none =>
    simp only [Option.map_none, toInt_toInt64]
    rfl
  | some n =>
    have habsent : (UInt64.ofNat n).toInt64 = -1 ↔ Word.signed n = Record.absentValue := by
      rw [← Int64.toInt_inj, toInt_of_word? hword]
      rfl
    have hsized := sized_eq hfits hword .invalidValueLength
    simp only [Option.map_some, habsent]
    by_cases hmarked : Word.signed n = Record.absentValue
    · rw [if_pos hmarked, if_pos hmarked]
      rfl
    · have hvalue := @bind_exact _ _ _ _ _ _ _ (fun field => .ok (some field.1)) hsized
        fun _ _ => rfl
      rw [if_neg hmarked, if_neg hmarked]
      refine hvalue.trans (congrArg exact ?_)
      split
      · cases image.slice? (pos.toNat + Word.size) (Word.signed n).toNat <;> rfl
      · rfl

/-- **A record is decoded on a machine**, wherever in the file it begins. -/
theorem decode_eq (hfits : image.size < Word.signBit) (offset : UInt64) :
    decode image offset = exact (Record.decode image offset.toNat) := by
  refine bind_exact (keyField_eq hfits offset) fun ⟨key, rest⟩ _ => ?_
  dsimp only
  rw [valueField_eq hfits]
  cases Record.valueField image rest.toNat <;> rfl

end Machine

end LsmTree
