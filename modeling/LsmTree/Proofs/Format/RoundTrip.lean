import LsmTree.Format.Record

/-!
# Proofs/Format/RoundTrip — headers, index slots and records are read back

`Image.At image pos bytes` says that the bytes lie in the file from `pos` on.  It splits along
concatenation (`Image.At.append`, `Image.At.concat`), so a layout is taken apart piece by piece; each
reader of the format is then a fact about the piece it reads: `Header.decode_of_at`,
`IndexSlot.decode_of_at`, `Record.decode_of_at`.

Every file here is shorter than `Word.signBit`, so that no length in it looks negative.
-/

namespace LsmTree

namespace Image

/-! ## Where bytes lie -/

/-- The bytes lie in the file from `pos` on. -/
def At (image : Image) (pos : Nat) (bytes : Bytes) : Prop :=
  image.slice? pos bytes.length = some bytes

theorem at_iff {image : Image} {pos : Nat} {bytes : Bytes} :
    image.At pos bytes ↔
      ∃ before after, image.toList = before ++ bytes ++ after ∧ before.length = pos := by
  rw [At, slice?_eq_some_iff]
  constructor
  · rintro ⟨before, after, himage, hbefore, -⟩
    exact ⟨before, after, himage, hbefore⟩
  · rintro ⟨before, after, himage, hbefore⟩
    exact ⟨before, after, himage, hbefore, rfl⟩

theorem At.le_size {image : Image} {pos : Nat} {bytes : Bytes} (h : image.At pos bytes) :
    pos + bytes.length ≤ image.size := by
  obtain ⟨before, after, himage, rfl⟩ := at_iff.mp h
  have hsize : image.size = (before ++ bytes ++ after).length := by rw [← himage]; simp
  simp only [List.length_append] at hsize
  omega

/-- **Two pieces lie one behind the other.** -/
theorem At.append {image : Image} {pos : Nat} {first second : Bytes}
    (h : image.At pos (first ++ second)) :
    image.At pos first ∧ image.At (pos + first.length) second := by
  obtain ⟨before, after, himage, rfl⟩ := at_iff.mp h
  refine ⟨at_iff.mpr ⟨before, second ++ after, ?_, rfl⟩,
    at_iff.mpr ⟨before ++ first, after, ?_, List.length_append⟩⟩
  · rw [himage]
    simp only [List.append_assoc]
  · rw [himage]
    simp only [List.append_assoc]

/-- What lies one behind the other lies there as one piece. -/
theorem At.concat {image : Image} {pos : Nat} {first second : Bytes} (h : image.At pos first)
    (h' : image.At (pos + first.length) second) : image.At pos (first ++ second) := by
  obtain ⟨before, after, himage, hbefore⟩ := at_iff.mp h
  obtain ⟨front, last, himage', hfront⟩ := at_iff.mp h'
  have hparts : (before ++ first) ++ after = front ++ (second ++ last) := by
    rw [← himage, himage', List.append_assoc front]
  obtain ⟨rfl, -⟩ := List.append_inj hparts (by simp [hbefore, hfront])
  exact at_iff.mpr ⟨before, last, by rw [himage', List.append_assoc before], hbefore⟩

/-! ## Integers -/

theorem At.word? {image : Image} {pos n : Nat} (h : image.At pos (Word.encode n))
    (hn : n < Word.modulus) : image.word? pos = some n := by
  have hslice : image.slice? pos Word.size = some (Word.encode n) := by
    simpa [At, Word.size] using h
  rw [Image.word?, hslice, Option.map_some, Word.decode_encode hn]

theorem At.int? {image : Image} {pos n : Nat} (h : image.At pos (Word.encode n))
    (hn : n < Word.signBit) : image.int? pos = some (n : Int) := by
  have hmod : n < Word.modulus := Nat.lt_trans hn (by decide)
  rw [Image.int?, h.word? hmod, Option.map_some, Word.signed_of_lt hn]

end Image

/-! ## Headers -/

/-- A header is read back if the index it announces fits into the file. -/
theorem Header.decode_of_at {image : Image} {header : Header} (h : image.At 0 header.encode)
    (hsize : image.size < Word.signBit) (hindex : indexEnd header.count ≤ image.size) :
    Header.decode image = .ok header := by
  obtain ⟨⟨⟩, count⟩ := header
  have hcount : count < Word.signBit := by
    simp only [indexEnd, Word.size] at hindex
    omega
  have hparts : image.At 0 (Word.encode 0 ++ Word.encode count) := by
    simpa [Header.encode, Header.fields, Version.toRaw] using h
  obtain ⟨hversion, hcountAt⟩ := hparts.append
  have hzero : image.int? 0 = some 0 := hversion.int? (by decide)
  have hint : image.int? Word.size = some (count : Int) := by
    simpa [Word.size] using hcountAt.int? hcount
  exact decode_eq_ok_iff.mpr ⟨hzero, hint, hindex⟩

/-! ## Index slots -/

/-- A slot is read back if its offset lies behind the header and within the file. -/
theorem IndexSlot.decode_of_at {image : Image} {pos offset : Nat}
    (h : image.At (Header.size + pos * Word.size) (IndexSlot.encode offset))
    (hsize : image.size < Word.signBit) (hlower : Header.size ≤ offset)
    (hupper : offset < image.size) :
    IndexSlot.decode image pos = .ok offset := by
  have hint : image.int? (Header.size + pos * Word.size) = some (offset : Int) :=
    h.int? (Nat.lt_trans hupper hsize)
  unfold IndexSlot.decode
  simp only [hint]
  rw [if_pos ⟨by exact_mod_cast hlower, by exact_mod_cast hupper⟩, Int.toNat_natCast]

/-! ## Records -/

namespace Record

theorem keyField_of_at {image : Image} {offset : Nat} {key : Bytes}
    (h : image.At offset (Word.encode key.length ++ key)) (hsize : image.size < Word.signBit) :
    keyField image offset = .ok (key, offset + Word.size + key.length) := by
  obtain ⟨hlength, hkey⟩ := h.append
  have hbound := hkey.le_size
  rw [Word.length_encode] at hkey hbound
  have hint : image.int? offset = some (key.length : Int) := hlength.int? (by omega)
  have hslice : image.slice? (offset + Word.size) key.length = some key := hkey
  unfold keyField
  simp [hint, hslice]

theorem valueField_of_at {image : Image} {pos : Nat} {value : Bytes}
    (h : image.At pos (Word.encode value.length ++ value)) (hsize : image.size < Word.signBit) :
    valueField image pos = .ok (some value) := by
  obtain ⟨hlength, hvalue⟩ := h.append
  have hbound := hvalue.le_size
  rw [Word.length_encode] at hvalue hbound
  have hint : image.int? pos = some (value.length : Int) := hlength.int? (by omega)
  have hslice : image.slice? (pos + Word.size) value.length = some value := hvalue
  have hpresent : (value.length : Int) ≠ absentValue := by
    unfold absentValue
    omega
  unfold valueField
  simp [hint, hslice, hpresent]

theorem valueField_of_at_absent {image : Image} {pos : Nat}
    (h : image.At pos (Word.encode (Word.unsigned absentValue))) :
    valueField image pos = .ok none := by
  have hint : image.int? pos = some absentValue := by
    rw [Image.int?, h.word? (by decide), Option.map_some, Word.signed_unsigned (by decide) (by decide)]
  unfold valueField
  simp [hint]

/-- **A record is read back.** -/
theorem decode_of_at {image : Image} {offset : Nat} {entry : Entry}
    (h : image.At offset (Record.encode entry)) (hsize : image.size < Word.signBit) :
    Record.decode image offset = .ok entry := by
  obtain ⟨key, _ | value⟩ := entry
  · have hparts : image.At offset
        ((Word.encode key.length ++ key) ++ Word.encode (Word.unsigned absentValue)) := by
      simpa [Record.encode, Record.fields] using h
    obtain ⟨hkey, hvalue⟩ := hparts.append
    rw [List.length_append, Word.length_encode, ← Nat.add_assoc] at hvalue
    simp [Record.decode, keyField_of_at hkey hsize, Word.size, valueField_of_at_absent hvalue,
      bind, Except.bind, pure, Except.pure]
  · have hparts : image.At offset
        ((Word.encode key.length ++ key) ++ (Word.encode value.length ++ value)) := by
      simpa [Record.encode, Record.fields] using h
    obtain ⟨hkey, hvalue⟩ := hparts.append
    rw [List.length_append, Word.length_encode, ← Nat.add_assoc] at hvalue
    simp [Record.decode, keyField_of_at hkey hsize, Word.size, valueField_of_at hvalue hsize,
      bind, Except.bind, pure, Except.pure]

end Record

end LsmTree
