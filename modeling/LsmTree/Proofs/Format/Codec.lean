import LsmTree.Proofs.Format.RoundTrip

/-!
# Proofs/Format/Codec — a record is read exactly where it was written

Whatever a file holds, and wherever one looks in it, an entry is found where the bytes of its record
lie and nowhere else (`Record.decode_eq_ok_iff`): a length that is negative or runs past the end is
read as no record at all.  A record tells its own end, so none begins with another
(`Record.eq_of_encode_prefix`).
-/

namespace LsmTree

/-! ## Pieces that are read -/

namespace Word

variable {m n : Nat} {xs ys : Bytes}

/-- Eight bytes tell numbers apart up to the modulus. -/
theorem mod_eq_of_encode_eq (h : encode m = encode n) : m % modulus = n % modulus := by
  have hread : ∀ k, decode (encode k) = k % modulus := ofLittleEndian_toLittleEndian size
  rw [← hread, h, hread]

/-- An integer is told apart from what follows it. -/
theorem encode_append_inj (h : encode m ++ xs = encode n ++ ys) :
    m % modulus = n % modulus ∧ xs = ys := by
  obtain ⟨hword, hrest⟩ := List.append_inj h (by simp)
  exact ⟨mod_eq_of_encode_eq hword, hrest⟩

/-- Lengths are told apart by their bytes. -/
theorem eq_of_mod_eq (hm : m < modulus) (hn : n < signBit) (h : m % modulus = n % modulus) :
    m = n := by
  rwa [Nat.mod_eq_of_lt hm, Nat.mod_eq_of_lt (Nat.lt_trans hn (by decide))] at h

end Word

namespace Image

variable {image : Image} {pos : Nat} {bytes : Bytes}

/-- Bytes lie where the rest of the file begins with them. -/
theorem at_iff_prefix_drop (hne : bytes ≠ []) :
    image.At pos bytes ↔ bytes <+: image.toList.drop pos := by
  rw [at_iff]
  constructor
  · rintro ⟨before, after, himage, rfl⟩
    exact ⟨after, by rw [himage, List.append_assoc, List.drop_left]⟩
  · rintro ⟨after, hdrop⟩
    have hpos : pos ≤ image.toList.length := by
      refine Nat.le_of_not_lt fun hlt => hne ?_
      rw [List.drop_eq_nil_of_le (Nat.le_of_lt hlt)] at hdrop
      exact (List.append_eq_nil_iff.mp hdrop).1
    refine ⟨image.toList.take pos, after, ?_, List.length_take_of_le hpos⟩
    rw [List.append_assoc, hdrop, List.take_append_drop]

theorem at_of_slice? {length : Nat} (h : image.slice? pos length = some bytes) :
    image.At pos bytes ∧ bytes.length = length := by
  obtain ⟨before, after, himage, hbefore, hlength⟩ := slice?_eq_some_iff.mp h
  exact ⟨at_iff.mpr ⟨before, after, himage, hbefore⟩, hlength⟩

/-- **An integer that is read was written as such.** -/
theorem at_of_word? {n : Nat} (h : image.word? pos = some n) : image.At pos (Word.encode n) := by
  obtain ⟨bytes, hslice, rfl⟩ := Option.map_eq_some_iff.mp h
  obtain ⟨hat, hlength⟩ := at_of_slice? hslice
  rwa [Word.encode_decode hlength]

theorem at_of_int? {raw : Int} (h : image.int? pos = some raw) :
    image.At pos (Word.encode (Word.unsigned raw)) := by
  obtain ⟨n, hword, rfl⟩ := Option.map_eq_some_iff.mp h
  rw [Word.unsigned_signed (word?_lt hword)]
  exact at_of_word? hword

/-- A length that is not negative was written as such. -/
theorem at_of_length? {length : Nat} (h : image.int? pos = some (length : Int)) :
    image.At pos (Word.encode length) := by
  obtain ⟨n, hword, hsigned⟩ := Option.map_eq_some_iff.mp h
  have hlt := word?_lt hword
  obtain rfl : n = length := by
    rcases Nat.lt_or_ge n Word.signBit with hn | hn
    · rw [Word.signed_of_lt hn] at hsigned
      exact Int.ofNat.inj hsigned
    · rw [Word.signed_of_le hn] at hsigned
      omega
  exact at_of_word? hword

/-- **Bytes that are read behind their length** were written so. -/
theorem at_of_sized {raw : Int} (hraw : image.int? pos = some raw) (hnonneg : 0 ≤ raw)
    (hslice : image.slice? (pos + Word.size) raw.toNat = some bytes) :
    image.At pos (Word.encode bytes.length ++ bytes) ∧ bytes.length = raw.toNat := by
  obtain ⟨hbytes, hlength⟩ := at_of_slice? hslice
  rw [← Int.toNat_of_nonneg hnonneg, ← hlength] at hraw
  refine ⟨(at_of_length? hraw).concat ?_, hlength⟩
  rwa [Word.length_encode]

end Image

namespace Record

variable {image : Image} {offset : Nat} {entry other : Entry}

/-! ## Records that are read -/

/-- The value part of a record, as it is written. -/
def encodeValue : Option Bytes → Bytes
  | none => Word.encode (Word.unsigned absentValue)
  | some value => Word.encode value.length ++ value

theorem encode_eq (entry : Entry) :
    encode entry = (Word.encode entry.key.length ++ entry.key) ++ encodeValue entry.value := by
  obtain ⟨key, _ | value⟩ := entry <;> simp [encode, fields, encodeValue]

theorem encode_ne_nil (entry : Entry) : encode entry ≠ [] := by
  rw [← List.length_pos_iff, length_encode, size, Word.size]
  omega

theorem at_of_keyField {key : Bytes} {rest : Nat} (h : keyField image offset = .ok (key, rest)) :
    image.At offset (Word.encode key.length ++ key) ∧
      rest = offset + (Word.encode key.length ++ key).length := by
  unfold keyField at h
  split at h
  · cases h
  rename_i raw hraw
  split at h
  · rename_i hnonneg
    split at h
    · rename_i hslice
      cases h
      obtain ⟨hkey, hlength⟩ := Image.at_of_sized hraw hnonneg hslice
      refine ⟨hkey, ?_⟩
      rw [List.length_append, Word.length_encode, hlength, Nat.add_assoc, Word.size]
    · cases h
  · cases h

theorem at_of_valueField {value : Option Bytes} (h : valueField image offset = .ok value) :
    image.At offset (encodeValue value) := by
  unfold valueField at h
  split at h
  · cases h
  rename_i raw hraw
  split at h
  · rename_i habsent
    cases h
    exact Image.at_of_int? (habsent ▸ hraw)
  split at h
  · rename_i hnonneg
    split at h
    · rename_i hslice
      cases h
      exact (Image.at_of_sized hraw hnonneg hslice).1
    · cases h
  · cases h

/-- **What is read as an entry is the record of this entry.** -/
theorem at_of_decode (h : decode image offset = .ok entry) : image.At offset (encode entry) := by
  obtain ⟨⟨key, rest⟩, hkey, hrest⟩ := bind_eq_ok_iff.mp h
  obtain ⟨value, hvalue, hentry⟩ := bind_eq_ok_iff.mp hrest
  obtain rfl := Except.ok.inj hentry
  obtain ⟨hfront, rfl⟩ := at_of_keyField hkey
  rw [encode_eq]
  exact hfront.concat (at_of_valueField hvalue)

/-- **An entry is read exactly where its record lies.** -/
theorem decode_eq_ok_iff (hsize : image.size < Word.signBit) :
    decode image offset = .ok entry ↔ image.At offset (encode entry) :=
  ⟨at_of_decode, fun h => decode_of_at h hsize⟩

/-! ## Records side by side -/

/-- A value part is not the beginning of another one. -/
theorem eq_of_encodeValue_append {value value' : Option Bytes} {rest : Bytes}
    (hshort : ∀ v ∈ value', v.length < Word.signBit)
    (h : encodeValue value ++ rest = encodeValue value') : value = value' := by
  have habsent : Word.unsigned absentValue = 18446744073709551615 := by decide
  rcases value with _ | v <;> rcases value' with _ | v'
  · rfl
  · have hv' := hshort v' rfl
    obtain ⟨hword, -⟩ := Word.encode_append_inj h
    unfold Word.signBit at hv'
    unfold Word.modulus at hword
    omega
  · -- nothing follows the mark of a tombstone, so the value would be empty
    rw [encodeValue, encodeValue, List.append_assoc,
      ← List.append_nil (Word.encode (Word.unsigned absentValue))] at h
    obtain ⟨hword, hnil⟩ := Word.encode_append_inj h
    obtain ⟨rfl, -⟩ := List.append_eq_nil_iff.mp hnil
    rw [habsent] at hword
    cases hword
  · rw [encodeValue, encodeValue, List.append_assoc] at h
    obtain ⟨hword, rfl⟩ := Word.encode_append_inj h
    have hv := hshort _ rfl
    have hle : v.length ≤ (v ++ rest).length := (List.prefix_append v rest).length_le
    have hlt : v.length < Word.modulus :=
      Nat.lt_trans (Nat.lt_of_le_of_lt hle hv) (by decide)
    exact congrArg some
      ((List.prefix_append v rest).eq_of_length (Word.eq_of_mod_eq hlt hv hword))

/-- **No record begins with another one**, as long as its lengths can be written. -/
theorem eq_of_encode_prefix (hkey : other.key.length < Word.signBit)
    (hvalue : ∀ v ∈ other.value, v.length < Word.signBit) (h : encode entry <+: encode other) :
    entry = other := by
  have hle := h.length_le
  obtain ⟨rest, hrest⟩ := h
  obtain ⟨key, value⟩ := entry
  obtain ⟨key', value'⟩ := other
  have hshort : (value'.getD []).length < Word.signBit := by
    rcases value' with _ | v'
    · decide
    · exact hvalue v' rfl
  simp only [encode_eq, List.append_assoc] at hrest
  obtain ⟨hword, hparts⟩ := Word.encode_append_inj hrest
  have hlt : key.length < Word.modulus := by
    simp only [length_encode, size] at hle hkey
    unfold Word.signBit at hkey hshort
    unfold Word.modulus
    omega
  obtain ⟨rfl, hvalues⟩ := List.append_inj hparts (Word.eq_of_mod_eq hlt hkey hword)
  obtain rfl := eq_of_encodeValue_append hvalue hvalues
  rfl

/-! ## Reading and writing -/

/-- **What is read is what is written.**  Writing an entry gives its record and tells how many bytes
that are, its size.  An entry is read at an offset exactly if the rest of the file begins with its
record, and then the key reader tells its key.  No record is the beginning of another one, so none
is that of two entries. -/
theorem reads_what_is_written (hsize : image.size < Word.signBit) (offset : Nat) (entry : Entry) :
    write none [] entry = (encode entry, .ok (size entry)) ∧
      (∀ capacity written after count, write capacity written entry = (after, .ok count) →
        after = written ++ encode entry ∧ count = (encode entry).length ∧ count = size entry) ∧
      (decode image offset = .ok entry ↔ encode entry <+: image.toList.drop offset) ∧
      (decode image offset = .ok entry → decodeKey image offset = .ok entry.key) ∧
      ∀ other : Entry, other.key.length < Word.signBit →
        (∀ v ∈ other.value, v.length < Word.signBit) → encode entry <+: encode other →
          entry = other := by
  refine ⟨write_none [] entry, fun capacity written after count h => ?_, ?_, decodeKey_of_decode,
    fun other => eq_of_encode_prefix⟩
  · obtain ⟨hafter, hcount⟩ := eq_of_write_eq_ok h
    exact ⟨hafter, by rw [length_encode, hcount], hcount⟩
  · rw [decode_eq_ok_iff hsize, Image.at_iff_prefix_drop (encode_ne_nil entry)]

/-- The record of a tombstone between bytes of other things. -/
def strayImage : Image := ([255, 7] ++ encode ⟨[97], none⟩ ++ [0]).toArray

/-- The tombstone is found behind the two bytes, and it is not taken for an empty value. -/
theorem decode_strayImage :
    decode strayImage 2 = .ok ⟨[97], none⟩ ∧ decodeKey strayImage 2 = .ok [97] ∧
      decode strayImage 2 ≠ .ok ⟨[97], some []⟩ := by
  have hsize : strayImage.size < Word.signBit := by decide
  obtain ⟨-, -, hread, hkey, -⟩ := reads_what_is_written hsize 2 ⟨[97], none⟩
  obtain ⟨-, -, hother, -, -⟩ := reads_what_is_written hsize 2 ⟨[97], some []⟩
  have hfound := hread.mpr (by decide)
  exact ⟨hfound, hkey hfound, mt hother.mp (by decide)⟩

end Record

end LsmTree
