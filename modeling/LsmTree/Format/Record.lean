import LsmTree.Entry
import LsmTree.Format.Buffer
import LsmTree.Format.Header

/-!
# Format/Record — how entries lie in a segment file

An index slot holds the offset of an entry's record.  A record is the length of the key, the key,
the length of the value and the value; a tombstone has `-1` in place of the value's length and no
value.  The readers here check every offset and length against the end of the file, and say in
the error which number was wrong.
-/

namespace LsmTree

/-! ## Index slots -/

namespace IndexSlot

/-- The bytes of an index slot that points to `offset`. -/
def encode (offset : Nat) : Bytes := Word.encode offset

/-- The offset in slot `pos` of the index.  It has to lie in the file, behind the header. -/
def decode (image : Image) (pos : Nat) : Except Error Nat :=
  match image.int? (Header.size + pos * Word.size) with
  | none => .error (.corrupt (.invalidOffset (-1)))
  | some raw =>
    if Header.size ≤ raw ∧ raw < image.size then .ok raw.toNat
    else .error (.corrupt (.invalidOffset raw))

end IndexSlot

/-! ## Records -/

namespace Record

/-- Stands in the place of the value's length in the record of a tombstone. -/
def absentValue : Int := -1

/-- The fields of a record, as they are written one after the other. -/
def fields (entry : Entry) : List Bytes :=
  Word.encode entry.key.length :: entry.key ::
    match entry.value with
    | none => [Word.encode (Word.unsigned absentValue)]
    | some value => [Word.encode value.length, value]

/-- The bytes of a record. -/
def encode (entry : Entry) : Bytes := (fields entry).flatten

/-- The number of bytes in the record of an entry. -/
def size (entry : Entry) : Nat :=
  Word.size + entry.key.length + Word.size + (entry.value.getD []).length

/-- **The size of a record is the number of bytes it is written as.** -/
@[simp] theorem length_encode (entry : Entry) : (encode entry).length = size entry := by
  obtain ⟨key, _ | value⟩ := entry <;> simp [encode, fields, size, Word.size] <;> omega

/-- Writes the record of an entry into a buffer, and tells how many bytes it takes. -/
def write (capacity : Option Nat) (written : Bytes) (entry : Entry) : Bytes × Except IoError Nat :=
  let (written, outcome) := Buffer.putAll capacity written (fields entry)
  (written, (fun _ => size entry) <$> outcome)

/-- Without a limit the whole record is written. -/
theorem write_none (written : Bytes) (entry : Entry) :
    write none written entry = (written ++ encode entry, .ok (size entry)) := by
  rw [write, Buffer.putAll_none]
  rfl

/-- **A record that was written is there as a whole**, and its size is told. -/
theorem eq_of_write_eq_ok {capacity : Option Nat} {written after : Bytes} {entry : Entry}
    {count : Nat} (h : write capacity written entry = (after, .ok count)) :
    after = written ++ encode entry ∧ count = size entry := by
  obtain ⟨hafter, hcount⟩ := Prod.mk.inj h
  obtain ⟨⟨⟩, houtcome, hsize⟩ := map_eq_ok_iff.mp hcount
  exact ⟨hafter ▸ Buffer.eq_of_putAll_eq_ok (Prod.ext rfl houtcome), hsize.symm⟩

/-- The key of the record at `offset`, and the offset of what follows the key. -/
def keyField (image : Image) (offset : Nat) : Except Error (Bytes × Nat) :=
  match image.int? offset with
  | none => .error (.corrupt (.invalidOffset (Word.signed offset)))
  | some raw =>
    if 0 ≤ raw then
      match image.slice? (offset + Word.size) raw.toNat with
      | some key => .ok (key, offset + Word.size + raw.toNat)
      | none => .error (.corrupt (.invalidKeyLength raw))
    else .error (.corrupt (.invalidKeyLength raw))

/-- The value part of a record that begins at `pos`. -/
def valueField (image : Image) (pos : Nat) : Except Error (Option Bytes) :=
  match image.int? pos with
  | none => .error (.corrupt (.invalidValueLength (Word.signed pos)))
  | some raw =>
    if raw = absentValue then .ok none
    else if 0 ≤ raw then
      match image.slice? (pos + Word.size) raw.toNat with
      | some value => .ok (some value)
      | none => .error (.corrupt (.invalidValueLength raw))
    else .error (.corrupt (.invalidValueLength raw))

/-- The key of the record at `offset`; what follows the key is not looked at. -/
def decodeKey (image : Image) (offset : Nat) : Except Error Bytes :=
  (·.1) <$> keyField image offset

/-- The entry whose record begins at `offset`. -/
def decode (image : Image) (offset : Nat) : Except Error Entry := do
  let (key, rest) ← keyField image offset
  let value ← valueField image rest
  return ⟨key, value⟩

/-- **The key reader and the full reader agree** on every record that decodes. -/
theorem decodeKey_of_decode {image : Image} {offset : Nat} {entry : Entry}
    (h : decode image offset = .ok entry) : decodeKey image offset = .ok entry.key := by
  obtain ⟨field, hkey, hrest⟩ := bind_eq_ok_iff.mp h
  obtain ⟨value, -, hentry⟩ := bind_eq_ok_iff.mp hrest
  exact map_eq_ok_iff.mpr ⟨field, hkey, by rw [← Except.ok.inj hentry]⟩

end Record

end LsmTree
