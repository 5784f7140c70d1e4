import LsmTree.Segment.Basic

/-!
# Segment/Encode — the file that holds given entries

`Segment.encode` lays entries out as a segment file: the header, one index slot for each entry with
the offset of its record, and the records in the same order.  The entries are meant to be in
strictly ascending key order.
-/

namespace LsmTree.Segment

/-- The offsets of the records of entries whose first record begins at `start`. -/
def offsets (start : Nat) : List Entry → List Nat
  | [] => []
  | entry :: rest => start :: offsets (start + Record.size entry) rest

/-- The index of a file that holds the entries. -/
def encodeIndex (entries : List Entry) : Bytes :=
  (offsets (Header.indexEnd entries.length) entries).flatMap IndexSlot.encode

/-- The file that holds the entries. -/
def encode (entries : List Entry) : Image :=
  (Header.encode ⟨.v0, entries.length⟩ ++ encodeIndex entries ++
    entries.flatMap Record.encode).toArray

/-- The number of bytes in the records of the entries. -/
def recordsSize : List Entry → Nat
  | [] => 0
  | entry :: rest => Record.size entry + recordsSize rest

/-- The number of bytes in the file that holds the entries. -/
def encodedSize (entries : List Entry) : Nat :=
  Header.indexEnd entries.length + recordsSize entries

@[simp] theorem length_offsets (start : Nat) (entries : List Entry) :
    (offsets start entries).length = entries.length := by
  induction entries generalizing start with
  | nil => rfl
  | cons entry rest ih => simp [offsets, ih]

theorem length_flatMap_slot (positions : List Nat) :
    (positions.flatMap IndexSlot.encode).length = 8 * positions.length := by
  induction positions with
  | nil => rfl
  | cons p rest ih =>
    simp only [List.flatMap_cons, List.length_append, ih, IndexSlot.encode, Word.length_encode,
      List.length_cons]
    omega

theorem length_flatMap_record (entries : List Entry) :
    (entries.flatMap Record.encode).length = recordsSize entries := by
  induction entries with
  | nil => rfl
  | cons entry rest ih => simp [recordsSize, ih]

/-- **A segment file is as long as its parts add up to.** -/
theorem size_encode (entries : List Entry) : (encode entries).size = encodedSize entries := by
  simp only [encode, encodedSize, encodeIndex, Header.encode, Header.fields, Header.indexEnd,
    Header.size, Word.size, List.size_toArray, List.length_append, length_flatMap_slot,
    length_flatMap_record, length_offsets, List.flatten_cons, List.flatten_nil, List.length_nil,
    Word.length_encode]

end LsmTree.Segment
