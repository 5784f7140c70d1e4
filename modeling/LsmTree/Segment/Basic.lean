import LsmTree.FileSystem.Walk
import LsmTree.Format.Record
import LsmTree.Priority

/-!
# Segment/Basic — a sorted table in a file

A segment is a file that holds entries in ascending key order, written once and never changed.  An
open segment keeps the content of its file at hand, so it can be read even after the file is gone.
Only a file whose header can be read becomes a segment, and the type says so (`Segment.readable`).
-/

namespace LsmTree

/-- An open segment. -/
structure Segment where
  priority : Priority
  /-- where the file was when the segment was opened -/
  path : Path
  image : Image
  header : Header
  readable : Header.decode image = .ok header

namespace Segment

/-- The number of entries. -/
def size (segment : Segment) : Nat := segment.header.count

/-- The size of the file in bytes. -/
def byteSize (segment : Segment) : Nat := segment.image.size

/-- The name of the segment's file. -/
def fileName (segment : Segment) : String := segment.path.getLast?.getD ""

/-- What a segment is called in a text. -/
def text (segment : Segment) : String := s!"Segment:{segment.priority.toNat}"

/-- The segment that a file's content makes up. -/
def ofImage (priority : Priority) (path : Path) (image : Image) : Except Error Segment :=
  match h : Header.decode image with
  | .ok header => .ok ⟨priority, path, image, header, h⟩
  | .error e => .error e

/-- Opens the segment in a file. -/
def load (fs : FileSystem) (path : Path) (priority : Priority) : Except Error Segment :=
  match fs.map path with
  | .ok image => ofImage priority path image
  | .error cause => .error (.io cause)

/-- The entry in slot `pos` of the index; tombstones are entries. -/
def readEntry (segment : Segment) (pos : Nat) : Except Error Entry := do
  let offset ← IndexSlot.decode segment.image pos
  Record.decode segment.image offset

/-- The key in slot `pos` of the index. -/
def readKey (segment : Segment) (pos : Nat) : Except Error Bytes := do
  let offset ← IndexSlot.decode segment.image pos
  Record.decodeKey segment.image offset

theorem ofImage_eq_ok_iff {priority : Priority} {path : Path} {image : Image} {s : Segment} :
    ofImage priority path image = .ok s ↔
      s.priority = priority ∧ s.path = path ∧ s.image = image := by
  obtain ⟨priority', path', image', header', readable'⟩ := s
  unfold ofImage
  constructor
  · intro h
    split at h
    · cases h
      exact ⟨rfl, rfl, rfl⟩
    · cases h
  · rintro ⟨rfl, rfl, rfl⟩
    split
    · rename_i header hdecode
      obtain rfl : header = header' := Except.ok.inj (hdecode.symm.trans readable')
      rfl
    · rename_i e hdecode
      cases hdecode.symm.trans readable'

/-- The index of a segment lies within its file. -/
theorem indexEnd_le_byteSize (segment : Segment) :
    Header.indexEnd segment.size ≤ segment.byteSize :=
  (Header.decode_eq_ok_iff.mp segment.readable).2.2

end Segment

end LsmTree
