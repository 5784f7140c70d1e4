import LsmTree.Format.Word

/-!
# Format/Image — the content of a file

An `Image` is the whole content of a file, held in an array so that a reader can jump to any
offset.  Both reads are exact: `Image.slice?` gives the bytes at an offset if all of them lie in the
file (`Image.slice?_eq_some_iff`), and `Image.word?` the integer there.
-/

namespace LsmTree

/-- The content of a file. -/
abbrev Image := Array UInt8

namespace Image

/-- The `length` bytes from `pos` on, if the file holds all of them. -/
def slice? (image : Image) (pos length : Nat) : Option Bytes :=
  if pos + length ≤ image.size then some (image.extract pos (pos + length)).toList else none

/-- The unsigned integer in the eight bytes from `pos` on. -/
def word? (image : Image) (pos : Nat) : Option Nat := (image.slice? pos Word.size).map Word.decode

/-- The signed integer in the eight bytes from `pos` on. -/
def int? (image : Image) (pos : Nat) : Option Int := (image.word? pos).map Word.signed

/-- **A slice is the part of the file between what precedes it and what follows it.** -/
theorem slice?_eq_some_iff {image : Image} {pos length : Nat} {bytes : Bytes} :
    image.slice? pos length = some bytes ↔
      ∃ before after, image.toList = before ++ bytes ++ after ∧
        before.length = pos ∧ bytes.length = length := by
  unfold slice?
  constructor
  · intro h
    split at h
    · rename_i hle
      obtain rfl := Option.some.inj h
      refine ⟨image.toList.take pos, image.toList.drop (pos + length), ?_, ?_, ?_⟩
      · rw [Array.toList_extract, List.extract_eq_take_drop, Nat.add_sub_cancel_left]
        rw [← List.drop_drop, List.append_assoc, List.take_append_drop, List.take_append_drop]
      · simp only [List.length_take, Array.length_toList]
        omega
      · simp only [Array.length_toList, Array.size_extract]
        omega
    · cases h
  · rintro ⟨before, after, himage, rfl, rfl⟩
    have hsize : image.size = before.length + bytes.length + after.length := by
      rw [← Array.length_toList, himage]
      simp [Nat.add_assoc]
    rw [if_pos (by omega), Array.toList_extract, himage, List.extract_eq_take_drop,
      Nat.add_sub_cancel_left]
    simp

theorem slice?_eq_none_iff {image : Image} {pos length : Nat} :
    image.slice? pos length = none ↔ image.size < pos + length := by
  unfold slice?
  split <;> simp <;> omega

theorem end_le_of_slice? {image : Image} {pos length : Nat} {bytes : Bytes}
    (h : image.slice? pos length = some bytes) : pos + length ≤ image.size :=
  Nat.le_of_not_lt fun hlt => by cases h.symm.trans (slice?_eq_none_iff.mpr hlt)

theorem word?_lt {image : Image} {pos n : Nat} (h : image.word? pos = some n) :
    n < Word.modulus := by
  obtain ⟨bytes, hslice, rfl⟩ := Option.map_eq_some_iff.mp h
  obtain ⟨_, _, _, _, hlen⟩ := slice?_eq_some_iff.mp hslice
  exact Word.decode_lt hlen

theorem word?_eq_none_iff {image : Image} {pos : Nat} :
    image.word? pos = none ↔ image.size < pos + 8 := by
  rw [word?, Option.map_eq_none_iff, slice?_eq_none_iff, Word.size]

theorem end_le_of_word? {image : Image} {pos n : Nat} (h : image.word? pos = some n) :
    pos + Word.size ≤ image.size :=
  Nat.le_of_not_lt fun hlt => by cases h.symm.trans (word?_eq_none_iff.mpr hlt)

end Image

end LsmTree
