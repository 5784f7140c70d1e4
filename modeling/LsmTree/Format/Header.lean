import LsmTree.Error
import LsmTree.Format.Image

/-!
# Format/Header — how a segment file begins

A segment file begins with its format version and its number of entries, both eight bytes; an index
with one eight-byte slot for each entry follows, and then the records.  `Header.decode` checks that
the index the header announces fits into the file.
-/

namespace LsmTree

/-- The versions of the segment format. -/
inductive Version where
  /-- the first version -/
  | v0
  deriving DecidableEq

namespace Version

/-- The number that stands for a version in a file. -/
def toRaw : Version → UInt64
  | v0 => 0

/-- The version a number stands for. -/
def ofRaw (raw : UInt64) : Except Error Version :=
  if raw = 0 then .ok v0 else .error (.invalidVersion raw)

/-- The name of a version. -/
def name : Version → String
  | v0 => "V0"

/-- **A number stands for a version exactly if that version is written as this number.** -/
theorem ofRaw_eq_ok_iff (raw : UInt64) (version : Version) :
    ofRaw raw = .ok version ↔ raw = version.toRaw := by
  cases version
  unfold ofRaw toRaw
  split <;> simp_all

end Version

/-- What the first bytes of a segment file say. -/
structure Header where
  version : Version
  count : Nat
  deriving DecidableEq

namespace Header

/-- The bytes of a header: two integers. -/
def size : Nat := 2 * Word.size

/-- Where the records begin in a file of so many entries: after the header and the index. -/
def indexEnd (count : Nat) : Nat := size + Word.size * count

/-- The two integers of a header, as they are written one after the other. -/
def fields (header : Header) : List Bytes :=
  [Word.encode header.version.toRaw.toNat, Word.encode header.count]

/-- The bytes of a header. -/
def encode (header : Header) : Bytes := header.fields.flatten

/-- Reads the header of a file, and refuses one whose index runs past the end of the file. -/
def decode (image : Image) : Except Error Header :=
  match image.word? 0, image.int? Word.size with
  | some rawVersion, some rawCount => do
    let version ← Version.ofRaw (UInt64.ofNat rawVersion)
    if 0 ≤ rawCount ∧ indexEnd rawCount.toNat ≤ image.size then
      return ⟨version, rawCount.toNat⟩
    else throw (.corrupt (.invalidEntryCount rawCount))
  | _, _ => .error (.corrupt .truncatedHeader)

/-- **A header is accepted exactly if its version is zero and its count is that of an index in the
file.** -/
theorem decode_eq_ok_iff {image : Image} {header : Header} :
    decode image = .ok header ↔ image.int? 0 = some 0 ∧
      image.int? Word.size = some (header.count : Int) ∧ indexEnd header.count ≤ image.size := by
  obtain ⟨⟨⟩, count⟩ := header
  unfold decode
  cases hversion : image.word? 0 with
  | none => simp [Image.int?, hversion]
  | some raw =>
    cases image.int? Word.size with
    | none => simp
    | some rawCount =>
      have hzero : UInt64.ofNat raw = 0 ↔ image.int? 0 = some 0 := by
        have hlt := Image.word?_lt hversion
        rw [Image.int?, hversion, Option.map_some, Option.some_inj, Word.signed_eq_zero_iff hlt,
          ← UInt64.toNat_inj, UInt64.toNat_ofNat_of_lt' hlt]
        rfl
      dsimp only
      rw [bind_eq_ok_iff]
      constructor
      · rintro ⟨⟨⟩, hraw, hheader⟩
        have hfirst := hzero.mp ((Version.ofRaw_eq_ok_iff _ _).mp hraw)
        split at hheader
        · rename_i hcount
          cases hheader
          exact ⟨hfirst, by rw [Int.toNat_of_nonneg hcount.1], hcount.2⟩
        · cases hheader
      · rintro ⟨hfirst, hsecond, hfits⟩
        obtain rfl := Option.some.inj hsecond
        refine ⟨.v0, if_pos (hzero.mpr hfirst), ?_⟩
        rw [Int.toNat_natCast, if_pos ⟨Int.natCast_nonneg _, hfits⟩]
        rfl

end Header

end LsmTree
