import LsmTree.Bytes

/-!
# Entry — one key with its value or its tombstone

The store keeps entries: a key with either a value or, where the key was deleted, a **tombstone**,
which shadows every older value of that key.  An empty value is a value.
-/

namespace LsmTree

/-- A key and what was last written under it; `none` is a tombstone. -/
structure Entry where
  key : Bytes
  value : Option Bytes
  deriving DecidableEq

namespace Entry

/-- The entry that records the deletion of a key. -/
def tombstone (key : Bytes) : Entry := ⟨key, none⟩

/-- The entry records a deletion. -/
def isTombstone (entry : Entry) : Bool := entry.value.isNone

/-- The bytes of user data in an entry; a tombstone counts its key only. -/
def byteSize (entry : Entry) : Nat := entry.key.length + (entry.value.getD []).length

@[simp] theorem byteSize_tombstone (key : Bytes) : (tombstone key).byteSize = key.length := rfl

/-- What a reader sees of an entry: nothing of a tombstone. -/
def live? (entry : Entry) : Option Entry := if entry.isTombstone then none else some entry

/-! ## Text -/

/-- The bytes as a list of decimal numbers, `[97, 98]`. -/
def bytesText (bytes : Bytes) : String :=
  "[" ++ ", ".intercalate (bytes.map fun b => toString b.toNat) ++ "]"

/-- An entry as a line of text: `[97] => [49]`, and `[97] => <tombstone>` for a deletion. -/
def text (entry : Entry) : String :=
  bytesText entry.key ++ " => " ++ (entry.value.map bytesText).getD "<tombstone>"

end Entry

end LsmTree
