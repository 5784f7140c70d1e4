import LsmTree.FileSystem.Step
import LsmTree.Segment.Encode
import LsmTree.SegmentSet
import LsmTree.Store.FileName

/-!
# Store/Basic — a folder of segments

A `Store` owns the segment files of a folder.  It knows where the folder is and which priority the
next segment gets; the segments themselves are in a `SegmentSet`.  Opening a store is in
`Store/Load`, adding segments in `Store/Save`, merging segments in `Store/Compact`.
-/

namespace LsmTree

/-- What an operation tells, and the state and the files it leaves behind.  An operation that fails
may have changed both. -/
abbrev Outcome (σ α : Type) : Type := Except Error α × σ × FileSystem

/-- The keeper of a folder of segments. -/
structure Store where
  folder : Path
  counter : Counter
  deriving DecidableEq

namespace Store

/-- Where a file of the store is kept. -/
def pathOf (store : Store) (file : StoreFile) : Path := file.path store.folder

/-- The store once the next priority is taken. -/
def advance (store : Store) : Store := { store with counter := store.counter.advance }

end Store

end LsmTree
