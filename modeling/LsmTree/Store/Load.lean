import LsmTree.FileSystem.Tree
import LsmTree.Store.Basic

/-!
# Store/Load — opening a folder of segments

`Store.load` makes sure that the folder is there, removes what interrupted writes left behind, and
opens the finished segments, newest first.  Only regular files with a name of the store count;
everything else in the folder is left alone.
-/

namespace LsmTree.Store

/-- The names of the unfinished segments among the regular files of a folder. -/
def unfinishedNames (children : List (String × Node)) : List String :=
  children.filterMap fun (name, node) =>
    match node.isFile, StoreFile.ofName? name with
    | true, some (.unfinished _) => some name
    | _, _ => none

/-- The priorities of the finished segments among the regular files of a folder. -/
def segmentPriorities (children : List (String × Node)) : List Priority :=
  children.filterMap fun (name, node) =>
    match node.isFile, StoreFile.ofName? name with
    | true, some (.segment priority) => some priority
    | _, _ => none

/-- Opens the segments of the given priorities, in this order, up to the first that fails. -/
def loadAll (fs : FileSystem) (folder : Path) :
    List Priority → Except Error (List Segment)
  | [] => .ok []
  | priority :: rest => do
    let segment ← Segment.load fs ((StoreFile.segment priority).path folder) priority
    let older ← loadAll fs folder rest
    return segment :: older

/-- Opens the segments of a folder whose leftovers are gone. -/
def loadSegments (fs : FileSystem) (folder : Path) (priorities : List Priority) :
    Except Error (Store × SegmentSet) := do
  let segments ← loadAll fs folder (Priority.newestFirst id priorities)
  let set := SegmentSet.ofList segments
  let counter ← Counter.after set.newestPriority?
  return (⟨folder, counter⟩, set)

/-- Opens a store whose folder has the given entries, in the order in which they are listed.
Leftovers are removed before any segment is opened, so they are gone even if a segment turns out to
be damaged. -/
def loadListed (folder : Path) (children : List (String × Node)) (fs : FileSystem) :
    Except Error (Store × SegmentSet) × FileSystem :=
  match fs.perform ((unfinishedNames children).map fun name => .remove (folder ++ [name])) with
  | (.error cause, fs) => (.error (.io cause), fs)
  | (.ok (), fs) => (loadSegments fs folder (segmentPriorities children), fs)

/-- Opens a store, and creates its folder if there is none. -/
def load (folder : Path) (fs : FileSystem) : Except Error (Store × SegmentSet) × FileSystem :=
  match fs.makeDirectories folder with
  | (.error cause, fs) => (.error (.io cause), fs)
  | (.ok (), fs) =>
    match fs.list folder with
    | .error cause => (.error (.io cause), fs)
    | .ok children => loadListed folder children fs

end LsmTree.Store
