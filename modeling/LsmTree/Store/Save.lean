import LsmTree.Memtable
import LsmTree.Store.Basic

/-!
# Store/Save — writing new segments

`Store.save` writes entries under the next priority: first into an unfinished file, which then gets
the segment's name, so a finished segment is always whole.  The priority is used up even if the
write fails.  `Store.flushAll` writes memtables one after the other, oldest first, and stops at the
first that fails.

A file has fewer than `Word.signBit` bytes, so every length and offset in it is a signed integer
that is not negative (`FileSystem.writeSegment`).
-/

namespace LsmTree

/-- Removes a file if that is possible. -/
def FileSystem.discard (fs : FileSystem) (path : Path) : FileSystem :=
  match fs.remove path with
  | .ok fs => fs
  | .error _ => fs

/-- Writes the file of a segment and tells its length.  It is created before it is given its length,
and a length that no file can have is refused only then. -/
def FileSystem.writeSegment (fs : FileSystem) (path : Path) (entries : List Entry) :
    Except IoError Nat × FileSystem :=
  if Segment.encodedSize entries < Word.signBit then
    match fs.perform [.write path (Segment.encode entries)] with
    | (.error cause, fs) => (.error cause, fs)
    | (.ok (), fs) => (.ok (Segment.encodedSize entries), fs)
  else
    match fs.perform [.write path #[]] with
    | (.error cause, fs) => (.error cause, fs)
    | (.ok (), fs) => (.error .invalidInput, fs)

namespace Store

/-- Writes entries, which are in ascending key order, as the newest segment; no entries make no
segment.  A failed write is cleaned up. -/
def save (store : Store) (entries : List Entry) (fs : FileSystem) :
    Outcome Store (Option Segment) :=
  if entries.isEmpty then (.ok none, store, fs)
  else
    let priority := store.counter.next
    let unfinished := store.pathOf (.unfinished priority)
    let finished := store.pathOf (.segment priority)
    match fs.writeSegment unfinished entries with
    | (.error cause, fs) => (.error (.io cause), store.advance, fs.discard unfinished)
    | (.ok _, fs) =>
      match fs.rename unfinished finished with
      | .error cause => (.error (.io cause), store.advance, fs)
      | .ok fs => (some <$> Segment.load fs finished priority, store.advance, fs)

/-- Writes a memtable as the newest segment.  Its tombstones are kept, since they still shadow older
segments. -/
def flush (store : Store) (table : Memtable) (fs : FileSystem) : Outcome Store (Option Segment) :=
  store.save table.entries fs

/-- How far the writing of several memtables came. -/
structure Flushed where
  /-- why it stopped, if it did not come to the end -/
  result : Except Error Unit
  /-- the new segments, oldest first -/
  written : List Segment
  /-- the memtables that are not written, oldest first -/
  unwritten : List Memtable
  store : Store
  files : FileSystem

/-- Writes memtables in order, which is oldest first, up to the first that fails. -/
def flushAll (store : Store) (fs : FileSystem) : List Memtable → Flushed
  | [] => ⟨.ok (), [], [], store, fs⟩
  | table :: newer =>
    match store.flush table fs with
    | (.error e, store, fs) => ⟨.error e, [], table :: newer, store, fs⟩
    | (.ok segment, store, fs) =>
      let rest := flushAll store fs newer
      { rest with written := segment.toList ++ rest.written }

end Store

end LsmTree
