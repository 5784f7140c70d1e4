import LsmTree.Engine.Snapshot

/-!
# Engine/Reader — a view read one item at a time

An iterator over a view reads nothing before it is asked for its first item; then it reads the first
entry of every source.  The sealed memtables and the segments stay as they are, but the memtable that
was active may be written to between two steps.  Of it an iterator has read the entries up to the one
at the head of its merge, and goes on with what is behind that key at the time.  Once an iterator has
found the end it stays there.
-/

namespace LsmTree

/-- An iterator over a view. -/
structure Reader where
  snapshot : Snapshot
  /-- the heads of the sources, once the first item was asked for -/
  merge : Option Merge := none

namespace Reader

/-- What the memtable that was active, and has become the given one, has behind a key. -/
def behind (reader : Reader) (active : Memtable) (key : Bytes) : List Item :=
  (active.entriesBehind reader.snapshot.interval key).map .ok

/-- A stream of what is still to be read, as things are now. -/
def stream (reader : Reader) (active : Memtable) : Live Merge :=
  match reader.merge with
  | none => ⟨.ofSources (reader.snapshot.sourcesOver active)⟩
  | some merge => ⟨merge.refresh (reader.behind active)⟩

/-- The next item, if there is one. -/
def next (reader : Reader) (active : Memtable) : Option Item × Reader :=
  match ItemStream.next? (reader.stream active) with
  | none => (none, { reader with merge := some {} })
  | some (item, rest) => (some item, { reader with merge := some rest.inner })

/-- At most `n` items, with nothing written in between. -/
def take (active : Memtable) : Nat → Reader → List Item × Reader
  | 0, reader => ([], reader)
  | n + 1, reader =>
    match reader.next active with
    | (none, reader) => ([], reader)
    | (some item, reader) =>
      let rest := take active n reader
      (item :: rest.1, rest.2)

end Reader

end LsmTree
