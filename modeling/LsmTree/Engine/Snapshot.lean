import LsmTree.Engine.Basic

/-!
# Engine/Snapshot — a view of an engine that lasts

A `Snapshot` is what a scan holds on to: the sealed memtables and segments of the moment it was
taken in, and which memtable was active then.  Later flushes, compactions and even the end of the
engine do not change it.  Only the memtable that was active may still grow, until it is sealed: a
snapshot finds it in the engine by counting the memtables that were retired before it.
-/

namespace LsmTree

/-- A view of an engine over an interval of keys. -/
structure Snapshot where
  /-- the number of memtables retired before the one that was active -/
  generation : Nat
  sealed : List Memtable
  segments : SegmentSet
  interval : Interval

namespace Snapshot

/-- The memtable that was active when the snapshot was taken, as it is now. -/
def activeIn (snapshot : Snapshot) (engine : Engine) : Memtable :=
  engine.retired[snapshot.generation]?.getD engine.active

/-- The sources that are merged, freshest first, where the memtable that was active has become the
given one. -/
def sourcesOver (snapshot : Snapshot) (active : Memtable) : List (List Item) :=
  ((active :: snapshot.sealed).map fun table =>
    (table.entriesIn snapshot.interval).map .ok) ++
  snapshot.segments.segments.map fun segment => segment.itemsIn snapshot.interval

/-- The sources that are merged, freshest first. -/
def sources (snapshot : Snapshot) (engine : Engine) : List (List Item) :=
  snapshot.sourcesOver (snapshot.activeIn engine)

/-- A stream of the live entries. -/
def stream (snapshot : Snapshot) (engine : Engine) : Live Merge :=
  ⟨Merge.ofSources (snapshot.sources engine)⟩

/-- The live entries in key order. -/
def items (snapshot : Snapshot) (engine : Engine) : List Item :=
  ItemStream.drain (snapshot.stream engine)

end Snapshot

namespace Engine

/-- A view of the engine as it is now; a closed engine has none. -/
def snapshot (engine : Engine) (interval : Interval) : Except Error Snapshot :=
  if engine.closed then .error .closed
  else .ok ⟨engine.retired.size, engine.sealed, engine.segments, interval⟩

end Engine

end LsmTree
