import LsmTree.Engine.Settings
import LsmTree.Store.Compact
import LsmTree.Store.Load

/-!
# Engine/Basic — the state of an engine

An engine keeps its newest entries in the **active** memtable.  When that is full it is **sealed**
and waits to be written as a segment.  A key's entry is the one in the active memtable, else in the
newest sealed memtable that has it, else in the newest segment that has it.

Flushes and compactions are background work.  Here each is done in one piece when it is started, and
its result is kept until somebody waits for it or the next one starts.
-/

namespace LsmTree

/-- An engine. -/
structure Engine where
  settings : Settings
  store : Store
  /-- the memtable that is written to -/
  active : Memtable := {}
  /-- the memtables that wait to be written, newest first -/
  sealed : List Memtable := []
  segments : SegmentSet := {}
  /-- every memtable that was active once, as it was when it ceased to be, oldest first -/
  retired : Array Memtable := #[]
  /-- a flush is running -/
  flushing : Bool := false
  /-- a compaction is running -/
  compacting : Bool := false
  /-- a compaction was started after the last flush -/
  freshlyCompacted : Bool := false
  closed : Bool := false
  /-- how the last flush ended, if nobody has asked -/
  flushResult : Option (Except Error Unit) := none
  /-- how the last compaction ended, if nobody has asked -/
  compactionResult : Option (Except Error Unit) := none

namespace Engine

/-- Opens an engine on the folder of a configuration. -/
def load (settings : Settings) (fs : FileSystem) : Except Error Engine × FileSystem :=
  match settings.folder with
  | .error cause => (.error (.io cause), fs)
  | .ok folder =>
    match Store.load folder fs with
    | (.error e, fs) => (.error e, fs)
    | (.ok (store, segments), fs) => (.ok { settings, store, segments }, fs)

/-- Replaces the active memtable by an empty one. -/
def retireActive (engine : Engine) : Engine :=
  { engine with active := {}, retired := engine.retired.push engine.active }

/-- Seals the active memtable. -/
def rotate (engine : Engine) : Engine :=
  { engine.retireActive with sealed := engine.active :: engine.sealed }

/-- The memtables, newest first. -/
def memtables (engine : Engine) : List Memtable := engine.active :: engine.sealed

/-- The number of segments. -/
def countSegments (engine : Engine) : Nat := engine.segments.size

/-- The entry of a key in the first memtable that has it, a tombstone included. -/
def lookupIn (key : Bytes) : List Memtable → Option Entry
  | [] => none
  | table :: older => (table.lookup key).or (lookupIn key older)

end Engine

end LsmTree
