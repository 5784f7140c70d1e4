import LsmTree.Engine.Close
import LsmTree.Engine.Compact
import LsmTree.Engine.Read
import LsmTree.Engine.Write

/-!
# Engine/Request — what an engine is asked, and what it answers

A `Request` is one call of an engine's operations, so that the history of an engine is a list of
requests.  `Engine.answer` carries a request out.
-/

namespace LsmTree

/-- The switches of an engine that can be set by hand. -/
inductive EngineFlag where
  | flushing
  | compacting
  | closed
  deriving DecidableEq

/-- One call of an operation. -/
inductive Request where
  /-- writes an entry -/
  | put (entry : Entry)
  /-- writes entries up to the first that fails -/
  | putAll (entries : List Entry)
  /-- looks a key up -/
  | lookup (key : Bytes)
  /-- asks whether a key has a live entry -/
  | contains (key : Bytes)
  /-- counts the live entries -/
  | count
  /-- asks whether there is no live entry -/
  | isEmpty
  /-- scans everything -/
  | items
  /-- scans between two bounds -/
  | range (start stop : Bound)
  /-- starts a flush -/
  | flush
  /-- asks how the last flush ended -/
  | awaitFlush
  /-- starts a compaction -/
  | compact
  /-- asks how the last compaction ended -/
  | awaitCompaction
  /-- merges the segments, whatever the policy says -/
  | mergeSegments
  /-- closes the engine -/
  | close
  /-- counts the segments -/
  | countSegments
  /-- reads every segment, newest first -/
  | segments
  /-- sets a switch by hand -/
  | force (flag : EngineFlag) (on : Bool)

/-- What a call answers. -/
inductive Reply where
  /-- the operation is done and has nothing to tell -/
  | done
  /-- the operation failed -/
  | failed (error : Error)
  /-- the entry that was looked for -/
  | entry (found : Option Entry)
  /-- yes or no -/
  | truth (value : Bool)
  /-- a number -/
  | number (value : Nat)
  /-- what a scan yields -/
  | items (items : List Item)
  /-- what the scans of several segments yield -/
  | scans (scans : List (List Item))

namespace Reply

/-- The reply that tells a result. -/
def ofExcept {α : Type} (tell : α → Reply) : Except Error α → Reply
  | .ok a => tell a
  | .error e => failed e

/-- The reply to an operation that tells nothing but whether it went well. -/
def ofOutcome : Except Error Unit → Reply := ofExcept fun () => done

end Reply

namespace Engine

/-- The engine with a switch set by hand. -/
def force (engine : Engine) (on : Bool) : EngineFlag → Engine
  | .flushing => { engine with flushing := on }
  | .compacting => { engine with compacting := on }
  | .closed => { engine with closed := on }

/-- Tells the outcome of an operation that changes the engine and the files. -/
def tell (outcome : Outcome Engine Unit) : Reply × Engine × FileSystem :=
  (.ofOutcome outcome.1, outcome.2)

/-- Carries a request out. -/
def answer (engine : Engine) (fs : FileSystem) : Request → Reply × Engine × FileSystem
  | .put entry => tell (engine.put entry fs)
  | .putAll entries =>
    let (result, engine, fs) := engine.putAll fs entries
    (.ofExcept (fun () => .number entries.length) result, engine, fs)
  | .lookup key => (.ofExcept .entry (engine.lookup key), engine, fs)
  | .contains key => (.ofExcept .truth (engine.contains key), engine, fs)
  | .count => (.ofExcept .number engine.count, engine, fs)
  | .isEmpty => (.ofExcept .truth engine.isEmpty, engine, fs)
  | .items => (.ofExcept .items engine.items, engine, fs)
  | .range start stop => (.ofExcept .items (engine.range start stop), engine, fs)
  | .flush => tell (engine.flush fs)
  | .awaitFlush =>
    let (result, engine) := engine.awaitFlush
    (.ofOutcome result, engine, fs)
  | .compact => tell (engine.compact fs)
  | .awaitCompaction =>
    let (result, engine) := engine.awaitCompaction
    (.ofOutcome result, engine, fs)
  | .mergeSegments => tell (engine.mergeSegments fs)
  | .close => tell (engine.close fs)
  | .countSegments => (.number engine.countSegments, engine, fs)
  | .segments => (.scans (engine.segments.segments.map Segment.items), engine, fs)
  | .force flag on => (.done, engine.force on flag, fs)

end Engine

end LsmTree
