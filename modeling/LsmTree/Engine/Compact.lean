import LsmTree.Engine.Basic

/-!
# Engine/Compact — merging the segments of an engine
-/

namespace LsmTree.Engine

/-- Merges the segments into one, whatever the policy says; a closed engine is left alone. -/
def mergeSegments (engine : Engine) (fs : FileSystem) : Outcome Engine Unit :=
  if engine.closed then (.ok (), engine, fs)
  else
    match engine.store.compact engine.segments fs with
    | (.error e, store, fs) => (.error e, { engine with store }, fs)
    | (.ok none, store, fs) => (.ok (), { engine with store }, fs)
    | (.ok (some done), store, fs) =>
      let segments := engine.segments.replace done.inputs done.output
      (.ok (), { engine with store, segments }, fs)

/-- The policy allows a compaction now. -/
def compactionAllowed (engine : Engine) : Bool :=
  engine.settings.policy = .always || !engine.freshlyCompacted

/-- Starts a compaction, unless the policy forbids it, there are fewer than two segments or one is
running.  The result is kept for `awaitCompaction`, and that of the compaction before is forgotten.
A compaction that fails does not count as one. -/
def compact (engine : Engine) (fs : FileSystem) : Outcome Engine Unit :=
  if engine.closed then (.error .closed, engine, fs)
  else if !engine.compactionAllowed || engine.countSegments < 2 || engine.compacting then
    (.ok (), engine, fs)
  else
    let (result, engine, fs) := engine.mergeSegments fs
    (.ok (),
      { engine with freshlyCompacted := result.isOk, compactionResult := some result }, fs)

/-- Waits for the compaction that was started last: its result, which is told once. -/
def awaitCompaction (engine : Engine) : Except Error Unit × Engine :=
  (engine.compactionResult.getD (.ok ()), { engine with compactionResult := none })

end LsmTree.Engine
