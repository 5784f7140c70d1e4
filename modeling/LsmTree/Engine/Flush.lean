import LsmTree.Engine.Basic

/-!
# Engine/Flush — from memory to segments

A flush seals the active memtable and writes the sealed ones, oldest first, each as a segment.  It
stops at the first that cannot be written; that one and those behind it stay sealed for the next
flush.
-/

namespace LsmTree.Engine

/-- Writes the sealed memtables, oldest first, and replaces those that are written by their
segments. -/
def writeSealed (engine : Engine) (fs : FileSystem) : Outcome Engine Unit :=
  let flushed := engine.store.flushAll fs engine.sealed.reverse
  (flushed.result,
    { engine with
      store := flushed.store
      segments := flushed.written.foldl .insert engine.segments
      sealed := flushed.unwritten.reverse
      freshlyCompacted :=
        engine.freshlyCompacted && flushed.unwritten.length = engine.sealed.length },
    flushed.files)

/-- Starts a flush: the active memtable is sealed and the sealed ones are written.  The result is
kept for `awaitFlush`, and that of the flush before is forgotten.  An empty active memtable is not
sealed, and then nothing is started. -/
def flush (engine : Engine) (fs : FileSystem) : Outcome Engine Unit :=
  if engine.closed then (.ok (), engine, fs)
  else if engine.flushing then (.error .busy, engine, fs)
  else if engine.active.isEmpty then (.ok (), engine, fs)
  else
    let (result, engine, fs) := engine.rotate.writeSealed fs
    (.ok (), { engine with flushResult := some result }, fs)

/-- Waits for the flush that was started last: its result, which is told once. -/
def awaitFlush (engine : Engine) : Except Error Unit × Engine :=
  (engine.flushResult.getD (.ok ()), { engine with flushResult := none })

end LsmTree.Engine
