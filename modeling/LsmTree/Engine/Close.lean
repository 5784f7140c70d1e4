import LsmTree.Engine.Basic

/-!
# Engine/Close — the end of an engine

A closed engine refuses reads and writes.  Closing writes every memtable, the sealed ones first and
oldest first; if one cannot be written the engine is closed all the same, keeps what is not written
yet, and closing it again tries again.
-/

namespace LsmTree.Engine

/-- Writes the sealed memtables, oldest first, and forgets those that are written. -/
def persistSealed (engine : Engine) (fs : FileSystem) : Outcome Engine Unit :=
  let flushed := engine.store.flushAll fs engine.sealed.reverse
  (flushed.result,
    { engine with store := flushed.store, sealed := flushed.unwritten.reverse },
    flushed.files)

/-- Writes the active memtable and forgets it once it is written. -/
def persistActive (engine : Engine) (fs : FileSystem) : Outcome Engine Unit :=
  match engine.store.flush engine.active fs with
  | (.error e, store, fs) => (.error e, { engine with store }, fs)
  | (.ok _, store, fs) => (.ok (), { engine.retireActive with store }, fs)

/-- Writes everything that is only in memory and forgets the segments. -/
def persist (engine : Engine) (fs : FileSystem) : Outcome Engine Unit :=
  match engine.persistSealed fs with
  | (.error e, engine, fs) => (.error e, engine, fs)
  | (.ok (), engine, fs) =>
    match engine.persistActive fs with
    | (.error e, engine, fs) => (.error e, engine, fs)
    | (.ok (), engine, fs) => (.ok (), { engine with segments := {} }, fs)

/-- Closes the engine.  An engine that is closed and has nothing left to write stays as it is. -/
def close (engine : Engine) (fs : FileSystem) : Outcome Engine Unit :=
  if engine.closed && engine.sealed.isEmpty && engine.active.isEmpty then (.ok (), engine, fs)
  else
    persist { engine with closed := true, flushResult := none, compactionResult := none } fs

end LsmTree.Engine
