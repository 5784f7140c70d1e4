import LsmTree.Engine.Flush

/-!
# Engine/Write — writing entries

A write goes into the active memtable.  If that has reached the threshold, a flush is started first.
-/

namespace LsmTree.Engine

/-- Starts a flush if the active memtable has reached the threshold.  While another flush runs its
result is waited for: a failure is the writer's failure too, and without one the engine stays
busy. -/
def makeRoom (engine : Engine) (fs : FileSystem) : Outcome Engine Unit :=
  if engine.active.byteSize < engine.settings.threshold then (.ok (), engine, fs)
  else if engine.closed then (.error .closed, engine, fs)
  else
    match engine.flush fs with
    | (.error .busy, engine, fs) =>
      match engine.awaitFlush with
      | (.error e, engine) => (.error e, engine, fs)
      | (.ok (), engine) => (.error .busy, engine, fs)
    | outcome => outcome

/-- Writes an entry. -/
def put (engine : Engine) (entry : Entry) (fs : FileSystem) :
    Outcome Engine Unit :=
  match engine.makeRoom fs with
  | (.error e, engine, fs) => (.error e, engine, fs)
  | (.ok (), engine, fs) =>
    if engine.closed then (.error .closed, engine, fs)
    else (.ok (), { engine with active := engine.active.insert entry }, fs)

/-- Writes a value under a key. -/
def insert (engine : Engine) (key value : Bytes) (fs : FileSystem) :
    Outcome Engine Unit :=
  engine.put ⟨key, some value⟩ fs

/-- Deletes a key, by writing a tombstone. -/
def erase (engine : Engine) (key : Bytes) (fs : FileSystem) :
    Outcome Engine Unit :=
  engine.put (.tombstone key) fs

/-- Writes entries in order, up to the first that fails. -/
def putAll (engine : Engine) (fs : FileSystem) :
    List Entry → Outcome Engine Unit
  | [] => (.ok (), engine, fs)
  | entry :: rest =>
    match engine.put entry fs with
    | (.error e, engine, fs) => (.error e, engine, fs)
    | (.ok (), engine, fs) => putAll engine fs rest

end LsmTree.Engine
