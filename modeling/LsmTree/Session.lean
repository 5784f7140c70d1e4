import LsmTree.Engine.Reader
import LsmTree.Engine.Request

/-!
# Session — engines, handles and held views over one file system

An engine is used through handles.  A handle can be cloned, and when the last handle of an engine is
dropped the engine is closed.  Views and iterators that were taken from an engine are held under
names of their own and outlive all of its handles, so a session keeps every engine it ever opened.
-/

namespace LsmTree

/-- A view that is held, and the engine it was taken from. -/
structure HeldSnapshot where
  engine : Nat
  snapshot : Snapshot

/-- An iterator, and the engine that its view was taken from. -/
structure HeldReader where
  engine : Nat
  reader : Reader

/-- Everything that is open. -/
structure Session where
  files : FileSystem := {}
  /-- every engine ever opened, numbered in the order of opening -/
  engines : Array Engine := #[]
  /-- the engine behind each handle -/
  handles : List (String × Nat) := []
  /-- the views that are held -/
  snapshots : List (String × HeldSnapshot) := []
  /-- how far each iterator has come -/
  iterators : List (String × HeldReader) := []

namespace Session

/-- The list with the value of a name set. -/
def assign {α : Type} (name : String) (value : α) (names : List (String × α)) :
    List (String × α) :=
  (name, value) :: names.filter (·.1 ≠ name)

/-- The engine behind a handle. -/
def engineOf? (session : Session) (handle : String) : Option Engine := do
  session.engines[← session.handles.lookup handle]?

/-! ## Handles -/

/-- Closes an engine if no handle leads to it any more; how that ends is not told. -/
def release (session : Session) (index : Nat) : Session :=
  if session.handles.any (·.2 = index) then session
  else
    match session.engines[index]? with
    | none => session
    | some engine =>
      let (_, engine, files) := engine.close session.files
      { session with files, engines := session.engines.setIfInBounds index engine }

/-- Drops a handle, if there is one of that name. -/
def drop (session : Session) (handle : String) : Session :=
  match session.handles.lookup handle with
  | none => session
  | some index =>
    { session with handles := session.handles.filter (·.1 ≠ handle) }.release index

/-- Opens an engine under a handle.  An engine that was there is dropped first. -/
def openEngine (session : Session) (handle : String) (settings : Settings) :
    Except Error Unit × Session :=
  let session := session.drop handle
  match Engine.load settings session.files with
  | (.error e, files) => (.error e, { session with files })
  | (.ok engine, files) =>
    (.ok (),
      { session with
        files
        engines := session.engines.push engine
        handles := assign handle session.engines.size session.handles })

/-- Lets a second handle lead to the engine of the first.  What the second led to before is
dropped. -/
def clone (session : Session) (handle copy : String) : Option Session := do
  let index ← session.handles.lookup handle
  let shared := { session with handles := assign copy index session.handles }
  match session.handles.lookup copy with
  | none => return shared
  | some previous => return shared.release previous

/-- Carries out a request on the engine behind a handle. -/
def request (session : Session) (handle : String) (r : Request) : Option (Reply × Session) := do
  let index ← session.handles.lookup handle
  let engine ← session.engines[index]?
  let (reply, engine, files) := engine.answer session.files r
  return (reply, { session with files, engines := session.engines.setIfInBounds index engine })

/-! ## Held views -/

/-- Holds a view of the engine behind a handle under a name. -/
def hold (session : Session) (handle name : String) (start stop : Bound) :
    Option (Except Error Unit × Session) := do
  let index ← session.handles.lookup handle
  let engine ← session.engines[index]?
  match engine.snapshot (.between start stop) with
  | .error e => return (.error e, session)
  | .ok snapshot =>
    return (.ok (),
      { session with snapshots := assign name ⟨index, snapshot⟩ session.snapshots })

/-- A stream over a held view. -/
def stream (session : Session) (name : String) : Option (Live Merge) := do
  let held ← session.snapshots.lookup name
  let engine ← session.engines[held.engine]?
  return held.snapshot.stream engine

/-- What a scan of a held view yields. -/
def scan (session : Session) (name : String) : Option (List Item) :=
  ItemStream.drain <$> session.stream name

/-- Starts an iterator over a held view.  It has read nothing yet. -/
def iterate (session : Session) (name iterator : String) : Option Session := do
  let held ← session.snapshots.lookup name
  return { session with
    iterators := assign iterator ⟨held.engine, { snapshot := held.snapshot }⟩ session.iterators }

/-- Takes items from an iterator, fewer if it ends before. -/
def take (session : Session) (iterator : String) (n : Nat) : Option (List Item × Session) := do
  let held ← session.iterators.lookup iterator
  let engine ← session.engines[held.engine]?
  let (items, reader) := held.reader.take (held.reader.snapshot.activeIn engine) n
  return (items, { session with
    iterators := assign iterator { held with reader } session.iterators })

end Session

end LsmTree
