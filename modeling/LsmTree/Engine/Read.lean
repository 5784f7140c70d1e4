import LsmTree.Engine.Snapshot

/-!
# Engine/Read — looking keys up and scanning
-/

namespace LsmTree.Engine

/-- The newest entry of a key, a tombstone included. -/
def newest? (engine : Engine) (key : Bytes) : Except Error (Option Entry) :=
  match lookupIn key engine.memtables with
  | some entry => .ok (some entry)
  | none => engine.segments.lookup key

/-- The live entry of a key. -/
def lookup (engine : Engine) (key : Bytes) : Except Error (Option Entry) :=
  if engine.closed then .error .closed
  else (·.bind Entry.live?) <$> engine.newest? key

/-- The key has a live entry. -/
def contains (engine : Engine) (key : Bytes) : Except Error Bool :=
  (·.isSome) <$> engine.lookup key

/-- The live entries between two bounds. -/
def range (engine : Engine) (start stop : Bound) : Except Error (List Item) :=
  (·.items engine) <$> engine.snapshot (.between start stop)

/-- All live entries. -/
def items (engine : Engine) : Except Error (List Item) := (·.items engine) <$> engine.snapshot {}

/-- The number of live entries, or the first error met while counting them. -/
def count (engine : Engine) : Except Error Nat := do
  let entries ← Item.collect (← engine.items)
  return entries.length

/-- There is no live entry; only the first item of a scan is looked at. -/
def isEmpty (engine : Engine) : Except Error Bool := do
  let snapshot ← engine.snapshot {}
  match ItemStream.next? (snapshot.stream engine) with
  | none => return true
  | some (.ok _, _) => return false
  | some (.error e, _) => throw e

end LsmTree.Engine
