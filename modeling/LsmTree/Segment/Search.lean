import LsmTree.Segment.Basic

/-!
# Segment/Search — finding a key by halving

`search` looks a key up in the index of a segment by halving: it reads the keys of the slots it
probes and fails at the first that cannot be read.  The outcome is a `Position`, the slot of the key
or the slot where the key would have to stand.
-/

namespace LsmTree

/-- Where a key stands in a sorted table. -/
inductive Position where
  /-- the key is here -/
  | hit (pos : Nat)
  /-- the key is absent; here it would have to be put -/
  | miss (pos : Nat)
  deriving DecidableEq

namespace Position

/-- The first slot whose key is not below the one looked for. -/
def slot : Position → Nat
  | hit pos => pos
  | miss pos => pos

end Position

namespace Segment

/-- Looks for a key among the slots from `low` on and before `high`. -/
def searchBetween (segment : Segment) (key : Bytes) (low high : Nat) : Except Error Position :=
  if low < high then
    let mid := low + (high - low) / 2
    match segment.readKey mid with
    | .error e => .error e
    | .ok midKey =>
      match compare midKey key with
      | .lt => segment.searchBetween key (mid + 1) high
      | .gt => segment.searchBetween key low mid
      | .eq => .ok (.hit mid)
  else .ok (.miss low)
termination_by high - low

/-- Looks for a key in the whole segment. -/
def search (segment : Segment) (key : Bytes) : Except Error Position :=
  segment.searchBetween key 0 segment.size

/-- The entry of a key, a tombstone included. -/
def lookup (segment : Segment) (key : Bytes) : Except Error (Option Entry) := do
  match ← segment.search key with
  | .hit pos => some <$> segment.readEntry pos
  | .miss _ => return none

/-- The slot at an end of an interval; an open end is at the given slot. -/
def boundary (segment : Segment) (outermost : Nat) : Option Bytes → Except Error Nat
  | none => .ok outermost
  | some key => Position.slot <$> segment.search key

/-- The slots whose keys lie in an interval: the first of them and the first behind them. -/
def slots (segment : Segment) (lower upper : Option Bytes) : Except Error (Nat × Nat) := do
  let start ← segment.boundary 0 lower
  let stop ← segment.boundary segment.size upper
  return (start, max stop start)

end Segment

end LsmTree
