import LsmTree.Interval
import LsmTree.Items
import LsmTree.Segment.Search

/-!
# Segment/Cursor — reading a segment slot by slot

A `Cursor` yields the entries of consecutive slots.  A slot that cannot be read yields its error,
and nothing is read behind it.
-/

namespace LsmTree.Segment

/-- A segment and the slots still to be read: from `pos` on, before `stop`. -/
structure Cursor where
  segment : Segment
  pos : Nat
  stop : Nat

namespace Cursor

/-- Reads the next slot; after an error the cursor is at its end. -/
def next? (cursor : Cursor) : Option (Item × Cursor) :=
  if cursor.pos < cursor.stop then
    match cursor.segment.readEntry cursor.pos with
    | .ok entry => some (.ok entry, { cursor with pos := cursor.pos + 1 })
    | .error e => some (.error e, { cursor with pos := cursor.stop })
  else none

theorem remaining_next?_lt {cursor after : Cursor} {item : Item}
    (h : cursor.next? = some (item, after)) :
    after.stop - after.pos < cursor.stop - cursor.pos := by
  unfold next? at h
  split at h
  · split at h <;>
    · obtain ⟨_, rfl⟩ := Prod.mk.inj (Option.some.inj h)
      simp only
      omega
  · cases h

/-- A cursor takes every slot it has left to be readable. -/
instance : ItemStream Cursor where
  next? := next?
  sizeHint cursor := ⟨cursor.stop - cursor.pos, some (cursor.stop - cursor.pos)⟩
  remaining cursor := cursor.stop - cursor.pos
  remaining_lt := remaining_next?_lt

end Cursor

/-- All entries of a segment. -/
def cursor (segment : Segment) : Cursor := ⟨segment, 0, segment.size⟩

/-- The entries whose keys lie in an interval. -/
def range (segment : Segment) (interval : Interval) : Except Error Cursor := do
  let (start, stop) ← segment.slots interval.lower interval.upper
  return ⟨segment, start, stop⟩

/-- All items of a segment. -/
def items (segment : Segment) : List Item := ItemStream.drain segment.cursor

/-- The items of an interval; if its ends cannot be found, only the error that says why. -/
def itemsIn (segment : Segment) (interval : Interval) : List Item :=
  match segment.range interval with
  | .ok cursor => ItemStream.drain cursor
  | .error e => [.error e]

end LsmTree.Segment
