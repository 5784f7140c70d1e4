import LsmTree.Proofs.Segment.Damage
import LsmTree.Proofs.Store.Crash

/-!
# Proofs/Store/Unreadable — a compaction stops at a slot that it cannot read

A compaction removes its segments once they are merged, so it must not take a merge for complete
that left something out.  Wherever the slot is that cannot be read, and in whatever order the keys
are, the merge yields an error (`SegmentSet.error?_mergedItems`), and the compaction stops before it
touches a file (`Store.compact_stops_at_unreadable`).
-/

namespace LsmTree

/-! ## The errors of a stream -/

namespace Item

variable {found : List Item} {e : Error}

/-- **Collecting comes to the first error**, if there is one. -/
theorem collect_of_error? (h : error? found = some e) : collect found = .error e := by
  induction found with
  | nil => cases h
  | cons item rest ih =>
    cases item with
    | ok entry => rw [collect, ih h]; rfl
    | error other => exact congrArg _ (Option.some.inj h)

theorem eq_map_ok_of_error? (h : error? found = none) : found = (clean found).map .ok := by
  induction found with
  | nil => rfl
  | cons item rest ih =>
    cases item with
    | ok entry => exact congrArg _ (ih h)
    | error other => cases h

/-- Leaving tombstones out leaves the first error what it was. -/
theorem error?_filter_visible : error? (found.filter Live.visible) = error? found := by
  induction found with
  | nil => rfl
  | cons item rest ih =>
    cases item with
    | ok entry => cases hlive : entry.isTombstone <;> simp [Live.visible, hlive, error?, ih]
    | error other => rfl

end Item

/-! ## Slots that cannot be read -/

namespace Segment

/-- Slot `pos` is there and its entry cannot be read. -/
def Unreadable (segment : Segment) (pos : Nat) (e : Error) : Prop :=
  pos < segment.size ∧ segment.readEntry pos = .error e

/-- **A cursor comes to the first slot that cannot be read**, and ends there. -/
theorem error?_drain_cursor (segment : Segment) (pos stop : Nat) :
    (∀ e, Item.error? (ItemStream.drain (⟨segment, pos, stop⟩ : Cursor)) = some e →
      ∃ i < stop, segment.readEntry i = .error e) ∧
    (Item.error? (ItemStream.drain (⟨segment, pos, stop⟩ : Cursor)) = none →
      ∀ i, pos ≤ i → i < stop → ∃ entry, segment.readEntry i = .ok entry) := by
  rcases Nat.lt_or_ge pos stop with hlt | hge
  · cases hread : segment.readEntry pos with
    | error e =>
      rw [ItemStream.drain_of_some (next?_cursor_error hlt hread)]
      refine ⟨fun other hother => ⟨pos, hlt, ?_⟩, nofun⟩
      rw [hread, Option.some.inj hother]
    | ok entry =>
      obtain ⟨herror, hnone⟩ := error?_drain_cursor segment (pos + 1) stop
      rw [ItemStream.drain_of_some (next?_cursor_ok hlt hread)]
      refine ⟨herror, fun hok i hpos hi => ?_⟩
      rcases Nat.lt_or_eq_of_le hpos with hlater | rfl
      · exact hnone hok i hlater hi
      · exact ⟨entry, hread⟩
  · rw [ItemStream.drain_of_none (next?_cursor_end segment hge)]
    exact ⟨nofun, fun _ i hpos hi => absurd (Nat.lt_of_lt_of_le hi hge) (Nat.not_lt.mpr hpos)⟩
termination_by stop - pos

/-- **A segment yields the error of its first slot that cannot be read**, and none if there is no
such slot. -/
theorem error?_items (segment : Segment) :
    (∀ e, Item.error? segment.items = some e → ∃ pos, segment.Unreadable pos e) ∧
      (Item.error? segment.items = none → ∀ pos e, ¬segment.Unreadable pos e) := by
  obtain ⟨herror, hnone⟩ := error?_drain_cursor segment 0 segment.size
  refine ⟨herror, fun hok pos e ⟨hpos, hread⟩ => ?_⟩
  obtain ⟨entry, hentry⟩ := hnone hok pos (Nat.zero_le pos) hpos
  exact nomatch hentry.symm.trans hread

/-- A slot that cannot be read is damaged. -/
theorem Unreadable.corrupt {segment : Segment} {pos : Nat} {e : Error}
    (h : segment.Unreadable pos e) : ∃ cause, e = .corrupt cause :=
  onlyCorrupt_readEntry segment pos e h.2

end Segment

namespace SegmentSet

variable {set : SegmentSet}

/-- All items of a set, its tombstones included. -/
def mergedItems (set : SegmentSet) : List Item := Merge.items (set.segments.map Segment.items)

/-- **A merge of segments fails at a slot that cannot be read**, wherever it is, and nowhere else. -/
theorem error?_mergedItems (set : SegmentSet) :
    (∀ e, Item.error? set.mergedItems = some e → ∃ s ∈ set.segments, ∃ pos, s.Unreadable pos e) ∧
      (Item.error? set.mergedItems = none → ∀ s ∈ set.segments, ∀ pos e, ¬s.Unreadable pos e) := by
  refine ⟨fun e he => ?_, fun hok s hs => (s.error?_items).2 ?_⟩
  · obtain ⟨_, hsource, herror⟩ := Merge.error?_of_mem_items (Item.mem_of_error? he)
    obtain ⟨s, hs, rfl⟩ := List.mem_map.mp hsource
    exact ⟨s, hs, s.error?_items.1 e herror⟩
  · rw [Item.error?_eq_none_iff] at hok ⊢
    intro e he
    obtain ⟨other, hother⟩ := (Merge.exists_error_items_iff _).mpr
      ⟨s.items, List.mem_map.mpr ⟨s, hs, rfl⟩, e, he⟩
    exact hok other hother

theorem liveEntries_of_error? {e : Error} (h : Item.error? set.mergedItems = some e) :
    set.liveEntries = .error e := by
  rw [liveEntries, Live.drain_eq]
  exact Item.collect_of_error? (Item.error?_filter_visible.trans h)

theorem liveEntries_of_ok {es : List Entry} (h : set.mergedItems = es.map .ok) :
    set.liveEntries = .ok (es.filter fun entry => !entry.isTombstone) := by
  rw [liveEntries, Live.drain_eq, ← Merge.items, ← mergedItems, h, List.filter_map]
  exact Item.collect_ok _

end SegmentSet

/-! ## Compaction -/

namespace Store

/-- **A compaction does not touch anything if a slot cannot be read**: wherever the slot is, it is
told that a file is damaged, and the files and the store are what they were.  If every slot can be
read, the merge yields entries only. -/
theorem compact_stops_at_unreadable (store : Store) (fs : FileSystem) {set : SegmentSet}
    (hsize : 2 ≤ set.size) :
    ((∃ s ∈ set.segments, ∃ pos e, s.Unreadable pos e) →
      ∃ s ∈ set.segments, ∃ pos cause, s.Unreadable pos (.corrupt cause) ∧
        store.compact set fs = (.error (.corrupt cause), store, fs)) ∧
      ((∀ s ∈ set.segments, ∀ pos < s.size, ∃ entry, s.readEntry pos = .ok entry) →
        ∃ es : List Entry, set.mergedItems = es.map .ok ∧
          set.liveEntries = .ok (es.filter fun entry => !entry.isTombstone)) := by
  obtain ⟨herror, hnone⟩ := set.error?_mergedItems
  cases hmerged : Item.error? set.mergedItems with
  | some e =>
    obtain ⟨s, hs, pos, hslot⟩ := herror e hmerged
    obtain ⟨cause, rfl⟩ := hslot.corrupt
    refine ⟨fun _ => ⟨s, hs, pos, cause, hslot, ?_⟩, fun hall => ?_⟩
    · rw [compact, if_neg (Nat.not_lt.mpr hsize), SegmentSet.liveEntries_of_error? hmerged]
    · obtain ⟨entry, hentry⟩ := hall s hs pos hslot.1
      cases hentry.symm.trans hslot.2
  | none =>
    refine ⟨?_, fun _ => ?_⟩
    · rintro ⟨s, hs, pos, e, hslot⟩
      exact absurd hslot (hnone hmerged s hs pos e)
    · have hok := Item.eq_map_ok_of_error? hmerged
      exact ⟨_, hok, SegmentSet.liveEntries_of_ok hok⟩

/-! ### A slot behind shadowed entries

Two segments with the same keys, out of order.  The second slot of the older one is damaged; what is
in front of it is shadowed by the newer segment. -/

/-- The newer segment: its keys are out of order. -/
def unsortedSegment : Segment :=
  ⟨2, (StoreFile.segment 2).path ["store"],
    Segment.encode [⟨[98], some [2]⟩, ⟨[97], some [2]⟩], ⟨.v0, 2⟩, rfl⟩

/-- The older segment: its last slot points nowhere. -/
def tornSegment : Segment :=
  ⟨1, (StoreFile.segment 1).path ["store"],
    (Segment.encode [⟨[98], some [1]⟩, ⟨[97], some [1]⟩]).setIfInBounds 24 0, ⟨.v0, 2⟩, rfl⟩

/-- The set of the two. -/
def tornSet : SegmentSet := ⟨[unsortedSegment, tornSegment], by
  simp [unsortedSegment, tornSegment]⟩

theorem compact_tornSet : ∃ cause,
    deletedStore.compact tornSet deletedFiles =
      (.error (.corrupt cause), deletedStore, deletedFiles) := by
  obtain ⟨-, -, -, cause, -, hcompact⟩ :=
    (@compact_stops_at_unreadable deletedStore deletedFiles tornSet (Nat.le_refl 2)).1
      ⟨tornSegment, by simp [tornSet], 1, .corrupt (.invalidOffset 0), by decide, rfl⟩
  exact ⟨cause, hcompact⟩

end Store

end LsmTree
