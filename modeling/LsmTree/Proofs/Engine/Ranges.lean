import LsmTree.Proofs.Engine.Reads
import LsmTree.Proofs.Store.Crash

/-!
# Proofs/Engine/Ranges — a scan and the look-ups of its keys

A look-up goes through the memtables and the segments and stops at the first entry of its key.  A
scan turns its bounds into a half-open interval, seeks that interval in every memtable and every
segment, and merges what it finds there.  The two never look at the same places, and still a scan
yields an entry exactly if its bounds let the key pass and a look-up of the key finds the entry
(`Engine.range_agrees`).
-/

namespace LsmTree.Engine

open Entry

variable {engine : Engine}

/-- **A live entry is what a look-up of its key finds.** -/
theorem mem_iff_lookup {m : Contents} {es : List Entry} (hshows : engine.Shows m) (hes : m.Lists es)
    (entry : Entry) : entry ∈ es ↔ engine.lookup entry.key = .ok (some entry) := by
  rw [hshows.lookup, Except.ok.injEq, ← hes.first? entry.key, hes.ascending.first?_eq_some_iff]
  exact (and_iff_left rfl).symm

/-- **A scan yields what look-ups find between its bounds**, in key order and without tombstones; a
closed engine refuses both. -/
theorem range_agrees (h : engine.segments.Readable) (start stop : Bound) :
    (engine.closed = true ∧ engine.range start stop = .error .closed ∧
      ∀ key, engine.lookup key = .error .closed) ∨
    (engine.closed = false ∧ ∃ es, engine.range start stop = .ok (es.map .ok) ∧ Ascending es ∧
      (∀ entry ∈ es, entry.isTombstone = false) ∧
      ∀ entry, entry ∈ es ↔ start.AtMost entry.key ∧ stop.AtLeast entry.key ∧
        engine.lookup entry.key = .ok (some entry)) := by
  cases hclosed : engine.closed with
  | true =>
    refine .inl ⟨rfl, ?_, fun key => by simp [lookup, hclosed]⟩
    simp [range, snapshot, hclosed, Functor.map, Except.map]
  | false =>
    have hshows := shows hclosed h
    obtain ⟨live, hlive, -, -, -, hrange⟩ := hshows.scans
    refine .inr ⟨rfl, _, hrange start stop, hlive.ascending.filter _, fun entry hentry => ?_,
      fun entry => ?_⟩
    · obtain ⟨hsome, -⟩ := (hlive.mem_iff entry).mp (List.mem_of_mem_filter hentry)
      exact Option.isNone_eq_false_iff.mpr hsome
    · rw [List.mem_filter, Interval.contains_between_iff, mem_iff_lookup hshows hlive, and_comm,
        and_assoc]

/-! ## A scan from right behind a key -/

/-- An engine with entries in both memtables and in a segment.  One key is another with a zero byte
behind it, and one is deleted. -/
def layeredEngine : Engine :=
  { settings := {}, store := Store.deletedStore, active := .ofEntries [⟨[97, 0], some [2]⟩],
    sealed := [.ofEntries [⟨[97], some [1]⟩, .tombstone [98]]],
    segments := ⟨[Store.valueSegment], List.pairwise_singleton _ _⟩ }

/-- A scan that leaves its first key out begins with the key right behind it, and ends with a key
that only the segment has. -/
theorem range_layeredEngine : ∃ es,
    layeredEngine.range (.excluded [97]) (.included [107]) = .ok (es.map .ok) ∧ Ascending es ∧
      ⟨[97, 0], some [2]⟩ ∈ es ∧ ⟨[107], some [118]⟩ ∈ es ∧ ⟨[97], some [1]⟩ ∉ es ∧
      .tombstone [98] ∉ es := by
  have hreadable : layeredEngine.segments.Readable := SegmentSet.Intact.readable <| by
    simp [SegmentSet.Intact, layeredEngine, Store.valueSegment, Segment.intact_ofTable]
  have holdest : layeredEngine.segments.entries = [⟨[107], some [118]⟩] := by
    simp [SegmentSet.entries, layeredEngine, Store.valueSegment]
  have hlookup (key : Bytes) : layeredEngine.lookup key = .ok ((Contents.ofEntries
      [⟨[97, 0], some [2]⟩, ⟨[97], some [1]⟩, .tombstone [98], ⟨[107], some [118]⟩]).live? key) := by
    rw [lookup_eq_live? rfl hreadable, entries, holdest]
    rfl
  rcases range_agrees hreadable (.excluded [97]) (.included [107]) with ⟨hclosed, -⟩ |
    ⟨-, es, hrange, hascending, hlive, hmem⟩
  · cases hclosed
  · refine ⟨es, hrange, hascending, (hmem _).mpr ⟨by decide, by decide, hlookup _⟩,
      (hmem _).mpr ⟨by decide, by decide, hlookup _⟩, fun h => ?_, fun h => ?_⟩
    · exact absurd ((hmem _).mp h).1 (by decide)
    · exact absurd (hlive _ h) (by decide)

end LsmTree.Engine
