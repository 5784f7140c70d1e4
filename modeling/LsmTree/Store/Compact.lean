import LsmTree.Items.Live
import LsmTree.Items.Merge
import LsmTree.Segment.Cursor
import LsmTree.Store.Save

/-!
# Store/Compact — merging segments into one

`Store.compact` merges the segments of a set into one that holds their live entries only.  The
merged segment is saved under the next priority; then the files of the set are removed one by one,
and the merged segment takes the lowest priority, so that segments flushed in the meantime stay
newer.
`compactionSteps` is the sequence of file steps behind this.
-/

namespace LsmTree

namespace SegmentSet

/-- All live entries of a set, or the first error met while merging. -/
def liveEntries (set : SegmentSet) : Except Error (List Entry) :=
  Item.collect (ItemStream.drain (Live.mk (Merge.ofSources (set.segments.map Segment.items))))

end SegmentSet

namespace Store

/-- What a compaction did. -/
structure Compaction where
  /-- the priorities of the segments that were merged, whose files are gone -/
  inputs : List Priority
  /-- the merged segment, unless no entry was live -/
  output : Option Segment

/-- The file steps that replace the segments of a set by a merged segment that was saved at the
given place. -/
def installSteps (store : Store) (set : SegmentSet) (merged : Option Path) : List FileStep :=
  set.segments.map (fun segment => .remove segment.path) ++
    merged.toList.map fun path => .rename path (store.pathOf (.segment .lowest))

/-- The file steps of a whole compaction of a set whose live entries are given.  Entries that are
too many for a file leave nothing behind. -/
def compactionSteps (store : Store) (set : SegmentSet) (live : List Entry) : List FileStep :=
  let unfinished := store.pathOf (.unfinished store.counter.next)
  let finished := store.pathOf (.segment store.counter.next)
  if live.isEmpty then store.installSteps set none
  else if Segment.encodedSize live < Word.signBit then
    .write unfinished (Segment.encode live) :: .rename unfinished finished ::
      store.installSteps set (some finished)
  else [.write unfinished #[], .remove unfinished]

/-- The segment that the lowest priority's file holds, if a merged segment was put there. -/
def loadMerged (store : Store) (merged : Option Segment) (fs : FileSystem) :
    Except Error (Option Segment) :=
  match merged with
  | none => .ok none
  | some _ => some <$> Segment.load fs (store.pathOf (.segment .lowest)) .lowest

/-- Merges the segments of a set into one without tombstones; there is nothing to do for fewer than
two.  An entry that cannot be read stops the compaction before any file is touched. -/
def compact (store : Store) (set : SegmentSet) (fs : FileSystem) :
    Outcome Store (Option Compaction) :=
  if set.size < 2 then (.ok none, store, fs)
  else
    match set.liveEntries with
    | .error e => (.error e, store, fs)
    | .ok live =>
      match store.save live fs with
      | (.error e, store, fs) => (.error e, store, fs)
      | (.ok merged, store, fs) =>
        match fs.perform (store.installSteps set (merged.map (·.path))) with
        | (.error cause, fs) => (.error (.io cause), store, fs)
        | (.ok (), fs) =>
          match store.loadMerged merged fs, fs.sync store.folder with
          | .error e, _ => (.error e, store, fs)
          | .ok _, .error cause => (.error (.io cause), store, fs)
          | .ok output, .ok () => (.ok (some ⟨set.priorities, output⟩), store, fs)

end Store

end LsmTree
