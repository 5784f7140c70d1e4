import LsmTree.Engine.Read
import LsmTree.Proofs.Memtable
import LsmTree.Proofs.SegmentSet

/-!
# Proofs/Engine/Reads — what an open engine shows

The entries of an engine are those of its memtables, the newest first, and behind them those of its
segments.  **All reads of an open engine agree on what they amount to** (`Engine.shows`): look-ups
find the live entry of a key, and scans list the live entries in key order.  The same holds of a
view that was taken earlier, with the entries that it has (`Snapshot.items_eq`).
-/

namespace LsmTree

/-! ## Scans of some keys only -/

/-- **Leaving keys out of the entries leaves them out of the listing.** -/
theorem Contents.Lists.filter {es live : List Entry} (h : (ofEntries es).Lists live)
    (p : Bytes → Bool) :
    (ofEntries (es.filter fun entry => p entry.key)).Lists (live.filter fun entry => p entry.key) where
  ascending := h.ascending.filter _
  mem_iff entry := by
    have hfirst : p entry.key = true →
        Entry.first? entry.key (es.filter fun other => p other.key) =
          Entry.first? entry.key es := by
      intro hp
      unfold Entry.first?
      rw [List.find?_filter]
      refine congrArg (List.find? · es) (funext fun other => ?_)
      by_cases hkey : other.key = entry.key <;> simp [hkey, hp]
    rw [List.mem_filter, h.mem_iff]
    constructor
    · rintro ⟨⟨hlive, hvalue⟩, hp⟩
      refine ⟨hlive, ?_⟩
      rwa [ofEntries, hfirst hp]
    · rintro ⟨hlive, hvalue⟩
      cases hp : p entry.key with
      | true =>
        rw [ofEntries, hfirst hp] at hvalue
        exact ⟨⟨hlive, hvalue⟩, rfl⟩
      | false =>
        have hnone : Entry.first? entry.key (es.filter fun other => p other.key) = none := by
          refine Entry.first?_eq_none_iff.mpr fun other hother hkey => ?_
          have hp' := (List.mem_filter.mp hother).2
          rw [hkey, hp] at hp'
          cases hp'
        rw [ofEntries, hnone, Option.bind_none] at hvalue
        rw [← hvalue] at hlive
        cases hlive

namespace Engine

variable {engine : Engine}

/-- All entries, the newest first. -/
def entries (engine : Engine) : List Entry :=
  engine.memtables.flatMap Memtable.entries ++ engine.segments.entries

/-- Every read tells the given contents. -/
structure Shows (engine : Engine) (m : Contents) : Prop where
  lookup : ∀ key, engine.lookup key = .ok (m.live? key)
  contains : ∀ key, engine.contains key = .ok (m key).isSome
  scans : ∃ es, m.Lists es ∧ engine.items = .ok (es.map .ok) ∧ engine.count = .ok es.length ∧
    engine.isEmpty = .ok es.isEmpty ∧ ∀ start stop, engine.range start stop =
      .ok ((es.filter fun entry => (Interval.between start stop).contains entry.key).map .ok)

/-- Reads tell one thing only. -/
theorem Shows.unique {m m' : Contents} (h : engine.Shows m) (h' : engine.Shows m') : m = m' :=
  Contents.ext_live? fun key => Except.ok.inj ((h.lookup key).symm.trans (h'.lookup key))

/-! ## Look-ups -/

theorem lookupIn_eq_first? (key : Bytes) (tables : List Memtable) :
    lookupIn key tables = Entry.first? key (tables.flatMap Memtable.entries) := by
  induction tables with
  | nil => rfl
  | cons table older ih =>
    rw [lookupIn, List.flatMap_cons, Entry.first?_append, Memtable.first?_entries, ih]

/-- **A look-up finds the newest entry of the key.** -/
theorem newest?_eq_first? (h : engine.segments.Readable) (key : Bytes) :
    engine.newest? key = .ok (Entry.first? key engine.entries) := by
  rw [newest?, lookupIn_eq_first?, entries, Entry.first?_append, h.lookup]
  cases Entry.first? key (engine.memtables.flatMap Memtable.entries) <;> rfl

theorem lookup_eq_live? (hopen : engine.closed = false) (h : engine.segments.Readable)
    (key : Bytes) : engine.lookup key = .ok ((Contents.ofEntries engine.entries).live? key) := by
  simp only [lookup, hopen, newest?_eq_first? h, Bool.false_eq_true, if_false]
  exact congrArg Except.ok Contents.live?_first?

/-! ## Scans -/

end Engine

namespace Snapshot

variable {snapshot : Snapshot} {engine : Engine}

/-- All entries of a view, the newest first. -/
def entries (snapshot : Snapshot) (engine : Engine) : List Entry :=
  (snapshot.activeIn engine :: snapshot.sealed).flatMap Memtable.entries ++
    snapshot.segments.entries

/-- The entries of each memtable and each segment, the newest first. -/
def layers (snapshot : Snapshot) (engine : Engine) : List (List Entry) :=
  (snapshot.activeIn engine :: snapshot.sealed).map Memtable.entries ++
    snapshot.segments.segments.map Segment.entries

theorem flatten_layers (snapshot : Snapshot) (engine : Engine) :
    (snapshot.layers engine).flatten = snapshot.entries engine := by
  simp [layers, entries, SegmentSet.entries, List.flatMap]

theorem ascending_layers (h : snapshot.segments.Readable) {es : List Entry}
    (hes : es ∈ snapshot.layers engine) : Entry.Ascending es := by
  rcases List.mem_append.mp hes with hes | hes
  · obtain ⟨table, -, rfl⟩ := List.mem_map.mp hes
    exact table.pairwise_entries
  · exact h.ascending hes

theorem sources_eq (h : snapshot.segments.Readable) (engine : Engine) :
    snapshot.sources engine =
      ((snapshot.layers engine).map
        (·.filter fun entry => snapshot.interval.contains entry.key)).map (·.map .ok) := by
  have hsegments : snapshot.segments.segments.map
      (fun segment => segment.itemsIn snapshot.interval) =
      ((snapshot.segments.segments.map Segment.entries).map
        (·.filter fun entry => snapshot.interval.contains entry.key)).map (·.map .ok) := by
    rw [List.map_map, List.map_map]
    exact List.map_congr_left fun s hs => (h s hs).itemsIn snapshot.interval
  rw [Snapshot.sources, Snapshot.sourcesOver, hsegments, layers, List.map_append, List.map_append]
  simp [Memtable.entriesIn_eq_filter, Function.comp_def]

/-- The live entries of a view can be listed. -/
theorem lists_entries (h : snapshot.segments.Readable) (engine : Engine) :
    ∃ live, (Contents.ofEntries (snapshot.entries engine)).Lists live := by
  obtain ⟨live, -, hlive⟩ := @drain_live_merge (snapshot.layers engine) fun es hes =>
    ascending_layers h hes
  exact ⟨live, flatten_layers snapshot engine ▸ hlive⟩

/-- **A scan lists what the entries of its view amount to**, between the ends of its interval. -/
theorem items_eq (h : snapshot.segments.Readable) {live : List Entry}
    (hlive : (Contents.ofEntries (snapshot.entries engine)).Lists live) :
    snapshot.items engine =
      (live.filter fun entry => snapshot.interval.contains entry.key).map .ok := by
  obtain ⟨found, hdrain, hfound⟩ := @drain_live_merge
    ((snapshot.layers engine).map
      (·.filter fun entry => snapshot.interval.contains entry.key)) (by
      intro es hes
      obtain ⟨other, hother, rfl⟩ := List.mem_map.mp hes
      exact (ascending_layers h hother).filter _)
  have hflatten : ((snapshot.layers engine).map
      (·.filter fun entry => snapshot.interval.contains entry.key)).flatten =
      (snapshot.entries engine).filter fun entry => snapshot.interval.contains entry.key := by
    rw [← flatten_layers, List.filter_flatten]
  rw [hflatten] at hfound
  rw [Snapshot.items, Snapshot.stream, sources_eq h, hdrain,
    hfound.unique (hlive.filter snapshot.interval.contains)]

end Snapshot

namespace Engine

variable {engine : Engine}

/-- A view of the engine as it is now. -/
def viewOf (engine : Engine) (interval : Interval) : Snapshot :=
  ⟨engine.retired.size, engine.sealed, engine.segments, interval⟩

theorem snapshot_eq_viewOf (hopen : engine.closed = false) (interval : Interval) :
    engine.snapshot interval = .ok (engine.viewOf interval) := by
  simp [snapshot, hopen, viewOf]

/-- A view that was just taken has the entries of the engine. -/
theorem entries_viewOf (engine : Engine) (interval : Interval) :
    (engine.viewOf interval).entries engine = engine.entries := by
  simp [Snapshot.entries, Snapshot.activeIn, viewOf, entries, memtables]

theorem items_viewOf (h : engine.segments.Readable) {live : List Entry}
    (hlive : (Contents.ofEntries engine.entries).Lists live) (interval : Interval) :
    (engine.viewOf interval).items engine =
      (live.filter fun entry => interval.contains entry.key).map .ok := by
  rw [← engine.entries_viewOf interval] at hlive
  exact Snapshot.items_eq h hlive

/-- An engine is empty if a scan of it yields nothing. -/
theorem isEmpty_of_items (hopen : engine.closed = false) {live : List Entry}
    (hitems : (engine.viewOf {}).items engine = live.map .ok) :
    engine.isEmpty = .ok live.isEmpty := by
  simp only [isEmpty, snapshot_eq_viewOf hopen, bind, Except.bind]
  rw [Snapshot.items] at hitems
  cases hnext : ItemStream.next? ((engine.viewOf {}).stream engine) with
  | none =>
    rw [ItemStream.drain_of_none hnext] at hitems
    obtain rfl : live = [] := by simpa using hitems.symm
    rfl
  | some found =>
    obtain ⟨item, rest⟩ := found
    rw [ItemStream.drain_of_some hnext] at hitems
    cases live with
    | nil => cases hitems
    | cons entry others =>
      obtain ⟨rfl, -⟩ := List.cons.inj hitems
      rfl

/-- **All reads of an open engine agree on what its entries amount to.** -/
theorem shows (hopen : engine.closed = false) (h : engine.segments.Readable) :
    engine.Shows (.ofEntries engine.entries) where
  lookup := lookup_eq_live? hopen h
  contains key := by
    rw [contains, lookup_eq_live? hopen h]
    simp [Contents.live?, Functor.map, Except.map]
  scans := by
    have hsegments : (engine.viewOf {}).segments.Readable := h
    obtain ⟨live, hlive⟩ := Snapshot.lists_entries hsegments engine
    rw [entries_viewOf] at hlive
    have hall : (engine.viewOf {}).items engine = live.map .ok := by
      rw [items_viewOf h hlive, List.filter_eq_self.mpr]
      intro entry _
      rfl
    have hitems : engine.items = .ok (live.map .ok) := by
      rw [items, snapshot_eq_viewOf hopen, ← hall]
      rfl
    refine ⟨live, hlive, hitems, ?_, isEmpty_of_items hopen hall, fun start stop => ?_⟩
    · simp [count, hitems, bind, Except.bind, pure, Except.pure]
    · rw [range, snapshot_eq_viewOf hopen, ← items_viewOf h hlive]
      rfl

end Engine

end LsmTree
