import LsmTree.Proofs.Engine.Reads
import LsmTree.Proofs.Segment.Damage
import LsmTree.Proofs.Store.Crash

/-!
# Proofs/Engine/Damage — a damaged engine gives no wrong answers

Take any engine whose segments are intact, and damage any slots of any of its segments.  An older
value that a lost entry had hidden must not come up again, nor a key whose tombstone is lost.  And it
does not: every read tells what the whole engine tells, up to the first error, and every error says
that a file is damaged (`Engine.honest_of_damaged`).
-/

namespace LsmTree.Engine

variable {engine : Engine} {set : SegmentSet} {live : List Entry}

/-! ## What is read of a damaged engine -/

/-- The sources of a scan tell what those of the whole engine tell. -/
theorem sources_tell (h : set.Damaged engine.segments) (hwhole : engine.segments.Intact)
    (interval : Interval) :
    List.Forall₂ Item.Tells
      (({ engine with segments := set }.viewOf interval).sources { engine with segments := set })
      (((engine.viewOf interval).layers engine).map
        (·.filter fun entry => interval.contains entry.key)) := by
  have htables : ∀ tables : List Memtable, List.Forall₂ Item.Tells
      (tables.map fun table => (table.entriesIn interval).map .ok)
      (tables.map fun table => table.entries.filter fun entry => interval.contains entry.key) :=
    fun tables => by
      rw [List.forall₂_map_left_iff, List.forall₂_map_right_iff, List.forall₂_same]
      exact fun table _ => table.entriesIn_eq_filter interval ▸ Item.tells_ok _
  have hsegments := SegmentSet.itemsIn_damaged interval h hwhole
  rw [Snapshot.layers, List.map_append, List.map_map, List.map_map]
  exact List.rel_append (htables _) hsegments

/-- **A scan of a damaged engine tells what is live**, up to its first error. -/
theorem items_tell (h : set.Damaged engine.segments) (hwhole : engine.segments.Intact)
    (hlive : (Contents.ofEntries engine.entries).Lists live) (interval : Interval) :
    Item.Tells
      (({ engine with segments := set }.viewOf interval).items { engine with segments := set })
      (live.filter fun entry => interval.contains entry.key) := by
  refine drain_live_merge_tells ?_ (sources_tell h hwhole interval) ?_
  · rintro _ hes
    obtain ⟨other, hother, rfl⟩ := List.mem_map.mp hes
    exact (Snapshot.ascending_layers hwhole.readable hother).filter _
  · rw [← items_viewOf hwhole.readable hlive interval, Snapshot.items, Snapshot.stream,
      Snapshot.sources_eq hwhole.readable]
    rfl

/-- A scan is refused by both engines, or by none of them. -/
theorem scan_tells (h : set.Damaged engine.segments) (hwhole : engine.segments.Intact)
    (interval : Interval) :
    ({ engine with segments := set }.snapshot interval = .error .closed ∧
        engine.snapshot interval = .error .closed) ∨
      ∃ (view other : Snapshot) (es : List Entry),
        { engine with segments := set }.snapshot interval = .ok view ∧
        engine.snapshot interval = .ok other ∧ other.items engine = es.map .ok ∧
        Item.Tells (view.items { engine with segments := set }) es := by
  by_cases hclosed : engine.closed = true
  · exact .inl ⟨by simp [snapshot, hclosed], by simp [snapshot, hclosed]⟩
  · have hopen : engine.closed = false := by simpa using hclosed
    obtain ⟨live, hlive⟩ := @Snapshot.lists_entries (engine.viewOf interval) hwhole.readable engine
    rw [entries_viewOf] at hlive
    exact .inr ⟨_, _, _, @snapshot_eq_viewOf { engine with segments := set } hopen interval,
      snapshot_eq_viewOf hopen interval, items_viewOf hwhole.readable hlive interval,
      items_tell h hwhole hlive interval⟩

/-- Counting collects all items of a scan. -/
theorem count_eq_collect (engine : Engine) :
    engine.count = List.length <$> (engine.items >>= Item.collect) := by
  unfold count
  cases engine.items with
  | error e => rfl
  | ok found =>
    simp only [bind, Except.bind]
    cases Item.collect found <;> rfl

/-- Looking whether there is anything collects the first item of a scan. -/
theorem isEmpty_eq_collect (engine : Engine) :
    engine.isEmpty =
      List.isEmpty <$> (engine.items >>= fun found => Item.collect (found.take 1)) := by
  unfold isEmpty items snapshot
  split
  · rfl
  · simp only [bind, Except.bind, Functor.map, Except.map, Snapshot.items]
    split
    · rename_i hnext
      rw [ItemStream.drain_of_none hnext]
      rfl
    all_goals
      rename_i hnext
      rw [ItemStream.drain_of_some hnext]
      rfl

/-! ## All reads -/

/-- Every read tells what it tells of the whole engine, or that a file is damaged.  A scan tells this
in the place of some item: what it has told until then is right, and if it does not tell it, nothing
is left out. -/
structure ReadsHonestly (damaged whole : Engine) : Prop where
  lookup : ∀ key, Honest (damaged.lookup key) (whole.lookup key)
  contains : ∀ key, Honest (damaged.contains key) (whole.contains key)
  range : ∀ start stop,
    (damaged.range start stop = .error .closed ∧ whole.range start stop = .error .closed) ∨
      ∃ (found : List Item) (es : List Entry), damaged.range start stop = .ok found ∧
        whole.range start stop = .ok (es.map .ok) ∧
        (found = es.map .ok ∨ ∃ (front : List Entry) (cause : Corruption) (back : List Item)
          (rest : List Entry), es = front ++ rest ∧
            found = front.map .ok ++ .error (.corrupt cause) :: back)
  count : Honest damaged.count whole.count
  isEmpty : Honest damaged.isEmpty whole.isEmpty

/-- **A key is found as in the whole engine, or its segment is known to be damaged.** -/
theorem honest_lookup (h : set.Damaged engine.segments) (hwhole : engine.segments.Intact)
    (key : Bytes) : Honest ({ engine with segments := set }.lookup key) (engine.lookup key) := by
  have hmemtables : { engine with segments := set }.memtables = engine.memtables := rfl
  unfold lookup
  split
  · exact .refl _
  · refine Honest.map _ ?_
    unfold newest?
    rw [hmemtables]
    split
    · exact .refl _
    · exact SegmentSet.lookupIn_damaged key h hwhole

/-- **Collecting the first items of a scan, or all of them, goes honestly.** -/
theorem honest_collect (h : set.Damaged engine.segments) (hwhole : engine.segments.Intact)
    (part : List Item → List Item) (hpart : ∀ found es, Item.Tells found es →
      Honest (Item.collect (part found)) (Item.collect (part (es.map .ok)))) :
    Honest ({ engine with segments := set }.items >>= fun found => Item.collect (part found))
      (engine.items >>= fun found => Item.collect (part found)) := by
  unfold items
  rcases scan_tells h hwhole {} with ⟨hfound, hall⟩ | ⟨view, other, es, hfound, hall, hes, htells⟩
  · rw [hfound, hall]
    exact .refl _
  · rw [hfound, hall]
    change Honest (Item.collect (part (view.items _))) (Item.collect (part (other.items engine)))
    rw [hes]
    exact hpart _ _ htells

/-- **No read of a damaged engine tells anything wrong.** -/
theorem honest_of_damaged (engine : Engine) {set : SegmentSet} (h : set.Damaged engine.segments)
    (hwhole : engine.segments.Intact) :
    ReadsHonestly { engine with segments := set } engine where
  lookup := honest_lookup h hwhole
  contains key := (honest_lookup h hwhole key).map _
  range start stop := by
    unfold range
    rcases scan_tells h hwhole (.between start stop) with
      ⟨hfound, hall⟩ | ⟨view, other, es, hfound, hall, hes, htells⟩
    · exact .inl ⟨by rw [hfound]; rfl, by rw [hall]; rfl⟩
    · refine .inr ⟨_, es, by rw [hfound]; rfl, by rw [hall, ← hes]; rfl, ?_⟩
      rcases htells.eq_or_cut with heq | ⟨front, back, cause, rest, hes, hcut⟩
      · exact .inl heq
      · exact .inr ⟨front, cause, back, rest, hes, hcut⟩
  count := by
    rw [count_eq_collect, count_eq_collect]
    refine (honest_collect h hwhole id fun found es htells => ?_).map List.length
    exact (Item.collect_ok es).symm ▸ htells.collect
  isEmpty := by
    rw [isEmpty_eq_collect, isEmpty_eq_collect]
    refine (honest_collect h hwhole (List.take 1) fun found es htells => ?_).map List.isEmpty
    rw [← List.map_take, Item.collect_ok]
    exact (htells.take 1).collect

/-! ## A tombstone that is lost

The older of two segments has a value for the only key, and the newer one deletes it.  The slot of the
tombstone is damaged. -/

/-- The segment with the tombstone, its only slot overwritten. -/
def lostTombstone : Segment :=
  ⟨2, Store.tombstoneSegment.path, Store.tombstoneSegment.image.setIfInBounds 16 0, ⟨.v0, 1⟩, rfl⟩

/-- The set with the damaged segment. -/
def lostSet : SegmentSet := ⟨[lostTombstone, Store.valueSegment], by
  simp [lostTombstone, Store.valueSegment]⟩

theorem damaged_lostSet : lostSet.Damaged Store.deletedSet := by
  refine .cons ⟨rfl, fun pos hpos => ?_⟩ (.cons (.refl _) .nil)
  obtain rfl : pos = 0 := Nat.lt_one_iff.mp hpos
  exact .inr ⟨⟨.corrupt (.invalidOffset 0), rfl⟩, .inr ⟨.corrupt (.invalidOffset 0), rfl⟩⟩

/-- The engine with the two segments. -/
def deletedEngine : Engine :=
  { settings := {}, store := Store.deletedStore, segments := Store.deletedSet }

theorem lookup_deletedEngine : deletedEngine.lookup [107] = .ok none := by
  have hentries : Contents.ofEntries deletedEngine.entries = Store.deletedSet.contents := by
    simp [entries, memtables, deletedEngine, SegmentSet.contents, Contents.ofSegments,
      SegmentSet.entries]
  have hintact : deletedEngine.segments.Intact := Store.filed_deletedSet.intact
  rw [lookup_eq_live? rfl hintact.readable, hentries, Store.contents_deletedSet]
  rfl

/-- The deleted key does not come up again, although its value can still be read. -/
theorem honest_of_lost :
    ReadsHonestly { deletedEngine with segments := lostSet } deletedEngine ∧
      Honest ({ deletedEngine with segments := lostSet }.lookup [107]) (.ok none) := by
  have hreads := honest_of_damaged deletedEngine damaged_lostSet Store.filed_deletedSet.intact
  have hlookup := hreads.lookup [107]
  rw [lookup_deletedEngine] at hlookup
  exact ⟨hreads, hlookup⟩

end LsmTree.Engine
