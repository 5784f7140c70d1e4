import LsmTree.Proofs.Engine.Steps
import LsmTree.Proofs.Store.Commute

/-!
# Proofs/Engine/Erasure — what a compaction leaves behind

A compaction that goes well leaves one segment, of the live entries, or none if nothing is live.  In
the folder there is no other file of the store then, so what was overwritten or deleted is gone for
good; and since there was nothing older, nothing that was hidden comes up again.  A reader sees no
difference, and a second compaction finds nothing to do (`Engine.erased_of_mergeSegments`).
-/

namespace LsmTree.Engine

variable {engine after : Engine} {files later : FileSystem} {place : Place} {live : List Entry}

/-- An open engine whose segments are the only files of a store in its folder, below the next
priority. -/
structure Mirrored (engine : Engine) (files : FileSystem) (place : Place) : Prop where
  isOpen : engine.closed = false
  stores : files.Stores engine.store.folder place engine.segments.segments
  below : ∀ s ∈ engine.segments.segments, s.priority < engine.store.counter.next
  linkFree : files.LinkFree place
  finished : ∀ name priority image, StoreFile.ofName? name = some (.unfinished priority) →
    files.node? (place ++ [name]) ≠ some (.file image)

/-- The set holds the entries in one segment, which has the lowest priority, or there are no entries
and no segment. -/
structure Sole (set : SegmentSet) (live : List Entry) : Prop where
  small : set.size < 2
  entries_eq : set.entries = live
  lowest : ∀ s ∈ set.segments, s.priority = .lowest
  empty_iff : set.segments = [] ↔ live = []

/-- Nothing but the given live entries of an engine is left on disk, and a reader sees no
difference. -/
structure Erased (engine after : Engine) (later : FileSystem) (place : Place) (live : List Entry) :
    Prop where
  lists : engine.segments.contents.Lists live
  /-- no entry that is left was overwritten or deleted -/
  newest : ∀ e ∈ live, engine.segments.lookup e.key = .ok (some e)
  empty_iff : after.segments.segments = [] ↔ ∀ key, engine.segments.contents key = none
  single : ∀ s ∈ after.segments.segments, after.segments.segments = [s] ∧ s.priority = .lowest ∧
    s.items = live.map .ok
  /-- the only file of a store, if there is one -/
  file_iff : ∀ name file image, StoreFile.ofName? name = some file →
    (later.node? (place ++ [name]) = some (.file image) ↔ after.segments.segments ≠ [] ∧
      name = (StoreFile.segment .lowest).name ∧ image = Segment.encode live)
  memtables_eq : after.memtables = engine.memtables
  contents_eq : after.segments.contents = engine.segments.contents
  shows : ∃ m, engine.Shows m ∧ after.Shows m
  again : after.mergeSegments later = (.ok (), after, later)

/-! ## The set that is left -/

variable {set : SegmentSet} {folder : Path} {s : Segment}

/-- The output of a compaction makes up such a set. -/
theorem sole_of_output {output : Option Segment} (hset : set.segments = output.toList)
    (hentries : output.toList.flatMap Segment.entries = live) (hnone : output = none ↔ live = [])
    (hlowest : ∀ s ∈ output, s.priority = .lowest) : Sole set live where
  small := by
    rw [SegmentSet.size, hset]
    cases output <;> simp
  entries_eq := by rw [SegmentSet.entries, hset, hentries]
  lowest s hs := hlowest s (by simpa [hset] using hs)
  empty_iff := by
    rw [hset, ← hnone]
    cases output <;> simp

theorem Sole.single (h : Sole set live) (hs : s ∈ set.segments) :
    set.segments = [s] ∧ s.entries = live := by
  have hlength : set.segments.length = 1 :=
    Nat.le_antisymm (Nat.le_of_lt_succ h.small) (List.length_pos_of_mem hs)
  obtain ⟨other, hother⟩ := List.length_eq_one_iff.mp hlength
  obtain rfl : s = other := by simpa [hother] using hs
  have hentries := h.entries_eq
  rw [SegmentSet.entries, hother, List.flatMap_singleton] at hentries
  exact ⟨hother, hentries⟩

/-- **The only file of a store** is that of the only segment, if there are no unfinished files. -/
theorem Sole.file_iff (h : Sole set live) (hstores : later.Stores folder place set.segments)
    (hfinished : ∀ name priority image, StoreFile.ofName? name = some (.unfinished priority) →
      later.node? (place ++ [name]) ≠ some (.file image))
    {name : String} {file : StoreFile} {image : Image} (hname : StoreFile.ofName? name = some file) :
    later.node? (place ++ [name]) = some (.file image) ↔
      set.segments ≠ [] ∧ name = (StoreFile.segment .lowest).name ∧ image = Segment.encode live := by
  have himage : ∀ s ∈ set.segments, s.image = Segment.encode live := fun s hs =>
    (h.single hs).2 ▸ (hstores.filed.intact s hs).image_eq
  cases file with
  | segment priority =>
    rw [hstores.mirrors name image priority hname]
    constructor
    · rintro ⟨rfl, s, hs, rfl, rfl⟩
      exact ⟨List.ne_nil_of_mem hs, by rw [h.lowest s hs], himage s hs⟩
    · rintro ⟨hsome, rfl, rfl⟩
      obtain ⟨s, hs⟩ := List.exists_mem_of_ne_nil _ hsome
      obtain rfl : priority = .lowest := by simpa [StoreFile.ofName?_name] using hname.symm
      exact ⟨rfl, s, hs, h.lowest s hs, himage s hs⟩
  | unfinished priority =>
    refine iff_of_false (hfinished name priority image hname) ?_
    rintro ⟨-, rfl, -⟩
    simp [StoreFile.ofName?_name] at hname

/-! ## Compacting twice -/

/-- **A compaction that goes well** leaves its output, and its output alone. -/
theorem Mirrored.sole (h : engine.Mirrored files place) (hsize : 2 ≤ engine.countSegments)
    (hlive : engine.segments.liveEntries = .ok live) (hascending : Entry.Ascending live)
    (hmerge : engine.mergeSegments files = (.ok (), after, later)) :
    ∃ (store : Store) (set : SegmentSet), after = { engine with store, segments := set } ∧
      Sole set live ∧ later.Stores engine.store.folder place set.segments ∧
      FileSystem.Beside later files place := by
  have hlinks := h.linkFree.unlinked h.stores.directory
  have howns : engine.store.Owns engine.segments.segments := ⟨h.stores.filed, h.below⟩
  have hends := @Store.compact_stores engine.store files place engine.segments [] live h.stores
    h.linkFree h.below hsize hlive hascending
  unfold mergeSegments at hmerge
  rw [if_neg (by simp [h.isOpen])] at hmerge
  rcases hends with ⟨output, done, hcompact, hentries, hstores, hbeside⟩ | ⟨e, done, hcompact, -⟩ |
    ⟨e, done, htable, hcompact, -⟩ <;> rw [hcompact] at hmerge
  · obtain ⟨rfl, rfl⟩ := Prod.mk.inj (Prod.mk.inj hmerge).2
    obtain ⟨-, -, -, hlowest⟩ := Store.filed_of_compact howns hlinks hlive hascending hcompact
    have hset := SegmentSet.segments_replace engine.segments output
    exact ⟨_, _, rfl,
      sole_of_output hset hentries (Store.output_eq_none_iff hcompact hlive) hlowest,
      hset ▸ hstores, hbeside⟩
  · cases (Prod.mk.inj hmerge).1
  · cases (Prod.mk.inj hmerge).1

/-- No unfinished file appears. -/
theorem Mirrored.finished_of_beside (h : engine.Mirrored files place)
    (hbeside : FileSystem.Beside later files place) (name : String) (priority : Priority)
    (image : Image) (hname : StoreFile.ofName? name = some (.unfinished priority)) :
    later.node? (place ++ [name]) ≠ some (.file image) := by
  intro hnode
  rcases hbeside.unfinished name priority hname with heq | hnone
  · exact h.finished name priority image hname (heq ▸ hnode)
  · cases hnone.symm.trans hnode

/-- **A compaction that goes well erases history**, and doing it again changes nothing. -/
theorem erased_of_mergeSegments (h : engine.Mirrored files place)
    (hsize : 2 ≤ engine.countSegments)
    (hmerge : engine.mergeSegments files = (.ok (), after, later)) :
    ∃ live, engine.Erased after later place live := by
  have hintact : engine.segments.Intact := h.stores.filed.intact
  obtain ⟨live, hlive, hlists⟩ := hintact.liveEntries
  obtain ⟨store, set, rfl, hsole, hstores, hbeside⟩ :=
    h.sole hsize hlive hlists.ascending hmerge
  have hcontents : set.contents = engine.segments.contents :=
    (congrArg Contents.ofEntries hsole.entries_eq).trans hlists.ofEntries_eq
  refine ⟨live, {
    lists := hlists
    newest := fun e he => ?_
    empty_iff := hsole.empty_iff.trans hlists.eq_nil_iff
    single := fun s hs => ?_
    file_iff := fun name file image hname =>
      hsole.file_iff hstores (h.finished_of_beside hbeside) hname
    memtables_eq := rfl
    contents_eq := hcontents
    shows := ⟨_, Engine.shows h.isOpen hintact.readable, ?_⟩
    again := @mergeSegments_of_small { engine with store, segments := set } hsole.small later }⟩
  · rw [hintact.lookup]
    exact congrArg Except.ok (hlists.first?_of_mem he)
  · obtain ⟨hset, hentries⟩ := hsole.single hs
    refine ⟨hset, hsole.lowest s hs, ?_⟩
    rw [← hentries]
    exact (hstores.filed.intact s hs).holds.items
  · have hentries : Contents.ofEntries ({ engine with store, segments := set } : Engine).entries =
        .ofEntries engine.entries := Contents.ofEntries_append_congr hcontents
    exact hentries ▸ Engine.shows h.isOpen (SegmentSet.Intact.readable hstores.filed.intact)

/-! ## A value that was written twice

Two segments with one value of one key; the older one goes without a trace. -/

/-- The engine with the two segments. -/
def pairEngine : Engine :=
  { settings := {}, store := Store.blockedStore, segments := Store.blockedInputs }

theorem mirrored_pairEngine : pairEngine.Mirrored Store.pairFiles ["store"] where
  isOpen := rfl
  stores := Store.stores_pairFiles
  below := by
    simp [pairEngine, Store.blockedInputs, Store.singleSegment, Store.blockedStore]
  linkFree := Store.plain_pairFiles.linkFree
  finished name priority image hname hnode := by
    rw [Store.pairFiles, FileSystem.node?_put _ _ _ (by simp), FileSystem.node?_put _ _ _ (by simp),
      FileSystem.node?_ofFolder] at hnode
    have hsegment : ∀ other, name ≠ (StoreFile.segment other).name := by
      rintro other rfl
      simp [StoreFile.ofName?_name] at hname
    simp [hsegment] at hnode

/-- One of the two is left, and no second compaction changes that. -/
theorem erased_pairEngine :
    ∃ after later, pairEngine.mergeSegments Store.pairFiles = (.ok (), after, later) ∧
      pairEngine.Erased after later ["store"] [⟨[97], some [49]⟩] := by
  have hintact : Store.blockedInputs.Intact := Store.filed_blockedInputs.intact
  obtain ⟨live, hentries, hlive⟩ := hintact.liveEntries
  obtain rfl := hlive.unique Store.lists_blockedInputs
  obtain ⟨output, later, hcompact, -⟩ := @Store.compact_plain Store.blockedStore Store.pairFiles
    ["store"] Store.blockedInputs [] _ Store.stores_pairFiles Store.plain_pairFiles
    mirrored_pairEngine.below (by decide) hentries hlive.ascending (Store.table_byte 97 49).fits
  have hmerge := @mergeSegments_of_compact pairEngine _ _ rfl _ _ hcompact
  obtain ⟨live, herased⟩ := erased_of_mergeSegments mirrored_pairEngine (by decide) hmerge
  obtain rfl := herased.lists.unique Store.lists_blockedInputs
  exact ⟨_, later, hmerge, herased⟩

end LsmTree.Engine
