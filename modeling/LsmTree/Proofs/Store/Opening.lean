import LsmTree.Proofs.Store.Load

/-!
# Proofs/Store/Opening — what any folder that opens holds

To open, a folder need not be well formed: a segment's file may hold whatever its header admits, and
a file whose number has leading zeros counts for the file without them.  A folder **serves** the
segments that opening it finds (`FileSystem.Serves`).  What was opened is served
(`Store.serves_of_load`), and what is served is found again, if there is a priority above it
(`FileSystem.Serves.load`).
-/

namespace LsmTree

/-- Opening the folder finds the given segments: each has its file, every file of a finished segment
is for one of them, and nothing is left of an interrupted write. -/
structure FileSystem.Serves (fs : FileSystem) (folder : Path) (place : Place)
    (segments : List Segment) : Prop where
  directory : fs.directoryAt folder = .ok place
  linkFree : fs.LinkFree place
  path_eq : ∀ s ∈ segments, s.path = (StoreFile.segment s.priority).path folder
  file : ∀ s ∈ segments,
    fs.node? (place ++ [(StoreFile.segment s.priority).name]) = some (.file s.image)
  listed : ∀ name image priority, StoreFile.ofName? name = some (.segment priority) →
    fs.node? (place ++ [name]) = some (.file image) → ∃ s ∈ segments, s.priority = priority
  tidy : ∀ name image priority, StoreFile.ofName? name = some (.unfinished priority) →
    fs.node? (place ++ [name]) ≠ some (.file image)

variable {fs loaded : FileSystem} {folder : Path} {place : Place} {segments : List Segment}
  {store : Store} {set : SegmentSet} {priority : Priority}

namespace Store

/-! ## What was opened -/

/-- **An opened store** came from a folder without its leftovers, and its counter starts above the
newest segment. -/
theorem opened_of_load (h : load folder fs = (.ok (store, set), loaded)) :
    store.folder = folder ∧ Counter.after set.newestPriority? = .ok store.counter ∧
      ∃ (made : FileSystem) (place : Place) (segments : List Segment),
        made.directoryAt folder = .ok place ∧
        made.perform ((unfinishedNames (made.children place)).map
          fun name => .remove (folder ++ [name])) = (.ok (), loaded) ∧
        loadAll loaded folder
          (Priority.newestFirst id (segmentPriorities (made.children place))) = .ok segments ∧
        set = .ofList segments := by
  unfold load at h
  split at h
  · cases h
  rename_i made _
  split at h
  · cases h
  rename_i children hlist
  obtain ⟨place, hfolder, rfl⟩ := map_eq_ok_iff.mp hlist
  unfold loadListed at h
  split at h
  · cases h
  rename_i cleared hperform
  obtain ⟨hopen, rfl⟩ := Prod.mk.inj h
  obtain ⟨segments, hsegments, hrest⟩ := bind_eq_ok_iff.mp hopen
  obtain ⟨counter, hcounter, hopened⟩ := bind_eq_ok_iff.mp hrest
  obtain ⟨rfl, rfl⟩ := Prod.mk.inj (Except.ok.inj hopened)
  exact ⟨rfl, hcounter, made, place, segments, hfolder, hperform, hsegments, rfl⟩

/-- **A folder serves what it was opened with**, if no name of the store is a link there. -/
theorem serves_of_load (h : load folder fs = (.ok (store, set), loaded))
    (hfolder : loaded.directoryAt folder = .ok place) (hlinks : loaded.LinkFree place) :
    loaded.Serves folder place set.segments := by
  obtain ⟨-, -, made, place', segments, hmade, hperform, hopen, rfl⟩ := opened_of_load h
  obtain ⟨hloaded, hcleared⟩ := cleared_of_perform hmade (.refl _) hperform
  obtain rfl : place' = place := Except.ok.inj (hloaded.symm.trans hfolder)
  obtain ⟨hpriorities, hfiles⟩ := spec_of_loadAll hopen
  refine ⟨hfolder, hlinks, fun s hs => ?_, fun s hs => ?_, fun name image priority hname hnode => ?_,
    fun name image priority hname hnode => ?_⟩
  · exact (hfiles s (SegmentSet.mem_ofList.mp hs)).2
  · exact FileSystem.node?_of_map hfolder (StoreFile.isName_name _)
      (StoreFile.utf8ByteSize_name_le _) (hlinks _) (hfiles s (SegmentSet.mem_ofList.mp hs)).1
  · have hmem : priority ∈ segments.map (·.priority) := by
      rw [hpriorities, Priority.mem_newestFirst]
      exact mem_segmentPriorities.mpr ⟨name, image, hname, (hcleared.of_some hnode).2⟩
    obtain ⟨s, hs, hpriority⟩ := List.mem_map.mp hmem
    exact ⟨s, SegmentSet.mem_ofList.mpr hs, hpriority⟩
  · obtain ⟨hkept, hthere⟩ := hcleared.of_some hnode
    exact hkept ⟨name, image, priority, rfl, hname, hthere⟩

end Store

/-! ## Opening again -/

namespace FileSystem.Serves

theorem map (h : fs.Serves folder place segments) {s : Segment} (hs : s ∈ segments) :
    fs.map ((StoreFile.segment s.priority).path folder) = .ok s.image :=
  map_file h.directory (h.file s hs)

/-- The priorities that are listed are those of the segments. -/
theorem mem_segmentPriorities (h : fs.Serves folder place segments) :
    priority ∈ Store.segmentPriorities (fs.children place) ↔ ∃ s ∈ segments, s.priority = priority := by
  rw [Store.mem_segmentPriorities]
  constructor
  · rintro ⟨name, image, hname, hnode⟩
    exact h.listed name image priority hname hnode
  · rintro ⟨s, hs, rfl⟩
    exact ⟨_, s.image, StoreFile.ofName?_name _, h.file s hs⟩

/-- **What is served is found again**, and nothing changes. -/
theorem load (h : fs.Serves folder place segments) :
    ∃ set : SegmentSet, (∀ s, s ∈ set.segments ↔ s ∈ segments) ∧
      Store.load folder fs =
        ((fun counter => (⟨folder, counter⟩, set)) <$> Counter.after set.newestPriority?, fs) := by
  obtain ⟨opened, hopen⟩ := @Store.loadAll_of_load fs folder
    (Priority.newestFirst id (Store.segmentPriorities (fs.children place))) fun priority hmem => by
      obtain ⟨s, hs, rfl⟩ := h.mem_segmentPriorities.mp ((Priority.mem_newestFirst id).mp hmem)
      exact ⟨s, Segment.load_eq_ok_iff.mpr ⟨h.map hs, rfl, h.path_eq s hs⟩⟩
  obtain ⟨hpriorities, hfiles⟩ := Store.spec_of_loadAll hopen
  have hlisted : ∀ priority, priority ∈ opened.map (·.priority) ↔
      ∃ s ∈ segments, s.priority = priority := fun priority => by
    rw [hpriorities, Priority.mem_newestFirst, h.mem_segmentPriorities]
  -- a priority has one file, so it stands for one segment
  have hsame : ∀ s ∈ segments, ∀ t ∈ opened, s.priority = t.priority → s = t := by
    intro s hs t ht hpriority
    obtain ⟨himage, hpath⟩ := hfiles t ht
    rw [← hpriority] at himage hpath
    exact Segment.ext_image hpriority ((h.path_eq s hs).trans hpath.symm)
      (Except.ok.inj ((h.map hs).symm.trans himage))
  refine ⟨.ofList opened, fun s => SegmentSet.mem_ofList.trans ⟨fun hs => ?_, fun hs => ?_⟩, ?_⟩
  · obtain ⟨t, ht, hpriority⟩ := (hlisted s.priority).mp (List.mem_map_of_mem hs)
    exact hsame t ht s hs hpriority ▸ ht
  · obtain ⟨t, ht, hpriority⟩ := List.mem_map.mp ((hlisted s.priority).mpr ⟨s, hs, rfl⟩)
    exact (hsame s hs t ht hpriority.symm).symm ▸ ht
  · rw [Store.load_of_tidy h.directory, Store.loadSegments_eq hopen]
    rintro _ ⟨name, image, priority, rfl, hname, hnode⟩
    exact h.tidy name image priority hname hnode

end FileSystem.Serves

end LsmTree
