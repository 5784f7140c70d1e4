import LsmTree.Proofs.Store.Steps

/-!
# Proofs/Store/Load — what opening a folder finds

Opening a folder removes its leftovers and opens its segments, in whatever order it lists its entries
(`Store.loadListed_eq`).  If it is well formed this succeeds with the segments that the folder
mirrors, and takes away nothing but unfinished files (`Store.load_wellFormed`).  The one reason to fail is a segment of the
greatest priority, above which the store has none to deal out.  So a store that lost its memory
finds what its folder stores (`Store.load_of_stores`).
-/

namespace LsmTree.Store

variable {fs after : FileSystem} {folder : Path} {place : Place} {name : String}
  {priority : Priority} {children others : List (String × Node)}

/-! ## What is listed -/

/-- An entry of a folder is listed as a segment if it is a file with the name of one. -/
theorem listed_segment_iff {node : Node} :
    (match node.isFile, StoreFile.ofName? name with
      | true, some (.segment priority) => some priority
      | _, _ => none) = some priority ↔
      ∃ image, node = .file image ∧ StoreFile.ofName? name = some (.segment priority) := by
  rcases node with image | _ | target
  · rcases StoreFile.ofName? name with _ | _ | _ <;> simp [Node.isFile]
  · simp [Node.isFile]
  · simp [Node.isFile]

/-- An entry of a folder is listed as unfinished if it is a file with such a name. -/
theorem listed_unfinished_iff {node : Node} {other : String} :
    (match node.isFile, StoreFile.ofName? name with
      | true, some (.unfinished _) => some name
      | _, _ => none) = some other ↔
      ∃ image priority, node = .file image ∧
        StoreFile.ofName? name = some (.unfinished priority) ∧ name = other := by
  rcases node with image | _ | target
  · rcases StoreFile.ofName? name with _ | _ | _ <;> simp [Node.isFile]
  · simp [Node.isFile]
  · simp [Node.isFile]

theorem mem_unfinishedNames :
    name ∈ unfinishedNames (fs.children place) ↔
      ∃ image priority, StoreFile.ofName? name = some (.unfinished priority) ∧
        fs.node? (place ++ [name]) = some (.file image) := by
  rw [unfinishedNames, List.mem_filterMap]
  constructor
  · rintro ⟨⟨other, node⟩, hmem, h⟩
    obtain ⟨image, priority, rfl, hread, rfl⟩ := listed_unfinished_iff.mp h
    exact ⟨image, priority, hread, (fs.mem_children_iff place _ _).mp hmem⟩
  · rintro ⟨image, priority, hread, hnode⟩
    exact ⟨(name, .file image), (fs.mem_children_iff place name _).mpr hnode,
      listed_unfinished_iff.mpr ⟨image, priority, rfl, hread, rfl⟩⟩

theorem mem_segmentPriorities :
    priority ∈ segmentPriorities (fs.children place) ↔
      ∃ name image, StoreFile.ofName? name = some (.segment priority) ∧
        fs.node? (place ++ [name]) = some (.file image) := by
  rw [segmentPriorities, List.mem_filterMap]
  constructor
  · rintro ⟨⟨name, node⟩, hmem, h⟩
    obtain ⟨image, rfl, hread⟩ := listed_segment_iff.mp h
    exact ⟨name, image, hread, (fs.mem_children_iff place _ _).mp hmem⟩
  · rintro ⟨name, image, hread, hnode⟩
    exact ⟨(name, .file image), (fs.mem_children_iff place name _).mpr hnode,
      listed_segment_iff.mpr ⟨image, rfl, hread⟩⟩

theorem nodup_unfinishedNames : (unfinishedNames (fs.children place)).Nodup := by
  rw [List.nodup_iff_pairwise_ne, unfinishedNames, List.pairwise_filterMap]
  refine (fs.pairwise_children place).imp ?_
  rintro ⟨name, node⟩ ⟨name', node'⟩ hne other hother other' hother' rfl
  obtain ⟨-, -, -, -, rfl⟩ := listed_unfinished_iff.mp hother
  obtain ⟨-, -, -, -, rfl⟩ := listed_unfinished_iff.mp hother'
  exact hne rfl

/-- Where the store's names are kept, no two files read as one segment. -/
theorem nodup_segmentPriorities (h : fs.Canonical place) :
    (segmentPriorities (fs.children place)).Nodup := by
  rw [List.nodup_iff_pairwise_ne, segmentPriorities, List.pairwise_filterMap]
  refine (fs.pairwise_children place).imp_of_mem ?_
  rintro ⟨name, node⟩ ⟨name', node'⟩ hmem hmem' hne priority hpriority _ hpriority' rfl
  obtain ⟨image, rfl, hread⟩ := listed_segment_iff.mp hpriority
  obtain ⟨image', rfl, hread'⟩ := listed_segment_iff.mp hpriority'
  rw [FileSystem.mem_children_iff] at hmem hmem'
  exact hne ((h _ _ _ hmem hread).trans (h _ _ _ hmem' hread').symm)

theorem unfinishedNames_perm (h : children.Perm others) :
    (unfinishedNames children).Perm (unfinishedNames others) := h.filterMap _

theorem segmentPriorities_perm (h : children.Perm others) :
    (segmentPriorities children).Perm (segmentPriorities others) := h.filterMap _

/-! ## Leftovers -/

/-- What is at a place is an unfinished file of a store in the folder. -/
def Leftover (fs : FileSystem) (folder other : Place) : Prop :=
  ∃ name image priority, other = folder ++ [name] ∧
    StoreFile.ofName? name = some (.unfinished priority) ∧ fs.node? other = some (.file image)

/-- The second file system is the first without the leftovers in a folder. -/
structure Cleared (fs after : FileSystem) (folder : Place) : Prop where
  kept : ∀ other, ¬ Leftover fs folder other → after.node? other = fs.node? other
  gone : ∀ other, Leftover fs folder other → after.node? other = none

theorem mem_map_unfinishedNames {other : Place} :
    other ∈ (unfinishedNames (fs.children place)).map (place ++ [·]) ↔ Leftover fs place other := by
  rw [List.mem_map]
  constructor
  · rintro ⟨name, hname, rfl⟩
    obtain ⟨image, priority, hread, hnode⟩ := mem_unfinishedNames.mp hname
    exact ⟨name, image, priority, rfl, hread, hnode⟩
  · rintro ⟨name, image, priority, rfl, hread, hnode⟩
    exact ⟨name, mem_unfinishedNames.mpr ⟨image, priority, hread, hnode⟩, rfl⟩

/-- **Leftovers that were removed are gone**, and nothing else is. -/
theorem cleared_of_perform (hfolder : fs.directoryAt folder = .ok place)
    (hlisted : children.Perm (fs.children place))
    (hperform : fs.perform ((unfinishedNames children).map
      fun name => .remove (folder ++ [name])) = (.ok (), after)) :
    after.directoryAt folder = .ok place ∧ Cleared fs after place := by
  have hnames := unfinishedNames_perm hlisted
  obtain ⟨hdirectory, hafter⟩ := FileSystem.node?_of_perform_removes hfolder (fun name hname => by
    obtain ⟨image, priority, hread, hnode⟩ := mem_unfinishedNames.mp (hnames.mem_iff.mp hname)
    refine ⟨StoreFile.isName_of_ofName? hread, fun node hother => ?_⟩
    rw [hnode] at hother
    exact Option.some.inj hother ▸ rfl) hperform
  have hleft (other : Place) : other ∈ (unfinishedNames children).map (place ++ [·]) ↔
      Leftover fs place other := (hnames.map _).mem_iff.trans mem_map_unfinishedNames
  refine ⟨hdirectory, fun other hother => ?_, fun other hother => ?_⟩
  · rw [hafter, if_neg (mt (hleft other).mp hother)]
  · rw [hafter, if_pos ((hleft other).mpr hother)]

/-- **Leftovers can be removed**, in whatever order they are listed. -/
theorem perform_unfinished (hfolder : fs.directoryAt folder = .ok place)
    (hlisted : children.Perm (fs.children place))
    (hshort : ∀ name ∈ unfinishedNames (fs.children place),
      name.utf8ByteSize ≤ Path.maxNameBytes) :
    ∃ after, fs.perform ((unfinishedNames children).map
      fun name => .remove (folder ++ [name])) = (.ok (), after) := by
  have hnames := unfinishedNames_perm hlisted
  refine FileSystem.perform_remove_names hfolder (hnames.nodup_iff.mpr nodup_unfinishedNames)
    fun name hname => ?_
  have hmem := hnames.mem_iff.mp hname
  obtain ⟨image, priority, hread, hnode⟩ := mem_unfinishedNames.mp hmem
  exact ⟨StoreFile.isName_of_ofName? hread, hshort name hmem, image, hnode⟩

/-- What is still there is no leftover, and was there before. -/
theorem Cleared.of_some (h : Cleared fs after place) {other : Place} {node : Node}
    (hnode : after.node? other = some node) :
    ¬Leftover fs place other ∧ fs.node? other = some node := by
  by_cases hleft : Leftover fs place other
  · rw [h.gone other hleft] at hnode
    cases hnode
  · exact ⟨hleft, h.kept other hleft ▸ hnode⟩

theorem Cleared.segment (h : Cleared fs after place)
    (hname : StoreFile.ofName? name = some (.segment priority)) :
    after.node? (place ++ [name]) = fs.node? (place ++ [name]) := by
  refine h.kept _ ?_
  rintro ⟨other, image, priority', heq, hother, -⟩
  obtain rfl : name = other := by simpa using heq
  simp [hname] at hother

theorem Cleared.tidy (h : Cleared fs after place) (other : Place) :
    ¬Leftover after place other := by
  rintro ⟨name, image, priority, rfl, hread, hnode⟩
  obtain ⟨hleft, hthere⟩ := h.of_some hnode
  exact hleft ⟨name, image, priority, rfl, hread, hthere⟩

theorem Cleared.within (h : Cleared fs after place) : after.Within fs :=
  fun _ _ _ hnode => (h.of_some hnode).2

/-- Leftovers are files, so all directories and links stay. -/
theorem Cleared.keeps (h : Cleared fs after place) : FileSystem.Keeps after fs place := by
  refine FileSystem.Within.keeps fun other node hnode hthere => (h.kept other ?_).trans hthere
  rintro ⟨name, image, priority, rfl, -, hfile⟩
  obtain rfl := Option.some.inj (hthere.symm.trans hfile)
  cases hnode

/-! ## Opening the segments -/

/-- **Segments are opened one after the other**, if each can be. -/
theorem loadAll_of_load {priorities : List Priority}
    (h : ∀ priority ∈ priorities,
      ∃ s, Segment.load fs ((StoreFile.segment priority).path folder) priority = .ok s) :
    ∃ segments, loadAll fs folder priorities = .ok segments := by
  induction priorities with
  | nil => exact ⟨[], rfl⟩
  | cons priority rest ih =>
    obtain ⟨s, hs⟩ := h priority List.mem_cons_self
    obtain ⟨older, holder⟩ := ih fun other hother => h other (List.mem_cons_of_mem _ hother)
    exact ⟨s :: older, bind_eq_ok_iff.mpr ⟨s, hs, bind_eq_ok_iff.mpr ⟨older, holder, rfl⟩⟩⟩

/-- **What was opened has the priorities asked for**, in their order. -/
theorem spec_of_loadAll {priorities : List Priority} {segments : List Segment}
    (h : loadAll fs folder priorities = .ok segments) :
    segments.map (·.priority) = priorities ∧ ∀ s ∈ segments,
      fs.map ((StoreFile.segment s.priority).path folder) = .ok s.image ∧
        s.path = (StoreFile.segment s.priority).path folder := by
  induction priorities generalizing segments with
  | nil =>
    obtain rfl : [] = segments := Except.ok.inj h
    simp
  | cons priority rest ih =>
    obtain ⟨s, hload, hlater⟩ := bind_eq_ok_iff.mp h
    obtain ⟨older, holder, hall⟩ := bind_eq_ok_iff.mp hlater
    obtain rfl : s :: older = segments := Except.ok.inj hall
    obtain ⟨himage, rfl, hpath⟩ := Segment.load_eq_ok_iff.mp hload
    obtain ⟨hpriorities, hrest⟩ := ih holder
    exact ⟨congrArg _ hpriorities, List.forall_mem_cons.mpr ⟨⟨himage, hpath⟩, hrest⟩⟩

/-- Every segment that was asked for was opened. -/
theorem load_of_loadAll {priorities : List Priority} {segments : List Segment}
    (h : loadAll fs folder priorities = .ok segments) (hpriority : priority ∈ priorities) :
    ∃ s ∈ segments, s.priority = priority ∧
      Segment.load fs ((StoreFile.segment priority).path folder) priority = .ok s := by
  obtain ⟨hpriorities, hspec⟩ := spec_of_loadAll h
  rw [← hpriorities] at hpriority
  obtain ⟨s, hs, rfl⟩ := List.mem_map.mp hpriority
  obtain ⟨himage, hpath⟩ := hspec s hs
  exact ⟨s, hs, rfl, Segment.load_eq_ok_iff.mpr ⟨himage, rfl, hpath⟩⟩

theorem loadAll_congr {priorities : List Priority}
    (h : ∀ priority ∈ priorities, after.map ((StoreFile.segment priority).path folder) =
      fs.map ((StoreFile.segment priority).path folder)) :
    loadAll after folder priorities = loadAll fs folder priorities := by
  induction priorities with
  | nil => rfl
  | cons priority rest ih =>
    rw [loadAll, loadAll, ih fun other hother => h other (List.mem_cons_of_mem _ hother),
      Segment.load, Segment.load, h priority List.mem_cons_self]

/-- Segments that were opened from files have these as their content. -/
theorem file_of_loadAll (hfolder : fs.directoryAt folder = .ok place) {priorities : List Priority}
    {segments : List Segment} (hopen : loadAll fs folder priorities = .ok segments)
    (h : ∀ priority ∈ priorities, ∃ image,
      fs.node? (place ++ [(StoreFile.segment priority).name]) = some (.file image)) :
    ∀ s ∈ segments,
      fs.node? (place ++ [(StoreFile.segment s.priority).name]) = some (.file s.image) := by
  obtain ⟨hpriorities, hspec⟩ := spec_of_loadAll hopen
  intro s hs
  obtain ⟨image, hnode⟩ := h s.priority (hpriorities ▸ List.mem_map_of_mem hs)
  obtain rfl : s.image = image :=
    Except.ok.inj ((hspec s hs).1.symm.trans (FileSystem.map_file hfolder hnode))
  exact hnode

/-! ## Opening a folder -/

/-- **Where the store's names are kept every listed segment has its file**, and every file is
listed. -/
theorem mem_listed_iff (h : fs.Canonical place) :
    priority ∈ Priority.newestFirst id (segmentPriorities (fs.children place)) ↔
      ∃ image, fs.node? (place ++ [(StoreFile.segment priority).name]) = some (.file image) := by
  rw [Priority.mem_newestFirst, mem_segmentPriorities]
  constructor
  · rintro ⟨name, image, hname, hnode⟩
    exact ⟨image, h name image priority hnode hname ▸ hnode⟩
  · rintro ⟨image, hnode⟩
    exact ⟨_, image, StoreFile.ofName?_name _, hnode⟩

/-- Segments with the files of all that is listed are what the folder mirrors. -/
theorem mirrors_of_listed (h : fs.Canonical place) {segments : List Segment}
    (hlisted : segments.map (·.priority) =
      Priority.newestFirst id (segmentPriorities (fs.children place)))
    (hfiles : ∀ s ∈ segments,
      fs.node? (place ++ [(StoreFile.segment s.priority).name]) = some (.file s.image)) :
    fs.Mirrors place segments := by
  intro name image priority hname
  constructor
  · intro hnode
    obtain rfl := h name image priority hnode hname
    have hmem : priority ∈ segments.map (·.priority) :=
      hlisted ▸ (mem_listed_iff h).mpr ⟨image, hnode⟩
    obtain ⟨s, hs, rfl⟩ := List.mem_map.mp hmem
    have hfile := hfiles s hs
    rw [hnode] at hfile
    exact ⟨rfl, s, hs, rfl, (Node.file.inj (Option.some.inj hfile)).symm⟩
  · rintro ⟨rfl, s, hs, rfl, rfl⟩
    exact hfiles s hs

/-- Segments that were opened from all that is listed are what the folder mirrors, the newest
first. -/
theorem mirrors_of_loadAll (hfolder : fs.directoryAt folder = .ok place) (h : fs.Canonical place)
    {segments : List Segment}
    (hopen : loadAll fs folder
      (Priority.newestFirst id (segmentPriorities (fs.children place))) = .ok segments) :
    (SegmentSet.ofList segments).segments = segments ∧
      (segments.Pairwise fun a b => b.priority < a.priority) ∧ fs.Mirrors place segments := by
  obtain ⟨hpriorities, -⟩ := spec_of_loadAll hopen
  have hpairwise := Priority.pairwise_lt_newestFirst (nodup_segmentPriorities h)
  rw [← hpriorities, List.pairwise_map] at hpairwise
  exact ⟨SegmentSet.segments_ofList (hpairwise.imp UInt64.le_of_lt), hpairwise,
    mirrors_of_listed h hpriorities
      (file_of_loadAll hfolder hopen fun priority => (mem_listed_iff h).mp)⟩

/-- Opening ends by dealing out priorities above the newest. -/
theorem loadSegments_eq {priorities : List Priority} {segments : List Segment}
    (h : loadAll fs folder (Priority.newestFirst id priorities) = .ok segments) :
    loadSegments fs folder priorities =
      (fun counter => (⟨folder, counter⟩, SegmentSet.ofList segments)) <$>
        Counter.after (SegmentSet.ofList segments).newestPriority? := by
  rw [loadSegments, h]
  simp only [bind, Except.bind]
  cases Counter.after (SegmentSet.ofList segments).newestPriority? <;> rfl

/-- A folder that is there is opened with the entries it lists. -/
theorem load_of_directoryAt (hfolder : fs.directoryAt folder = .ok place) :
    load folder fs = loadListed folder (fs.children place) fs := by
  rw [load, FileSystem.makeDirectories_of_directoryAt hfolder]
  simp only [FileSystem.list_of_directoryAt hfolder]

/-- **A folder without leftovers is opened as it is.** -/
theorem load_of_tidy (hfolder : fs.directoryAt folder = .ok place)
    (htidy : ∀ other, ¬Leftover fs place other) :
    load folder fs = (loadSegments fs folder (segmentPriorities (fs.children place)), fs) := by
  have hnone : (unfinishedNames (fs.children place)).map (place ++ [·]) = [] :=
    List.eq_nil_iff_forall_not_mem.mpr fun other hmem =>
      htidy other (mem_map_unfinishedNames.mp hmem)
  simp only [load_of_directoryAt hfolder, loadListed, List.map_eq_nil_iff.mp hnone, List.map_nil,
    FileSystem.perform_nil]

/-- **Without the leftovers the same segments are opened**, in whatever order they are listed. -/
theorem Cleared.loadSegments_eq (hcleared : Cleared fs after place)
    (hfolder : fs.directoryAt folder = .ok place) (hafter : after.directoryAt folder = .ok place)
    (h : fs.Canonical place) {priorities : List Priority}
    (hlisted : priorities.Perm (segmentPriorities (fs.children place))) :
    loadSegments after folder priorities =
      loadSegments fs folder (segmentPriorities (fs.children place)) := by
  rw [loadSegments, loadSegments, Priority.newestFirst_eq_of_perm hlisted, loadAll_congr]
  intro priority hpriority
  obtain ⟨image, hnode⟩ := (mem_listed_iff h).mp hpriority
  have hkept := hcleared.segment (StoreFile.ofName?_name (.segment priority))
  rw [FileSystem.map_file hfolder hnode, FileSystem.map_file hafter (hkept.trans hnode)]

/-- **Opening removes the leftovers** and opens the segments, in whatever order the folder lists its
entries. -/
theorem loadListed_eq (hfolder : fs.directoryAt folder = .ok place) (h : fs.Canonical place)
    (hlisted : children.Perm (fs.children place))
    (hshort : ∀ name ∈ unfinishedNames (fs.children place),
      name.utf8ByteSize ≤ Path.maxNameBytes) :
    ∃ after, loadListed folder children fs =
        (loadSegments fs folder (segmentPriorities (fs.children place)), after) ∧
      after.directoryAt folder = .ok place ∧ Cleared fs after place := by
  obtain ⟨after, hperform⟩ := perform_unfinished hfolder hlisted hshort
  obtain ⟨hafter, hcleared⟩ := cleared_of_perform hfolder hlisted hperform
  refine ⟨after, ?_, hafter, hcleared⟩
  simp only [loadListed, hperform]
  rw [hcleared.loadSegments_eq hfolder hafter h (segmentPriorities_perm hlisted)]

/-- **A well-formed folder opens with the segments it mirrors**, unless one has the greatest
priority of all. -/
theorem load_wellFormed (hfolder : fs.directoryAt folder = .ok place) (h : fs.WellFormed place) :
    ∃ (set : SegmentSet) (after : FileSystem),
      load folder fs =
        ((fun counter => (⟨folder, counter⟩, set)) <$> Counter.after set.newestPriority?, after) ∧
      Cleared fs after place ∧ after.directoryAt folder = .ok place ∧
      Segment.Filed folder set.segments ∧ fs.Mirrors place set.segments := by
  obtain ⟨after, hload, hafter, hcleared⟩ :=
    loadListed_eq hfolder h.canonical (.refl _) fun name hname => by
      obtain ⟨image, priority, -, hnode⟩ := mem_unfinishedNames.mp hname
      exact h.short name (by simp [hnode])
  obtain ⟨segments, hopen⟩ := loadAll_of_load fun priority hpriority => by
    obtain ⟨image, hnode⟩ := (mem_listed_iff h.canonical).mp hpriority
    obtain ⟨es, htable, rfl⟩ := h.whole image priority hnode
    exact ⟨.ofTable priority _ htable,
      Segment.load_eq_ok_iff.mpr ⟨FileSystem.map_file hfolder hnode, rfl, rfl⟩⟩
  obtain ⟨hsegments, hdescending, hmirrors⟩ := mirrors_of_loadAll hfolder h.canonical hopen
  refine ⟨.ofList segments, after, ?_, hcleared, hafter, ?_, hsegments.symm ▸ hmirrors⟩
  · rw [load_of_directoryAt hfolder, hload, loadSegments_eq hopen]
  · rw [hsegments]
    refine ⟨fun s hs => ?_, fun s hs => ((spec_of_loadAll hopen).2 s hs).2, hdescending⟩
    obtain ⟨es, htable, himage⟩ := h.whole _ _ (hmirrors.file hs)
    exact Segment.intact_of_image htable himage

/-- **What was opened is the store's**, and its folder stores it. -/
theorem stores_of_load {store : Store} {set : SegmentSet}
    (hfolder : fs.directoryAt folder = .ok place) (h : fs.WellFormed place)
    (hload : load folder fs = (.ok (store, set), after)) :
    store.folder = folder ∧ 0 < store.counter.next ∧ store.Owns set.segments ∧
      Cleared fs after place ∧ after.Stores folder place set.segments := by
  obtain ⟨set', after', hload', hcleared, hafter, hfiled, hmirrors⟩ := load_wellFormed hfolder h
  rw [hload'] at hload
  obtain ⟨hresult, rfl⟩ := Prod.mk.inj hload
  obtain ⟨counter, hcounter, hopened⟩ := map_eq_ok_iff.mp hresult
  obtain ⟨rfl, rfl⟩ := Prod.mk.inj hopened
  refine ⟨rfl, (Counter.spec_after hcounter).1, ⟨hfiled, SegmentSet.below_of_after hcounter⟩, hcleared,
    hfiled, hafter, hmirrors.congr fun name priority hname => hcleared.segment hname,
    fun name hnode => h.short name fun hnone => hnode ?_⟩
  by_cases hleft : Leftover fs place (place ++ [name])
  · exact hcleared.gone _ hleft
  · rw [hcleared.kept _ hleft, hnone]

/-- **A folder that is opened again is found with the segments it stores.** -/
theorem load_of_stores (set : SegmentSet) (h : fs.Stores folder place set.segments) :
    ∃ after, load folder fs =
        ((fun counter => (⟨folder, counter⟩, set)) <$> Counter.after set.newestPriority?, after) ∧
      Cleared fs after place := by
  obtain ⟨set', after, hload, hcleared, -, hfiled, hmirrors⟩ :=
    load_wellFormed h.directory h.wellFormed
  have hset : set' = set := SegmentSet.ext (h.unique hfiled hmirrors)
  exact ⟨after, hset ▸ hload, hcleared⟩

/-! ## What a reader finds afterwards -/

/-- The folder opens, and its segments answer every look-up as the set does. -/
def Reopens (fs : FileSystem) (folder : Path) (set : SegmentSet) : Prop :=
  ∃ store reopened after, load folder fs = (.ok (store, reopened), after) ∧
    ∀ key, reopened.answer key = set.answer key

/-- **With priorities left a folder opens** with what it stores. -/
theorem load_eq_of_stores (set : SegmentSet) (h : fs.Stores folder place set.segments)
    (hroom : ∀ s ∈ set.segments, s.priority.toNat + 1 < UInt64.size) :
    ∃ counter after, load folder fs = (.ok (⟨folder, counter⟩, set), after) := by
  obtain ⟨counter, hcounter⟩ := SegmentSet.exists_after_iff.mpr hroom
  obtain ⟨after, hload, -⟩ := load_of_stores set h
  rw [hcounter] at hload
  exact ⟨counter, after, hload⟩

/-- **A folder answers as a set does** if its segments have the same contents, and none of them the
greatest priority. -/
theorem reopens_iff {segments : List Segment} {set : SegmentSet}
    (h : fs.Stores folder place segments) (hset : set.Intact) :
    Reopens fs folder set ↔
      (∀ s ∈ segments, s.priority.toNat + 1 < UInt64.size) ∧
        Contents.ofSegments segments = set.contents := by
  let stored : SegmentSet := ⟨segments, h.filed.descending.imp UInt64.le_of_lt⟩
  have hintact : stored.Intact := h.filed.intact
  have hfiled : Segment.Filed folder stored.segments := h.filed
  obtain ⟨after, hload, -⟩ := load_of_stores stored h
  constructor
  · rintro ⟨store, reopened, other, hreopen, hanswer⟩
    rw [hload] at hreopen
    obtain ⟨hresult, -⟩ := Prod.mk.inj hreopen
    obtain ⟨counter, hcounter, hopened⟩ := map_eq_ok_iff.mp hresult
    obtain ⟨-, rfl⟩ := Prod.mk.inj hopened
    exact ⟨SegmentSet.exists_after_iff.mp ⟨counter, hcounter⟩,
      (hintact.answer_eq_iff hset).mp hanswer⟩
  · rintro ⟨hall, hcontents⟩
    obtain ⟨counter, cleared, hopens⟩ := load_eq_of_stores stored h hall
    exact ⟨⟨folder, counter⟩, stored, cleared, hopens, (hintact.answer_eq_iff hset).mpr hcontents⟩

end LsmTree.Store
