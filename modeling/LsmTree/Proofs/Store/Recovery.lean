import LsmTree.Proofs.Store.FileName
import LsmTree.Proofs.Store.Load

/-!
# Proofs/Store/Recovery — what opening any folder comes to

A folder may hold files, directories and links under whatever names.  Opening it succeeds exactly if
every file of a finished segment has a header that can be read, and none of them has the greatest
priority; the set then holds one segment for each such file, the newest first, and the next priority
is one above them.  In either case unfinished files are taken away, and all else stays as it is
(`Store.load_recovers`).  Regular files with zeros in front of their number are left out there: their
segment would be opened by a name that is not theirs, and may keep the folder from opening
(`Store.not_opened_of_padded`).
-/

namespace LsmTree

variable {fs after : FileSystem} {folder : Path} {place : Place} {name : String}
  {priority : Priority} {priorities : List Priority} {store : Store} {set : SegmentSet}

namespace FileSystem

/-! ## Numbers without zeros in front -/

/-- No regular file in the folder has zeros in front of its number. -/
def Unpadded (fs : FileSystem) (place : Place) : Prop :=
  ∀ (file : StoreFile) zeros image,
    fs.node? (place ++ [file.paddedName (zeros + 1)]) ≠ some (.file image)

/-- Then a file of the store has the name that the store gives it. -/
theorem Unpadded.name_eq (h : fs.Unpadded place) {file : StoreFile} {image : Image}
    (hread : StoreFile.ofName? name = some file)
    (hnode : fs.node? (place ++ [name]) = some (.file image)) : name = file.name :=
  StoreFile.eq_name_of_ofName? hread fun zeros heq => h file zeros image (heq ▸ hnode)

theorem Unpadded.canonical (h : fs.Unpadded place) : fs.Canonical place :=
  fun _ _ _ hnode hread => h.name_eq hread hnode

theorem Unpadded.short (h : fs.Unpadded place)
    (hname : name ∈ Store.unfinishedNames (fs.children place)) :
    name.utf8ByteSize ≤ Path.maxNameBytes := by
  obtain ⟨image, priority, hread, hnode⟩ := Store.mem_unfinishedNames.mp hname
  rw [h.name_eq hread hnode]
  exact StoreFile.utf8ByteSize_name_le _

/-- What the store names itself has no such zeros. -/
theorem Unpadded.put (h : fs.Unpadded place) (file : StoreFile) (node : Node) :
    (fs.put (place ++ [file.name]) node).Unpadded place := by
  intro other zeros image
  have hne := (file.name_ne_paddedName other zeros).symm
  rw [node?_put fs _ _ (by simp), if_neg (by simpa using hne)]
  exact h other zeros image

theorem unpadded_ofFolder (name : String) : (ofFolder name).Unpadded [name] := by
  intro file zeros image hnode
  simp [node?_ofFolder] at hnode

/-- **What is left of interrupted writes** are the files named as unfinished ones. -/
theorem Unpadded.leftover_iff (h : fs.Unpadded place) {other : Place} :
    Store.Leftover fs place other ↔
      ∃ priority image, other = place ++ [(StoreFile.unfinished priority).name] ∧
        fs.node? other = some (.file image) := by
  constructor
  · rintro ⟨name, image, priority, rfl, hread, hnode⟩
    exact ⟨priority, image, by rw [h.name_eq hread hnode], hnode⟩
  · rintro ⟨priority, image, rfl, hnode⟩
    exact ⟨_, image, priority, rfl, StoreFile.ofName?_name _, hnode⟩

end FileSystem

namespace Store

/-! ## Which listings open -/

/-- **Segments open together** if each of them opens, and none has the greatest priority. -/
theorem exists_loadSegments_iff :
    (∃ opened, loadSegments fs folder priorities = .ok opened) ↔
      ∀ priority ∈ priorities,
        (∃ s, Segment.load fs ((StoreFile.segment priority).path folder) priority = .ok s) ∧
          priority.toNat + 1 < UInt64.size := by
  constructor
  · rintro ⟨opened, hopened⟩ priority hpriority
    obtain ⟨segments, hsegments, hrest⟩ := bind_eq_ok_iff.mp hopened
    obtain ⟨counter, hcounter, -⟩ := bind_eq_ok_iff.mp hrest
    obtain ⟨s, hs, rfl, hload⟩ :=
      load_of_loadAll hsegments ((Priority.mem_newestFirst id).mpr hpriority)
    exact ⟨⟨s, hload⟩,
      SegmentSet.exists_after_iff.mp ⟨counter, hcounter⟩ s (SegmentSet.mem_ofList.mpr hs)⟩
  · intro h
    obtain ⟨segments, hsegments⟩ := loadAll_of_load fun priority hpriority =>
      (h priority ((Priority.mem_newestFirst id).mp hpriority)).1
    have hlisted : ∀ s ∈ segments, s.priority ∈ priorities := fun s hs => by
      rw [← Priority.mem_newestFirst id, ← (spec_of_loadAll hsegments).1]
      exact List.mem_map_of_mem hs
    obtain ⟨counter, hcounter⟩ := SegmentSet.exists_after_iff.mpr fun s hs =>
      (h s.priority (hlisted s (SegmentSet.mem_ofList.mp hs))).2
    exact ⟨_, (loadSegments_eq hsegments).trans (map_eq_ok_iff.mpr ⟨counter, hcounter, rfl⟩)⟩

/-! ## What opening a folder comes to -/

/-- A store and its segments are what the folder holds: one segment for each file of one, with its
content, the newest first, and the next priority above them. -/
structure Recovered (fs : FileSystem) (folder : Path) (place : Place) (store : Store)
    (set : SegmentSet) : Prop where
  folder_eq : store.folder = folder
  file_iff : ∀ priority image,
    fs.node? (place ++ [(StoreFile.segment priority).name]) = some (.file image) ↔
      ∃ s ∈ set.segments, s.priority = priority ∧ s.image = image
  path_eq : ∀ s ∈ set.segments, s.path = (StoreFile.segment s.priority).path folder
  descending : set.segments.Pairwise fun a b => b.priority < a.priority
  next : (set.segments = [] ∧ store.counter.next = 1) ∨
    ∃ newest ∈ set.segments, (∀ s ∈ set.segments, s.priority ≤ newest.priority) ∧
      store.counter.next.toNat = newest.priority.toNat + 1

/-- What opening a folder comes to, whether it succeeds or not. -/
structure Recovery (fs : FileSystem) (folder : Path) (place : Place)
    (result : Except Error (Store × SegmentSet)) (after : FileSystem) : Prop where
  /-- the folder opens if the header of each segment's file can be read, and a priority is left
  above it -/
  opens_iff : (∃ opened, result = .ok opened) ↔ ∀ priority image,
    fs.node? (place ++ [(StoreFile.segment priority).name]) = some (.file image) →
      (∃ header, Header.decode image = .ok header) ∧ priority.toNat + 1 < UInt64.size
  opened : ∀ store set, result = .ok (store, set) → Recovered fs folder place store set
  /-- the files of unfinished segments are taken away -/
  gone : ∀ priority image,
    fs.node? (place ++ [(StoreFile.unfinished priority).name]) = some (.file image) →
      after.node? (place ++ [(StoreFile.unfinished priority).name]) = none
  /-- all else stays as it is -/
  kept : ∀ other, (∀ priority image, other = place ++ [(StoreFile.unfinished priority).name] →
    fs.node? other ≠ some (.file image)) → after.node? other = fs.node? other
  again : load folder after = (result, after)

/-- **A folder opens** if the header of each segment's file can be read, and none of the segments
has the greatest priority. -/
theorem exists_opened_iff (hfolder : fs.directoryAt folder = .ok place)
    (hcanonical : fs.Canonical place) :
    (∃ opened, loadSegments fs folder (segmentPriorities (fs.children place)) = .ok opened) ↔
      ∀ priority image,
        fs.node? (place ++ [(StoreFile.segment priority).name]) = some (.file image) →
          (∃ header, Header.decode image = .ok header) ∧ priority.toNat + 1 < UInt64.size := by
  rw [exists_loadSegments_iff]
  refine forall_congr' fun priority => ?_
  rw [← Priority.mem_newestFirst id, mem_listed_iff hcanonical, forall_exists_index]
  refine forall_congr' fun image => forall_congr' fun hnode => and_congr_left fun _ => ?_
  rw [Segment.exists_load_iff, FileSystem.map_file hfolder hnode]
  simp

/-- **What was opened is what the folder holds.** -/
theorem recovered_of_loadSegments (hfolder : fs.directoryAt folder = .ok place)
    (hcanonical : fs.Canonical place)
    (h : loadSegments fs folder (segmentPriorities (fs.children place)) = .ok (store, set)) :
    Recovered fs folder place store set := by
  obtain ⟨segments, hopen, hrest⟩ := bind_eq_ok_iff.mp h
  obtain ⟨counter, hcounter, hopened⟩ := bind_eq_ok_iff.mp hrest
  obtain ⟨rfl, rfl⟩ := Prod.mk.inj (Except.ok.inj hopened)
  obtain ⟨hset, hdescending, hmirrors⟩ := mirrors_of_loadAll hfolder hcanonical hopen
  refine ⟨rfl, fun priority image => ?_, ?_, ?_, SegmentSet.next_of_after hcounter⟩ <;> rw [hset]
  · exact hmirrors.file_iff
  · exact fun s hs => ((spec_of_loadAll hopen).2 s hs).2
  · exact hdescending

/-- Without the leftovers the same segments are listed. -/
theorem Cleared.perm_segmentPriorities (h : Cleared fs after place)
    (hcanonical : fs.Canonical place) :
    (segmentPriorities (after.children place)).Perm (segmentPriorities (fs.children place)) := by
  have hkept : after.Canonical place := fun name image priority hnode =>
    hcanonical name image priority (h.of_some hnode).2
  refine (List.perm_ext_iff_of_nodup (nodup_segmentPriorities hkept)
    (nodup_segmentPriorities hcanonical)).mpr fun priority => ?_
  simp only [mem_segmentPriorities]
  refine exists_congr fun name => exists_congr fun image => and_congr_right fun hread => ?_
  rw [h.segment hread]

/-- **A folder is opened in whatever order it lists its entries**, with one outcome. -/
theorem recovery_of_listed {children : List (String × Node)}
    (hfolder : fs.directoryAt folder = .ok place) (hplain : fs.Unpadded place)
    (hlisted : children.Perm (fs.children place)) :
    ∃ after, loadListed folder children fs =
        (loadSegments fs folder (segmentPriorities (fs.children place)), after) ∧
      Recovery fs folder place (loadSegments fs folder (segmentPriorities (fs.children place)))
        after := by
  have hcanonical := hplain.canonical
  obtain ⟨after, hload, hafter, hcleared⟩ :=
    loadListed_eq hfolder hcanonical hlisted fun name => hplain.short
  refine ⟨after, hload, ⟨exists_opened_iff hfolder hcanonical,
    fun store set => recovered_of_loadSegments hfolder hcanonical, fun priority image hnode => ?_,
    fun other hother => hcleared.kept other fun hleft => ?_, ?_⟩⟩
  · exact hcleared.gone _ (hplain.leftover_iff.mpr ⟨priority, image, rfl, hnode⟩)
  · obtain ⟨priority, image, heq, hnode⟩ := hplain.leftover_iff.mp hleft
    exact hother priority image heq hnode
  · rw [load_of_tidy hafter hcleared.tidy, hcleared.loadSegments_eq hfolder hafter hcanonical
      (hcleared.perm_segmentPriorities hcanonical)]

/-- **Any folder opens with exactly its finished segments**, in whatever order it lists its entries,
or does not open; either way its unfinished files are gone and all else is as it was, and opening it
again comes to the same. -/
theorem load_recovers (hfolder : fs.directoryAt folder = .ok place) (hplain : fs.Unpadded place) :
    ∃ result,
      (∃ after, load folder fs = (result, after) ∧ Recovery fs folder place result after) ∧
      ∀ children, children.Perm (fs.children place) →
        ∃ after, loadListed folder children fs = (result, after) ∧
          Recovery fs folder place result after := by
  refine ⟨_, ?_, fun children hlisted => recovery_of_listed hfolder hplain hlisted⟩
  rw [load_of_directoryAt hfolder]
  exact recovery_of_listed hfolder hplain (.refl _)

/-! ### A folder with all kinds of entries

There is the file of a segment, that of an unfinished one, and a link with the name of a newer
segment. -/

/-- The content of the segment's file: no entries, and a byte too many. -/
def bareImage : Image := (Header.encode ⟨.v0, 0⟩ ++ [7]).toArray

/-- The folder. -/
def mixedFiles : FileSystem :=
  (((FileSystem.ofFolder "store").put (["store"] ++ [(StoreFile.segment 4).name])
    (.file bareImage)).put
    (["store"] ++ [(StoreFile.unfinished 5).name]) (.file #[])).put
    (["store"] ++ [(StoreFile.segment 6).name]) (.link ["elsewhere"])

theorem node?_mixedFiles (file : StoreFile) :
    mixedFiles.node? (["store"] ++ [file.name]) =
      if file = .segment 6 then some (.link ["elsewhere"])
      else if file = .unfinished 5 then some (.file #[])
      else if file = .segment 4 then some (.file bareImage) else none := by
  simp [mixedFiles, FileSystem.node?_put, FileSystem.node?_ofFolder, StoreFile.name_inj]

theorem directoryAt_mixedFiles : mixedFiles.directoryAt ["store"] = .ok ["store"] := by
  refine FileSystem.directoryAt_of_within (fun other node _ hnode => ?_)
    (@FileSystem.directoryAt_ofFolder "store" (by decide) (by decide))
  rw [FileSystem.node?_ofFolder, Option.ite_none_right_eq_some] at hnode
  obtain ⟨rfl | rfl, hnode⟩ := hnode <;>
    simpa [mixedFiles, FileSystem.node?_put, FileSystem.node?_ofFolder] using hnode

/-- Only the file of the segment counts as one. -/
theorem recovers_mixedFiles :
    ∃ store set after, load ["store"] mixedFiles = (.ok (store, set), after) ∧
      (∀ s ∈ set.segments, s.priority = 4 ∧ s.image = bareImage) ∧ store.counter.next = 5 ∧
      after.node? (["store"] ++ [(StoreFile.unfinished 5).name]) = none ∧
      after.node? (["store"] ++ [(StoreFile.segment 6).name]) = some (.link ["elsewhere"]) := by
  have hplain : mixedFiles.Unpadded ["store"] :=
    (((FileSystem.unpadded_ofFolder "store").put _ _).put _ _).put _ _
  obtain ⟨result, ⟨after, hload, hrecovery⟩, -⟩ := load_recovers directoryAt_mixedFiles hplain
  have hfile : ∀ priority image,
      mixedFiles.node? (["store"] ++ [(StoreFile.segment priority).name]) = some (.file image) ↔
        priority = 4 ∧ image = bareImage := fun priority image => by
    rw [node?_mixedFiles]
    by_cases hlink : priority = 6
    · simp [hlink]
    · simp [hlink, eq_comm]
  obtain ⟨⟨store, set⟩, rfl⟩ := hrecovery.opens_iff.mpr fun priority image hnode => by
    obtain ⟨rfl, rfl⟩ := (hfile priority image).mp hnode
    exact ⟨⟨⟨.v0, 0⟩, by decide⟩, by decide⟩
  have hopened := hrecovery.opened store set rfl
  have honly : ∀ s ∈ set.segments, s.priority = 4 ∧ s.image = bareImage := fun s hs =>
    (hfile _ _).mp ((hopened.file_iff _ _).mpr ⟨s, hs, rfl, rfl⟩)
  refine ⟨store, set, after, hload, honly, ?_, ?_, ?_⟩
  · obtain ⟨s, hs, -⟩ := (hopened.file_iff 4 bareImage).mp ((hfile _ _).mpr ⟨rfl, rfl⟩)
    rcases hopened.next with ⟨hempty, -⟩ | ⟨newest, hnewest, -, hnext⟩
    · simp [hempty] at hs
    · rw [(honly newest hnewest).1] at hnext
      exact UInt64.toNat_inj.mp hnext
  · exact hrecovery.gone 5 #[] ((node?_mixedFiles (.unfinished 5)).trans rfl)
  · rw [hrecovery.kept _ (by simp [StoreFile.name_inj]), node?_mixedFiles, if_pos rfl]

/-! ## Zeros in front of a number -/

/-- **A segment's file with zeros in front of its number keeps the folder from opening**, if the
name without them is free: it is opened by that name. -/
theorem not_opened_of_padded {image : Image} {zeros : Nat}
    (hfolder : fs.directoryAt folder = .ok place)
    (hpadded : fs.node? (place ++ [(StoreFile.segment priority).paddedName zeros]) =
      some (.file image))
    (hfree : fs.node? (place ++ [(StoreFile.segment priority).name]) = none) :
    ∀ opened, (load folder fs).1 ≠ .ok opened := by
  rw [load_of_directoryAt hfolder]
  unfold loadListed
  intro opened hopened
  split at hopened
  · cases hopened
  · rename_i after hperform
    obtain ⟨hafter, hcleared⟩ := cleared_of_perform hfolder (.refl _) hperform
    have hmem : priority ∈ segmentPriorities (fs.children place) :=
      mem_segmentPriorities.mpr ⟨_, image, StoreFile.ofName?_paddedName _ zeros, hpadded⟩
    obtain ⟨⟨s, hload⟩, -⟩ := exists_loadSegments_iff.mp ⟨opened, hopened⟩ priority hmem
    have hnone : after.node? (place ++ [(StoreFile.segment priority).name]) = none :=
      (hcleared.segment (StoreFile.ofName?_name _)).trans hfree
    have hnode := FileSystem.node?_of_map hafter (StoreFile.isName_name _)
      (StoreFile.utf8ByteSize_name_le _) (by simp [hnone]) (Segment.load_eq_ok_iff.mp hload).1
    cases hnone.symm.trans hnode

end Store

end LsmTree
