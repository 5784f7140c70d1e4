import LsmTree.Proofs.Store.Steps

/-!
# Proofs/Store/Save — what saving entries leaves

A save that goes well makes a segment whose file holds just the entries (`Store.spec_of_save`),
whatever else is in the folder.  Where the folder stores known segments, a save adds the new one or
changes none of them (`Store.save_stores`); only a directory in the way of one of its two files, or
entries that are too many for a file, can make it fail.  What it changes is known exactly for each of
these ends (`Store.save_directory`, `Store.save_oversize`, `Store.save_stuck`, `Store.save_done`).
-/

namespace LsmTree

/-- Where the folder leads to, no unfinished file of a store is a link. -/
def FileSystem.Unlinked (fs : FileSystem) (folder : Path) : Prop :=
  ∀ place, fs.directoryAt folder = .ok place → ∀ priority target,
    fs.node? (place ++ [(StoreFile.unfinished priority).name]) ≠ some (.link target)

/-- Where no name of a store is a link, no unfinished file is. -/
theorem FileSystem.LinkFree.unlinked {fs : FileSystem} {folder : Path} {place : Place}
    (h : fs.LinkFree place) (hfolder : fs.directoryAt folder = .ok place) : fs.Unlinked folder := by
  intro other hother priority target
  obtain rfl : place = other := Except.ok.inj (hfolder.symm.trans hother)
  exact h (.unfinished priority) target

namespace Store

variable {store after : Store} {fs files : FileSystem} {entries : List Entry} {place : Place}
  {segments : List Segment} {s : Segment}

open FileSystem

/-! ## What a result tells -/

/-- **Saving takes a priority**, whether it goes well or not. -/
theorem store_save (store : Store) (entries : List Entry) (fs : FileSystem) :
    (store.save entries fs).2.1 = if entries.isEmpty then store else store.advance := by
  unfold save
  split
  · rfl
  · dsimp only
    split
    · rfl
    · split <;> rfl

theorem save_nil (store : Store) (fs : FileSystem) :
    store.save [] fs = (.ok none, store, fs) := rfl

theorem eq_nil_of_save (h : store.save entries fs = (.ok none, after, files)) : entries = [] := by
  unfold save at h
  split at h
  · rename_i hempty
    exact List.isEmpty_iff.mp hempty
  · dsimp only at h
    split at h
    · cases h
    · split at h
      · cases h
      · obtain ⟨segment, -, hsome⟩ := map_eq_ok_iff.mp (Prod.mk.inj h).1
        cases hsome

theorem write_of_writeSegment {path : Path} {size : Nat}
    (h : fs.writeSegment path entries = (.ok size, files)) :
    Segment.encodedSize entries < Word.signBit ∧
      fs.write path (Segment.encode entries) = .ok files := by
  unfold writeSegment at h
  split at h
  · rename_i hfits
    refine ⟨hfits, ?_⟩
    cases hwrite : fs.write path (Segment.encode entries) with
    | error cause => simp [perform, apply, hwrite] at h
    | ok written =>
      obtain ⟨-, rfl⟩ : _ ∧ written = files := by simpa [perform, apply, hwrite] using h
      rfl
  · split at h <;> cases h

/-- **A segment that is opened is the file of its name**, whatever else was taken away since its
folder was found. -/
theorem spec_of_load {base : FileSystem} {folder : Path} {file : StoreFile} {priority : Priority}
    {image : Image} (hwithin : fs.Within base) (hfolder : base.directoryAt folder = .ok place)
    (hnode : fs.node? (place ++ [file.name]) = some (.file image))
    (h : Segment.load fs (file.path folder) priority = .ok s) :
    s.priority = priority ∧ s.path = file.path folder ∧ s.image = image := by
  obtain ⟨hmap, hpriority, hpath⟩ := Segment.load_eq_ok_iff.mp h
  obtain ⟨other, hother⟩ := directoryAt_of_map (StoreFile.isName_name file) hmap
  obtain rfl := hwithin.place_eq hother hfolder
  exact ⟨hpriority, hpath, Except.ok.inj (hmap.symm.trans (map_file hother hnode))⟩

/-- **A save that goes well is two steps**: a file is written, and takes the segment's name.  Then
it is opened. -/
theorem perform_of_save (h : store.save entries fs = (.ok (some s), after, files)) :
    Segment.encodedSize entries < Word.signBit ∧
      Segment.load files (store.pathOf (.segment store.counter.next)) store.counter.next = .ok s ∧
      after = store.advance ∧
      fs.perform [.write (store.pathOf (.unfinished store.counter.next)) (Segment.encode entries),
        .rename (store.pathOf (.unfinished store.counter.next))
          (store.pathOf (.segment store.counter.next))] = (.ok (), files) := by
  unfold save at h
  split at h
  · cases h
  dsimp only at h
  split at h
  · cases h
  rename_i size written hwritten
  obtain ⟨hfits, hwrite⟩ := write_of_writeSegment hwritten
  split at h
  · cases h
  rename_i renamed hrename
  obtain ⟨hresult, rfl, rfl⟩ : _ ∧ _ ∧ _ := by simpa [Prod.mk.injEq] using h
  obtain ⟨segment, hload, hsome⟩ := map_eq_ok_iff.mp hresult
  obtain rfl := Option.some.inj hsome
  refine ⟨hfits, hload, rfl, ?_⟩
  have hfirst : fs.apply (.write (store.pathOf (.unfinished store.counter.next))
      (Segment.encode entries)) = .ok written := hwrite
  have hsecond : written.apply (.rename (store.pathOf (.unfinished store.counter.next))
      (store.pathOf (.segment store.counter.next))) = .ok renamed := hrename
  rw [perform_cons_ok _ hfirst, perform_cons_ok _ hsecond, perform_nil]

/-- **The two steps put the file under the segment's name** and change nothing else, whatever is in
the folder; no directory was in their way. -/
theorem nodes_of_perform_save {priority : Priority} {image : Image}
    (hlinks : fs.Unlinked store.folder)
    (h : fs.perform [.write (store.pathOf (.unfinished priority)) image,
      .rename (store.pathOf (.unfinished priority)) (store.pathOf (.segment priority))] =
        (.ok (), files)) :
    ∃ place, fs.directoryAt store.folder = .ok place ∧
      (∀ file ∈ [StoreFile.unfinished priority, .segment priority],
        fs.node? (place ++ [file.name]) ≠ some .directory) ∧
      ∀ other, files.node? other =
        if other = place ++ [(StoreFile.segment priority).name] then some (.file image)
        else if other = place ++ [(StoreFile.unfinished priority).name] then none
        else fs.node? other := by
  have hshort := StoreFile.utf8ByteSize_name_le
  have hname := StoreFile.isName_name
  obtain ⟨written, hwrite, hrest⟩ := perform_cons_eq_ok h
  obtain ⟨renamed, hrename, hnil⟩ := perform_cons_eq_ok hrest
  obtain ⟨-, rfl⟩ := Prod.mk.inj hnil
  have hlink place (hplace : fs.directoryAt store.folder = .ok place) target :
      fs.node? (place ++ [(StoreFile.unfinished priority).name]) ≠ some (.link target) :=
    hlinks place hplace _ target
  obtain ⟨place, hfolder, hnew, rfl⟩ := eq_put_of_write (hname _) (hshort _) hlink hwrite
  -- writing and renaming make no new folders, so what leads to the folder now led there before
  obtain ⟨place', hfolder'⟩ := directoryAt_of_rename (hname _) hrename
  obtain rfl := (within_put fs image (by simp)).place_eq hfolder' hfolder
  have hne : (StoreFile.unfinished priority).name ≠ (StoreFile.segment priority).name := by
    simp [StoreFile.name_inj]
  have hself := node?_put_self fs (.file image)
    (show place' ++ [(StoreFile.unfinished priority).name] ≠ [] by simp)
  obtain ⟨hfinished, rfl⟩ :=
    eq_put_erase_of_rename hfolder' (hname _) (hshort _) (hname _) (hshort _) hne rfl hself hrename
  rw [node?_put _ _ _ (by simp), if_neg (by simpa using hne.symm)] at hfinished
  refine ⟨place', hfolder, by simp [hnew, hfinished], fun other => ?_⟩
  rw [node?_put _ _ _ (by simp), node?_erase _ _ (by simp), node?_put _ _ _ (by simp)]
  split
  · rfl
  · split <;> rfl

/-- **After the two steps the file has the segment's name**, whatever else is in the folder. -/
theorem eq_of_perform_save {priority : Priority} {image : Image} (hlinks : fs.Unlinked store.folder)
    (h : fs.perform [.write (store.pathOf (.unfinished priority)) image,
      .rename (store.pathOf (.unfinished priority)) (store.pathOf (.segment priority))] =
        (.ok (), files)) :
    files.Within fs ∧ ∃ place, fs.directoryAt store.folder = .ok place ∧
      files.node? (place ++ [(StoreFile.segment priority).name]) = some (.file image) := by
  obtain ⟨place, hfolder, -, hnodes⟩ := nodes_of_perform_save hlinks h
  refine ⟨fun other node hfile hnode => ?_, place, hfolder, by rw [hnodes, if_pos rfl]⟩
  rw [hnodes] at hnode
  split at hnode
  · obtain rfl := Option.some.inj hnode
    cases hfile
  · exact (Option.ite_none_left_eq_some.mp hnode).2

/-- **A segment that was saved holds what was to be saved.** -/
theorem spec_of_save (hlinks : fs.Unlinked store.folder)
    (h : store.save entries fs = (.ok (some s), after, files)) :
    Segment.encodedSize entries < Word.signBit ∧ s.image = Segment.encode entries ∧
      s.priority = store.counter.next ∧ s.path = store.pathOf (.segment store.counter.next) ∧
      files.Within fs ∧ ∃ place, fs.directoryAt store.folder = .ok place ∧
        files.node? (place ++ [(StoreFile.segment store.counter.next).name]) =
          some (.file s.image) := by
  obtain ⟨hfits, hload, -, hperform⟩ := perform_of_save h
  obtain ⟨hwithin, place, hfolder, hnode⟩ := eq_of_perform_save hlinks hperform
  obtain ⟨hpriority, hpath, himage⟩ := spec_of_load hwithin hfolder hnode hload
  exact ⟨hfits, himage, hpriority, hpath, hwithin, place, hfolder, himage ▸ hnode⟩

/-! ## What a save comes to

Where no name of the store is a link, there are four ways for a save to end once its folder is found,
whatever else is in the folder. -/

/-- A file of the store that is a directory cannot be written or removed. -/
theorem discard_directory {file : StoreFile} (hfolder : fs.directoryAt store.folder = .ok place)
    (hnode : fs.node? (place ++ [file.name]) = some .directory) :
    fs.discard (store.pathOf file) = fs := by
  rw [FileSystem.discard, pathOf, remove_file hfolder, hnode]

/-- Where no file can be written at all, nothing changes. -/
theorem writeSegment_error {path : Path} (h : ∀ image, ∃ cause, fs.write path image = .error cause) :
    ∃ cause, fs.writeSegment path entries = (.error cause, fs) := by
  unfold writeSegment
  split
  · obtain ⟨cause, hwrite⟩ := h (Segment.encode entries)
    exact ⟨cause, by simp only [perform, apply, hwrite]⟩
  · obtain ⟨cause, hwrite⟩ := h #[]
    exact ⟨cause, by simp only [perform, apply, hwrite]⟩

/-- With a directory in its way a file cannot be written, and nothing changes. -/
theorem writeSegment_directory (hfolder : fs.directoryAt store.folder = .ok place)
    {file : StoreFile} (hnode : fs.node? (place ++ [file.name]) = some .directory)
    (entries : List Entry) :
    fs.writeSegment (store.pathOf file) entries = (.error .isADirectory, fs) := by
  have hwrite : ∀ image, fs.write (store.pathOf file) image = _ := fun image =>
    write_file hfolder (by simp [hnode])
  simp only [writeSegment, perform, apply, hwrite, hnode]
  split <;> rfl

/-- An unfinished file is written where no directory is in the way. -/
theorem write_unfinished (hsteady : fs.Steady store.folder place) {priority : Priority}
    (hdirectory : fs.node? (place ++ [(StoreFile.unfinished priority).name]) ≠ some .directory)
    (image : Image) : fs.write (store.pathOf (.unfinished priority)) image =
      .ok (fs.put (place ++ [(StoreFile.unfinished priority).name]) (.file image)) := by
  have hwrite : fs.write (store.pathOf (.unfinished priority)) image = _ :=
    write_file hsteady.directory (hsteady.unlinked priority)
  rw [hwrite]
  split
  · exact absurd ‹_› hdirectory
  · rfl

/-- Entries that fit into a file are written as a whole. -/
theorem writeSegment_unfinished (hsteady : fs.Steady store.folder place) {priority : Priority}
    (hdirectory : fs.node? (place ++ [(StoreFile.unfinished priority).name]) ≠ some .directory)
    (hfits : Segment.encodedSize entries < Word.signBit) :
    fs.writeSegment (store.pathOf (.unfinished priority)) entries =
      (.ok (Segment.encodedSize entries), fs.put (place ++ [(StoreFile.unfinished priority).name])
        (.file (Segment.encode entries))) := by
  simp only [writeSegment, perform, apply, write_unfinished hsteady hdirectory, hfits,
    if_true]

/-- Too many entries for a file make an empty one, which is then taken away. -/
theorem writeSegment_oversize (hsteady : fs.Steady store.folder place) {priority : Priority}
    (hdirectory : fs.node? (place ++ [(StoreFile.unfinished priority).name]) ≠ some .directory)
    (hover : ¬ Segment.encodedSize entries < Word.signBit) :
    ∃ written, fs.writeSegment (store.pathOf (.unfinished priority)) entries =
        (.error .invalidInput, written) ∧
      written.discard (store.pathOf (.unfinished priority)) =
        (fs.put (place ++ [(StoreFile.unfinished priority).name]) (.file #[])).erase
          (place ++ [(StoreFile.unfinished priority).name]) := by
  let written := fs.put (place ++ [(StoreFile.unfinished priority).name]) (.file #[])
  have hthere : written.node? (place ++ [(StoreFile.unfinished priority).name]) =
      some (.file #[]) := node?_put_self _ _ (by simp)
  have hstays : written.directoryAt store.folder = .ok place :=
    directoryAt_of_within (within_of_put (by simp) (hsteady.isFile hdirectory)) hsteady.directory
  have hremove := remove_file hstays (.unfinished priority)
  rw [hthere] at hremove
  refine ⟨written, ?_, ?_⟩
  · simp only [writeSegment, perform, apply, write_unfinished hsteady hdirectory, hover,
      if_false]
    rfl
  · rw [FileSystem.discard, pathOf, hremove]

/-- The segment that a save of entries makes. -/
def savedOf (store : Store) (h : Segment.Table entries) : Segment :=
  .ofTable store.counter.next (store.pathOf (.segment store.counter.next)) h

/-- **With a directory in its way a save fails**, and nothing changes but the counter. -/
theorem save_directory (hfolder : fs.directoryAt store.folder = .ok place)
    (hnode : fs.node? (place ++ [(StoreFile.unfinished store.counter.next).name]) = some .directory)
    (hne : entries ≠ []) :
    store.save entries fs = (.error (.io .isADirectory), store.advance, fs) := by
  have hempty : entries.isEmpty = false := by simpa using hne
  simp only [save, hempty, writeSegment_directory hfolder hnode,
    discard_directory hfolder hnode, Bool.false_eq_true, if_false]

/-- **A save of too many entries fails**, and its file is taken away again. -/
theorem save_oversize (hsteady : fs.Steady store.folder place)
    (hfree : fs.node? (place ++ [(StoreFile.unfinished store.counter.next).name]) ≠ some .directory)
    (hover : ¬ Segment.encodedSize entries < Word.signBit) (hne : entries ≠ []) :
    store.save entries fs = (.error (.io .invalidInput), store.advance,
      (fs.put (place ++ [(StoreFile.unfinished store.counter.next).name]) (.file #[])).erase
        (place ++ [(StoreFile.unfinished store.counter.next).name])) := by
  have hempty : entries.isEmpty = false := by simpa using hne
  obtain ⟨written, hwrite, hgone⟩ := writeSegment_oversize hsteady hfree hover
  simp only [save, hempty, hwrite, hgone, Bool.false_eq_true, if_false]

section Written

variable (hsteady : fs.Steady store.folder place)
  (hfree : fs.node? (place ++ [(StoreFile.unfinished store.counter.next).name]) ≠ some .directory)

include hsteady hfree

/-- A file that was written takes the segment's name, unless a directory has it. -/
theorem rename_written (image : Image) :
    (fs.put (place ++ [(StoreFile.unfinished store.counter.next).name]) (.file image)).rename
        (store.pathOf (.unfinished store.counter.next))
        (store.pathOf (.segment store.counter.next)) =
      match fs.node? (place ++ [(StoreFile.segment store.counter.next).name]) with
      | some .directory => .error .isADirectory
      | _ => .ok (((fs.put (place ++ [(StoreFile.unfinished store.counter.next).name])
          (.file image)).erase (place ++ [(StoreFile.unfinished store.counter.next).name])).put
            (place ++ [(StoreFile.segment store.counter.next).name]) (.file image)) := by
  have hstays : (fs.put (place ++ [(StoreFile.unfinished store.counter.next).name])
      (.file image)).directoryAt store.folder = .ok place :=
    directoryAt_of_within (within_of_put (by simp) (hsteady.isFile hfree)) hsteady.directory
  have hne : StoreFile.unfinished store.counter.next ≠ .segment store.counter.next := by simp
  have hrename := rename_file hstays hne (node?_put_self fs (.file image) (by simp))
  rwa [node?_put _ _ _ (by simp), if_neg (by simp [StoreFile.name_inj])] at hrename

/-- **A save whose segment cannot take its name fails**, and the file that was written stays. -/
theorem save_stuck (hfits : Segment.encodedSize entries < Word.signBit)
    (htaken : fs.node? (place ++ [(StoreFile.segment store.counter.next).name]) = some .directory)
    (hne : entries ≠ []) :
    store.save entries fs = (.error (.io .isADirectory), store.advance,
      fs.put (place ++ [(StoreFile.unfinished store.counter.next).name])
        (.file (Segment.encode entries))) := by
  have hempty : entries.isEmpty = false := by simpa using hne
  have hrename := rename_written hsteady hfree (Segment.encode entries)
  rw [htaken] at hrename
  simp only [save, hempty, writeSegment_unfinished hsteady hfree hfits, hrename,
    Bool.false_eq_true, if_false]

/-- **A save with no directory in its way goes well**: its file has the segment's name, and nothing
else changed. -/
theorem save_done (htable : Segment.Table entries)
    (hopen : fs.node? (place ++ [(StoreFile.segment store.counter.next).name]) ≠ some .directory)
    (hne : entries ≠ []) :
    ∃ files, store.save entries fs = (.ok (some (store.savedOf htable)), store.advance, files) ∧
      Keeps files fs place ∧ ∀ other, files.node? other =
        if other = place ++ [(StoreFile.segment store.counter.next).name] then
          some (.file (Segment.encode entries))
        else if other = place ++ [(StoreFile.unfinished store.counter.next).name] then none
        else fs.node? other := by
  have hempty : entries.isEmpty = false := by simpa using hne
  obtain ⟨files, hrename, hnodes⟩ : ∃ files,
      (fs.put (place ++ [(StoreFile.unfinished store.counter.next).name])
        (.file (Segment.encode entries))).rename (store.pathOf (.unfinished store.counter.next))
          (store.pathOf (.segment store.counter.next)) = .ok files ∧
      ∀ other, files.node? other =
        if other = place ++ [(StoreFile.segment store.counter.next).name] then
          some (.file (Segment.encode entries))
        else if other = place ++ [(StoreFile.unfinished store.counter.next).name] then none
        else fs.node? other := by
    have hrename := rename_written hsteady hfree (Segment.encode entries)
    split at hrename
    · exact absurd ‹_› hopen
    refine ⟨_, hrename, fun other => ?_⟩
    rw [node?_put _ _ _ (by simp), node?_erase _ _ (by simp), node?_put _ _ _ (by simp)]
    split
    · rfl
    · split <;> rfl
  -- what leads to the folder still leads there
  have hkept : Keeps files fs place := by
    intro other node hnode hother hname
    rw [hnodes, if_neg, if_neg, hother]
    · rintro rfl
      simp [hsteady.isFile hfree _ hother] at hnode
    · rintro rfl
      obtain rfl := hname _ rfl
      exact hopen hother
  have hwithin : files.Within fs := by
    intro other node hnode hother
    rw [hnodes] at hother
    split at hother
    · obtain rfl := Option.some.inj hother
      cases hnode
    · split at hother
      · cases hother
      · exact hother
  have hmap : files.map (store.pathOf (.segment store.counter.next)) =
      .ok (Segment.encode entries) :=
    map_file (hsteady.of_keeps hwithin hkept).directory ((hnodes _).trans (if_pos rfl))
  have hload : Segment.load files (store.pathOf (.segment store.counter.next)) store.counter.next =
      .ok (store.savedOf htable) := Segment.load_eq_ok_iff.mpr ⟨hmap, rfl, rfl⟩
  refine ⟨files, ?_, hkept, hnodes⟩
  simp only [save, hempty, writeSegment_unfinished hsteady hfree htable.fits, hrename,
    hload, Bool.false_eq_true, if_false]
  rfl

end Written

/-! ## Saving into a folder of known segments -/

theorem filed_saved (h : Segment.Filed store.folder segments)
    (habove : ∀ s ∈ segments, s.priority < store.counter.next) (htable : Segment.Table entries) :
    Segment.Filed store.folder (store.savedOf htable :: segments) where
  intact := List.forall_mem_cons.mpr ⟨Segment.intact_ofTable _ _ htable, h.intact⟩
  path_eq := List.forall_mem_cons.mpr ⟨rfl, h.path_eq⟩
  descending := List.pairwise_cons.mpr ⟨habove, h.descending⟩

/-- **An unfinished file becomes the newest segment**, unless a directory has its name. -/
theorem rename_unfinished (h : fs.Stores store.folder place segments)
    (hsteady : fs.Steady store.folder place)
    (habove : ∀ s ∈ segments, s.priority < store.counter.next) (htable : Segment.Table entries)
    (hdirectory : fs.node? (place ++ [(StoreFile.unfinished store.counter.next).name]) ≠
      some .directory) {written : FileSystem}
    (hwritten : written = fs.put (place ++ [(StoreFile.unfinished store.counter.next).name])
      (.file (Segment.encode entries))) :
    (fs.node? (place ++ [(StoreFile.segment store.counter.next).name]) = some .directory ∧
      written.rename (store.pathOf (.unfinished store.counter.next))
        (store.pathOf (.segment store.counter.next)) = .error .isADirectory) ∨
    fs.node? (place ++ [(StoreFile.segment store.counter.next).name]) ≠ some .directory ∧
    ∃ renamed, written.rename (store.pathOf (.unfinished store.counter.next))
        (store.pathOf (.segment store.counter.next)) = .ok renamed ∧
      renamed.Stores store.folder place (store.savedOf htable :: segments) ∧
      Beside renamed fs place := by
  have hstores : written.Stores store.folder place segments :=
    hwritten ▸ h.put_unfinished _ (hsteady.isFile hdirectory)
  have hwithin : written.Within fs := hwritten ▸ within_put fs _ (by simp)
  have hkept : fs.Within written :=
    hwritten ▸ within_of_put (by simp) (hsteady.isFile hdirectory)
  have hthere : written.node? (place ++ [(StoreFile.unfinished store.counter.next).name]) =
      some (.file (store.savedOf htable).image) := by
    rw [hwritten, node?_put_self _ _ (by simp)]
    rfl
  rcases rename_stores [] (hsteady.of_keeps hwithin hkept.keeps) hthere (by simp)
      (hstores.erase_unfinished (by simp [hthere, Node.isFile]))
      (filed_saved h.filed habove htable) with
    ⟨hdirectory', hfails⟩ | ⟨hfree, renamed, hmoves, hrenamed, hwithin', hkept', hnodes⟩
  · exact .inl ⟨hwithin _ _ rfl hdirectory', hfails⟩
  · rw [hwritten, node?_put _ _ _ (by simp), if_neg (by simp [StoreFile.name_inj])] at hfree
    refine .inr ⟨hfree, renamed, hmoves, hrenamed,
      beside_of_nodes (hwithin'.trans hwithin) (hkept'.trans hkept.keeps) fun name => ?_⟩
    rw [hnodes, hwritten, node?_put _ _ _ (by simp)]
    by_cases hfinished : name = (StoreFile.segment store.counter.next).name
    · exact .inr (.inl ⟨_, hfinished⟩)
    by_cases hunfinished : name = (StoreFile.unfinished store.counter.next).name
    · exact .inr (.inr ⟨⟨_, hunfinished⟩, by simp [hunfinished, StoreFile.name_inj, savedOf]⟩)
    · exact .inl (by simp [hfinished, hunfinished, savedOf])

/-- **Saving adds the new segment or leaves all as they are.**  Only a directory in the way or too
many entries make it fail. -/
theorem save_stores (h : fs.Stores store.folder place segments)
    (hsteady : fs.Steady store.folder place)
    (habove : ∀ s ∈ segments, s.priority < store.counter.next)
    (hascending : Entry.Ascending entries) (hne : entries ≠ []) :
    (∃ (htable : Segment.Table entries) (files : FileSystem),
      store.save entries fs = (.ok (some (store.savedOf htable)), store.advance, files) ∧
      files.Stores store.folder place (store.savedOf htable :: segments) ∧
      Beside files fs place) ∨
    (∃ e files, store.save entries fs = (.error e, store.advance, files) ∧
      files.Stores store.folder place segments ∧ files.Within fs ∧ fs.Within files ∧
      ¬(Segment.encodedSize entries < Word.signBit ∧
        fs.node? (place ++ [(StoreFile.unfinished store.counter.next).name]) ≠ some .directory ∧
        fs.node? (place ++ [(StoreFile.segment store.counter.next).name]) ≠ some .directory)) := by
  by_cases hdirectory :
      fs.node? (place ++ [(StoreFile.unfinished store.counter.next).name]) = some .directory
  · exact .inr ⟨_, fs, save_directory h.directory hdirectory hne, h, .refl fs, .refl fs,
      fun hboth => hboth.2.1 hdirectory⟩
  by_cases hfits : Segment.encodedSize entries < Word.signBit
  · have htable : Segment.Table entries := ⟨hascending, hfits⟩
    rcases rename_unfinished h hsteady habove htable hdirectory rfl with
      ⟨htaken, -⟩ | ⟨-, renamed, hmoves, hrenamed, hbeside⟩
    · exact .inr ⟨_, _, save_stuck hsteady hdirectory hfits htaken hne,
        h.put_unfinished (Segment.encode entries) (hsteady.isFile hdirectory),
        within_put fs _ (by simp), within_of_put (by simp) (hsteady.isFile hdirectory),
        fun hboth => hboth.2.2 htaken⟩
    · have hempty : entries.isEmpty = false := by simpa using hne
      have hwrite := writeSegment_unfinished hsteady hdirectory hfits
      have hload : Segment.load renamed (store.pathOf (.segment store.counter.next))
          store.counter.next = .ok (store.savedOf htable) := hrenamed.load List.mem_cons_self
      refine .inl ⟨htable, renamed, ?_, hrenamed, hbeside⟩
      simp only [save, hempty, hwrite, hmoves, hload, Bool.false_eq_true, if_false]
      rfl
  · have hthere : ∀ node, (fs.put (place ++ [(StoreFile.unfinished store.counter.next).name])
        (.file #[])).node? (place ++ [(StoreFile.unfinished store.counter.next).name]) = some node →
        node.isFile = true := by simp [node?_put_self, Node.isFile]
    exact .inr ⟨_, _, save_oversize hsteady hdirectory hfits hne,
      (h.put_unfinished #[] (hsteady.isFile hdirectory)).erase_unfinished hthere,
      (within_erase _ (by simp)).trans (within_put fs _ (by simp)),
      (within_of_put (by simp) (hsteady.isFile hdirectory)).trans
        (within_of_erase (by simp) hthere), fun hboth => hfits hboth.1⟩

/-- **A save goes well** if neither of the names it uses is a directory's. -/
theorem save_free (h : fs.Stores store.folder place segments) (hlinks : fs.LinkFree place)
    (habove : ∀ s ∈ segments, s.priority < store.counter.next)
    (hascending : Entry.Ascending entries) (hne : entries ≠ [])
    (hfits : Segment.encodedSize entries < Word.signBit)
    (hfree : ∀ file ∈ [.unfinished store.counter.next, StoreFile.segment store.counter.next],
      fs.node? (place ++ [file.name]) ≠ some .directory) :
    ∃ (htable : Segment.Table entries) (files : FileSystem),
      store.save entries fs = (.ok (some (store.savedOf htable)), store.advance, files) ∧
      files.Stores store.folder place (store.savedOf htable :: segments) ∧
      Beside files fs place := by
  rcases save_stores h (hlinks.steady h.directory) habove hascending hne with
    hsaved | ⟨-, -, -, -, -, -, hreason⟩
  · exact hsaved
  · exact absurd ⟨hfits, hfree _ (by simp), hfree _ (by simp)⟩ hreason

/-- **With nothing in its way a save goes well.** -/
theorem save_plain (h : fs.Stores store.folder place segments) (hplain : fs.Plain place)
    (habove : ∀ s ∈ segments, s.priority < store.counter.next)
    (hascending : Entry.Ascending entries) (hne : entries ≠ [])
    (hfits : Segment.encodedSize entries < Word.signBit) :
    ∃ (htable : Segment.Table entries) (files : FileSystem),
      store.save entries fs = (.ok (some (store.savedOf htable)), store.advance, files) ∧
      files.Stores store.folder place (store.savedOf htable :: segments) ∧
      Beside files fs place :=
  save_free h hplain.linkFree habove hascending hne hfits fun file _ => hplain.ne_directory file

/-- One value of one byte fits into a file. -/
theorem table_byte (key value : UInt8) : Segment.Table [⟨[key], some [value]⟩] where
  ascending := List.pairwise_singleton _ _
  fits := by
    simp [Segment.encodedSize, Segment.recordsSize, Record.size, Header.indexEnd, Header.size,
      Word.size, Word.signBit]

/-- The segment that such a value is saved as. -/
def savedByte (store : Store) (key value : UInt8) : Segment := store.savedOf (table_byte key value)

@[simp] theorem entries_savedByte (store : Store) (key value : UInt8) :
    (store.savedByte key value).entries = [⟨[key], some [value]⟩] :=
  Segment.entries_ofTable _ _ (table_byte key value)

end Store

end LsmTree
