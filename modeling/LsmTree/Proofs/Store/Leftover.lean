import LsmTree.Proofs.Store.Save

/-!
# Proofs/Store/Leftover — what a failed save leaves behind

A save writes an unfinished file, gives it the segment's name and opens it.  If the file cannot be
written, what there is of it is taken away again; if it cannot get its name, it stays.  So in every
folder where the unfinished file is not there yet, a save adds the segment, or fails and changes
nothing, or fails and leaves that one file (`Store.save_cases`), and the last is so just where a
directory has the segment's name.
-/

namespace LsmTree

namespace FileSystem

variable {after fs : FileSystem} {place : Place} {image : Image}

/-- The same is found everywhere. -/
def Same (after fs : FileSystem) : Prop := ∀ place, after.node? place = fs.node? place

/-- A file with these bytes is at the place, and everywhere else the same is found. -/
def Gains (after fs : FileSystem) (place : Place) (image : Image) : Prop :=
  ∀ other, after.node? other = if other = place then some (.file image) else fs.node? other

theorem gains_put (hplace : place ≠ []) : (fs.put place (.file image)).Gains fs place image :=
  fun other => node?_put fs _ other hplace

/-- Taking away what was put where nothing was changes nothing. -/
theorem same_erase_put {node : Node} (hplace : place ≠ []) (hnone : fs.node? place = none) :
    ((fs.put place node).erase place).Same fs := by
  intro other
  rw [node?_erase _ _ hplace, node?_put _ _ _ hplace]
  split
  · rename_i heq
    rw [heq, hnone]
  · rfl

/-- **A file that is new makes a difference.** -/
theorem Gains.not_same (h : after.Gains fs place image) (hnone : fs.node? place = none) :
    ¬after.Same fs := by
  intro hsame
  have hthere := (h place).symm.trans (hsame place)
  rw [if_pos rfl, hnone] at hthere
  cases hthere

end FileSystem

namespace Store

open FileSystem

variable {store after : Store} {fs files : FileSystem} {entries : List Entry} {place : Place}
  {result : Except Error (Option Segment)}

/-- In the store's folder no name of a store is a link, and the next unfinished file is not there
yet; a directory may be. -/
structure Fresh (store : Store) (fs : FileSystem) (place : Place) : Prop where
  linkFree : fs.LinkFree place
  unused : ∀ image,
    fs.node? (place ++ [(StoreFile.unfinished store.counter.next).name]) ≠ some (.file image)

/-- The next unfinished file can be written: the folder is found, a file can have all the entries,
and no directory is in the way. -/
structure Writes (store : Store) (entries : List Entry) (fs : FileSystem) (place : Place) :
    Prop where
  directory : fs.directoryAt store.folder = .ok place
  fits : Segment.encodedSize entries < Word.signBit
  free : fs.node? (place ++ [(StoreFile.unfinished store.counter.next).name]) ≠ some .directory

/-- A directory has the name of the next segment. -/
def Taken (store : Store) (fs : FileSystem) (place : Place) : Prop :=
  fs.node? (place ++ [(StoreFile.segment store.counter.next).name]) = some .directory

theorem Fresh.node?_eq_none (h : store.Fresh fs place)
    (hfree : fs.node? (place ++ [(StoreFile.unfinished store.counter.next).name]) ≠
      some .directory) :
    fs.node? (place ++ [(StoreFile.unfinished store.counter.next).name]) = none := by
  cases hnode : fs.node? (place ++ [(StoreFile.unfinished store.counter.next).name]) with
  | none => rfl
  | some node =>
    cases node with
    | file image => exact absurd hnode (h.unused image)
    | directory => exact absurd hnode hfree
    | link target => exact absurd hnode (h.linkFree _ target)

/-! ## How a save can end -/

/-- **Where the store's folder is not found**, a save fails and nothing changes. -/
theorem save_missing (hmissing : ∀ place, fs.directoryAt store.folder ≠ .ok place)
    (hne : entries ≠ []) :
    ∃ cause, store.save entries fs = (.error (.io cause), store.advance, fs) := by
  have hempty : entries.isEmpty = false := by simpa using hne
  have hname := StoreFile.isName_name (.unfinished store.counter.next)
  obtain ⟨cause, hwrite⟩ : ∃ cause,
      fs.writeSegment (store.pathOf (.unfinished store.counter.next)) entries =
        (.error cause, fs) := by
    refine writeSegment_error fun image => ?_
    cases hwrite : fs.write (store.pathOf (.unfinished store.counter.next)) image with
    | error cause => exact ⟨cause, rfl⟩
    | ok written =>
      obtain ⟨place, hplace⟩ := directoryAt_of_write hname hwrite
      exact absurd hplace (hmissing place)
  have hdiscard : fs.discard (store.pathOf (.unfinished store.counter.next)) = fs := by
    unfold FileSystem.discard
    split
    · rename_i removed hremove
      obtain ⟨place, hplace⟩ := directoryAt_of_remove hname hremove
      exact absurd hplace (hmissing place)
    · rfl
  refine ⟨cause, ?_⟩
  simp only [save, hempty, hwrite, hdiscard, Bool.false_eq_true, if_false]

/-- **A save adds its segment's file, or leaves its unfinished one, or changes nothing**: the second
where a directory has the segment's name, the third where not even the unfinished file can be
written. -/
theorem save_cases
    (hfresh : ∀ place, fs.directoryAt store.folder = .ok place → store.Fresh fs place)
    (hascending : Entry.Ascending entries) (hne : entries ≠ []) :
    (∃ (place : Place) (htable : Segment.Table entries) (files : FileSystem),
      store.Writes entries fs place ∧ ¬store.Taken fs place ∧
      store.save entries fs = (.ok (some (store.savedOf htable)), store.advance, files) ∧
      files.Gains fs (place ++ [(StoreFile.segment store.counter.next).name])
        (Segment.encode entries)) ∨
    (∃ place files, store.Writes entries fs place ∧ store.Taken fs place ∧
      store.save entries fs = (.error (.io .isADirectory), store.advance, files) ∧
      files.Gains fs (place ++ [(StoreFile.unfinished store.counter.next).name])
        (Segment.encode entries)) ∨
    ((∀ place, ¬store.Writes entries fs place) ∧
      ∃ cause files, store.save entries fs = (.error (.io cause), store.advance, files) ∧
        files.Same fs) := by
  by_cases hmissing : ∀ place, fs.directoryAt store.folder ≠ .ok place
  · obtain ⟨cause, hsave⟩ := save_missing hmissing hne
    exact .inr (.inr ⟨fun place hwrites => hmissing place hwrites.directory, cause, fs, hsave,
      fun _ => rfl⟩)
  obtain ⟨place, hfolder⟩ : ∃ place, fs.directoryAt store.folder = .ok place := by
    simpa using hmissing
  have hsteady := (hfresh place hfolder).linkFree.steady hfolder
  -- a reason not to write here is one not to write anywhere
  have hnowhere (h : ¬store.Writes entries fs place) (other : Place) :
      ¬store.Writes entries fs other := by
    intro hwrites
    obtain rfl : place = other := Except.ok.inj (hfolder.symm.trans hwrites.directory)
    exact h hwrites
  by_cases hdirectory :
      fs.node? (place ++ [(StoreFile.unfinished store.counter.next).name]) = some .directory
  · exact .inr (.inr ⟨hnowhere fun hwrites => hwrites.free hdirectory, _, fs,
      save_directory hfolder hdirectory hne, fun _ => rfl⟩)
  have hnone := (hfresh place hfolder).node?_eq_none hdirectory
  by_cases hfits : Segment.encodedSize entries < Word.signBit
  · have hwrites : store.Writes entries fs place := ⟨hfolder, hfits, hdirectory⟩
    by_cases htaken : store.Taken fs place
    · exact .inr (.inl ⟨place, _, hwrites, htaken,
        save_stuck hsteady hdirectory hfits htaken hne, gains_put (by simp)⟩)
    · obtain ⟨files, hsave, -, hnodes⟩ :=
        save_done hsteady hdirectory ⟨hascending, hfits⟩ htaken hne
      refine .inl ⟨place, ⟨hascending, hfits⟩, files, hwrites, htaken, hsave, fun other => ?_⟩
      rw [hnodes]
      refine ite_congr rfl (fun _ => rfl) fun _ => ?_
      split
      · rename_i heq
        rw [heq, hnone]
      · rfl
  · exact .inr (.inr ⟨hnowhere fun hwrites => hfits hwrites.fits, _, _,
      save_oversize hsteady hdirectory hfits hne, same_erase_put (by simp) hnone⟩)

/-- **What a save leaves.**  In a folder where the unfinished file is not there yet, a save that
fails changes nothing if and only if no directory has the name of a segment that could be written;
where one has, the unfinished file stays and is all that is new.  A save that goes well adds the
segment's file and nothing else. -/
theorem same_of_save_iff
    (hfresh : ∀ place, fs.directoryAt store.folder = .ok place → store.Fresh fs place)
    (hascending : Entry.Ascending entries) (hne : entries ≠ [])
    (hsave : store.save entries fs = (result, after, files)) :
    (∀ e, result = .error e →
      (files.Same fs ↔ ∀ place, store.Writes entries fs place → ¬store.Taken fs place) ∧
      ∀ place, store.Writes entries fs place → store.Taken fs place →
        files.Gains fs (place ++ [(StoreFile.unfinished store.counter.next).name])
          (Segment.encode entries)) ∧
    (∀ made, result = .ok made → ∃ s place, made = some s ∧ s.priority = store.counter.next ∧
      s.image = Segment.encode entries ∧ fs.directoryAt store.folder = .ok place ∧
      files.Gains fs (place ++ [(StoreFile.segment store.counter.next).name])
        (Segment.encode entries)) ∧
    ((∃ made, result = .ok made) ↔
      ∃ place, store.Writes entries fs place ∧ ¬store.Taken fs place) := by
  have hplace {place other : Place} (hwrites : store.Writes entries fs place)
      (hwrites' : store.Writes entries fs other) : place = other :=
    Except.ok.inj (hwrites.directory.symm.trans hwrites'.directory)
  rcases save_cases hfresh hascending hne with
    ⟨place, htable, written, hwrites, hfree, hdone, hgains⟩ |
    ⟨place, written, hwrites, htaken, hfails, hgains⟩ | ⟨hnowhere, cause, written, hfails, hsame⟩
  · obtain ⟨rfl, -, rfl⟩ : _ ∧ _ ∧ _ := by simpa using hdone.symm.trans hsave
    refine ⟨by simp, fun made hmade => ?_, iff_of_true ⟨_, rfl⟩ ⟨place, hwrites, hfree⟩⟩
    exact ⟨_, place, (Except.ok.inj hmade).symm, rfl, rfl, hwrites.directory, hgains⟩
  · obtain ⟨rfl, -, rfl⟩ : _ ∧ _ ∧ _ := by simpa using hfails.symm.trans hsave
    have hnone := (hfresh place hwrites.directory).node?_eq_none hwrites.free
    refine ⟨fun e _ => ⟨?_, fun other hother _ => hplace hwrites hother ▸ hgains⟩, by simp,
      iff_of_false (by simp) ?_⟩
    · exact iff_of_false (hgains.not_same hnone) fun hall => hall place hwrites htaken
    · rintro ⟨other, hother, hfree⟩
      exact hfree (hplace hwrites hother ▸ htaken)
  · obtain ⟨rfl, -, rfl⟩ : _ ∧ _ ∧ _ := by simpa using hfails.symm.trans hsave
    refine ⟨fun e _ => ⟨?_, fun other hother => absurd hother (hnowhere other)⟩, by simp,
      iff_of_false (by simp) ?_⟩
    · exact iff_of_true hsame fun other hother => absurd hother (hnowhere other)
    · rintro ⟨other, hother, -⟩
      exact hnowhere other hother

/-! ### A directory has the segment's name -/

/-- The folder with nothing but that directory. -/
def takenFiles : FileSystem :=
  (ofFolder "store").put (["store"] ++ [(StoreFile.segment 1).name]) .directory

/-- The store of the folder. -/
def takenStore : Store := ⟨["store"], ⟨1⟩⟩

theorem node?_takenFiles (file : StoreFile) :
    takenFiles.node? (["store"] ++ [file.name]) =
      if file = .segment 1 then some .directory else none := by
  simp [takenFiles, node?_put, node?_ofFolder, StoreFile.name_inj]

theorem unused_takenFiles :
    takenFiles.node? (["store"] ++ [(StoreFile.unfinished 1).name]) = none := by
  rw [node?_takenFiles, if_neg (by simp)]

theorem fresh_takenFiles : takenStore.Fresh takenFiles ["store"] where
  linkFree file target := by
    rw [node?_takenFiles]
    split <;> simp
  unused image hnode := nomatch unused_takenFiles.symm.trans hnode

theorem directoryAt_takenFiles : takenFiles.directoryAt takenStore.folder = .ok ["store"] :=
  ((stores_ofFolder (directoryAt_ofFolder (by decide) (by decide))).put_directory
    (StoreFile.utf8ByteSize_name_le _) (node?_within_ofFolder _ _)).directory

theorem writes_takenFiles : takenStore.Writes [⟨[97], some [49]⟩] takenFiles ["store"] where
  directory := directoryAt_takenFiles
  fits := (table_byte 97 49).fits
  free hnode := nomatch unused_takenFiles.symm.trans hnode

/-- The segment's file is written and does not get its name. -/
theorem save_takenFiles :
    takenStore.save [⟨[97], some [49]⟩] takenFiles =
      (.error (.io .isADirectory), takenStore.advance,
        takenFiles.put (["store"] ++ [(StoreFile.unfinished 1).name])
          (.file (Segment.encode [⟨[97], some [49]⟩]))) :=
  save_stuck (fresh_takenFiles.linkFree.steady directoryAt_takenFiles) writes_takenFiles.free
    writes_takenFiles.fits ((node?_takenFiles _).trans (if_pos rfl)) (by simp)

/-- **A failed save leaves its unfinished file**, where there was none before and a directory has
the segment's name. -/
theorem unfinished_file_stays :
    takenFiles.directoryAt takenStore.folder = .ok ["store"] ∧
      takenStore.Fresh takenFiles ["store"] ∧
      ∃ files, takenStore.save [⟨[97], some [49]⟩] takenFiles =
          (.error (.io .isADirectory), takenStore.advance, files) ∧
        takenFiles.node? (["store"] ++ [(StoreFile.unfinished 1).name]) = none ∧
        files.node? (["store"] ++ [(StoreFile.unfinished 1).name]) =
          some (.file (Segment.encode [⟨[97], some [49]⟩])) :=
  ⟨directoryAt_takenFiles, fresh_takenFiles, _, save_takenFiles, unused_takenFiles,
    node?_put_self _ _ (by simp)⟩

/-- That file is all that is new. -/
theorem same_takenFiles :
    ∃ files, takenStore.save [⟨[97], some [49]⟩] takenFiles =
        (.error (.io .isADirectory), takenStore.advance, files) ∧
      ¬files.Same takenFiles ∧
      files.Gains takenFiles (["store"] ++ [(StoreFile.unfinished 1).name])
        (Segment.encode [⟨[97], some [49]⟩]) := by
  have htaken : takenStore.Taken takenFiles ["store"] := (node?_takenFiles _).trans (if_pos rfl)
  have hfresh place (hplace : takenFiles.directoryAt takenStore.folder = .ok place) :
      takenStore.Fresh takenFiles place := by
    obtain rfl : ["store"] = place := Except.ok.inj (directoryAt_takenFiles.symm.trans hplace)
    exact fresh_takenFiles
  obtain ⟨hsame, hgains⟩ :=
    (same_of_save_iff hfresh (table_byte 97 49).ascending (by simp) save_takenFiles).1 _ rfl
  exact ⟨_, save_takenFiles, fun h => hsame.mp h ["store"] writes_takenFiles htaken,
    hgains ["store"] writes_takenFiles htaken⟩

end Store

end LsmTree
