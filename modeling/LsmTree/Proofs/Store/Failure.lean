import LsmTree.Proofs.Store.Load
import LsmTree.Proofs.Store.Owned

/-!
# Proofs/Store/Failure — a compaction that fails

A compaction works on the segments of one moment, and others may be saved before it starts.  If the
merged segment cannot be saved, nothing has changed.  If it cannot take the lowest priority, the
inputs are gone and it stands above all that was saved since, so it hides what is newer than it:
then the folder answers as before only where newer entries agree with the merged ones
(`Store.reopens_after_failure_iff`).
-/

namespace LsmTree.Store

open FileSystem

/-- Saves several lists of entries.  Each new segment goes into the set; a save that fails adds
none. -/
def saveAll (store : Store) (set : SegmentSet) (fs : FileSystem) :
    List (List Entry) → Store × SegmentSet × FileSystem
  | [] => (store, set, fs)
  | entries :: rest =>
    match store.save entries fs with
    | (.ok (some segment), store, fs) => saveAll store (set.insert segment) fs rest
    | (_, store, fs) => saveAll store set fs rest

/-- The entries of the segments that a set has in front of another's. -/
def newerEntries (current inputs : SegmentSet) : List Entry :=
  (current.segments.take (current.size - inputs.size)).flatMap Segment.entries

variable {store saved after : Store} {fs written files : FileSystem} {place : Place}
  {set inputs current : SegmentSet} {saves : List (List Entry)} {e : Error}

/-! ## Saving on -/

/-- The segments that saves make, oldest first; a save that fails makes none. -/
def savedSegments (store : Store) (fs : FileSystem) : List (List Entry) → List Segment
  | [] => []
  | entries :: rest =>
    match store.save entries fs with
    | (.ok (some segment), store, fs) => segment :: savedSegments store fs rest
    | (_, store, fs) => savedSegments store fs rest

/-- **A save puts a segment in front or none**, and the folder stores what the set has then. -/
theorem saveAll_cons (h : fs.Stores store.folder place set.segments) (hlinks : fs.LinkFree place)
    (habove : ∀ s ∈ set.segments, s.priority < store.counter.next)
    (hroom : store.counter.next.toNat + 1 < UInt64.size) {entries : List Entry}
    (hascending : Entry.Ascending entries) (rest : List (List Entry)) :
    ∃ (next : Store) (after : SegmentSet) (files : FileSystem) (front : Option Segment),
      store.saveAll set fs (entries :: rest) = next.saveAll after files rest ∧
      store.savedSegments fs (entries :: rest) = front.toList ++ next.savedSegments files rest ∧
      next.folder = store.folder ∧
      next.counter.next.toNat ≤ store.counter.next.toNat + 1 ∧ files.Within fs ∧
      after.segments = front.toList ++ set.segments ∧
      files.Stores store.folder place after.segments ∧
      ∀ s ∈ after.segments, s.priority < next.counter.next := by
  by_cases hempty : entries = []
  · subst hempty
    exact ⟨store, set, fs, none, rfl, rfl, rfl, Nat.le_succ _, .refl fs, rfl, h, habove⟩
  have hnext := Nat.le_of_eq (toNat_advance hroom)
  rcases save_stores h (hlinks.steady h.directory) habove hascending hempty with
    ⟨htable, files, hsave, hstores, hbeside⟩ | ⟨e, files, hsave, hstores, hwithin, -, -⟩
  · have hsegments : (set.insert (store.savedOf htable)).segments =
        store.savedOf htable :: set.segments :=
      SegmentSet.segments_insert fun s hs => UInt64.le_of_lt (habove s hs)
    refine ⟨store.advance, set.insert (store.savedOf htable), files, some (store.savedOf htable), ?_,
      ?_, rfl, hnext, hbeside.within, hsegments, hsegments ▸ hstores, ?_⟩
    · rw [saveAll, hsave]
    · rw [savedSegments, hsave]
      rfl
    · exact hsegments ▸ below_advance_cons habove hroom rfl
  · refine ⟨store.advance, set, files, none, ?_, ?_, rfl, hnext, hwithin, rfl, hstores,
      below_advance habove hroom⟩
    · rw [saveAll, hsave]
    · rw [savedSegments, hsave]
      rfl

/-- **Saves put what they make in front**, and the folder stores what the set has. -/
theorem saveAll_segments (h : fs.Stores store.folder place set.segments)
    (hlinks : fs.LinkFree place) (habove : ∀ s ∈ set.segments, s.priority < store.counter.next)
    (hascending : ∀ es ∈ saves, Entry.Ascending es)
    (hroom : store.counter.next.toNat + saves.length < UInt64.size)
    (hsaves : store.saveAll set fs saves = (saved, current, written)) :
    saved.folder = store.folder ∧ written.Within fs ∧
      current.segments = (store.savedSegments fs saves).reverse ++ set.segments ∧
      written.Stores store.folder place current.segments ∧
      ∀ s ∈ current.segments, s.priority < saved.counter.next := by
  induction saves generalizing store set fs with
  | nil =>
    obtain ⟨rfl, rfl, rfl⟩ : store = saved ∧ set = current ∧ fs = written := by
      simpa [saveAll] using hsaves
    exact ⟨rfl, .refl fs, rfl, h, habove⟩
  | cons entries rest ih =>
    rw [List.length_cons] at hroom
    obtain ⟨next, after, files, front, hstep, hmade, hfolder, hnext, hwithin, hfront, hstores,
      hbelow⟩ := saveAll_cons h hlinks habove (by omega) (hascending _ List.mem_cons_self) rest
    obtain ⟨hfolder', hwithin', hnewer, hstores', hbelow'⟩ :=
      ih (hfolder ▸ hstores) (hlinks.of_within hwithin) hbelow
        (fun es hes => hascending es (List.mem_cons_of_mem _ hes)) (by omega) (hstep ▸ hsaves)
    refine ⟨hfolder'.trans hfolder, hwithin'.trans hwithin, ?_, hfolder ▸ hstores', hbelow'⟩
    rw [hnewer, hfront, hmade]
    cases front <;> simp

theorem saveAll_stores (h : fs.Stores store.folder place set.segments) (hlinks : fs.LinkFree place)
    (habove : ∀ s ∈ set.segments, s.priority < store.counter.next)
    (hascending : ∀ es ∈ saves, Entry.Ascending es)
    (hroom : store.counter.next.toNat + saves.length < UInt64.size)
    (hsaves : store.saveAll set fs saves = (saved, current, written)) :
    saved.folder = store.folder ∧ written.Within fs ∧
      (∃ newer, current.segments = newer ++ set.segments) ∧
      written.Stores store.folder place current.segments ∧
      ∀ s ∈ current.segments, s.priority < saved.counter.next := by
  obtain ⟨hfolder, hwithin, hnewer, hrest⟩ :=
    saveAll_segments h hlinks habove hascending hroom hsaves
  exact ⟨hfolder, hwithin, ⟨_, hnewer⟩, hrest⟩

/-! ## Failing -/

/-- With the merged segment above all newer ones, the folder answers as before where these agree
with it. -/
theorem reopens_above_iff {newer : List Segment} {live : List Entry}
    (hnewer : current.segments = newer ++ inputs.segments) (hintact : current.Intact)
    (habove : ∀ s ∈ current.segments, s.priority < store.counter.next)
    (hlive : inputs.contents.Lists live) (htable : Segment.Table live)
    (h : files.Stores store.folder place (store.savedOf htable :: newer)) :
    Reopens files store.folder current ↔
      store.counter.next.toNat + 1 < UInt64.size ∧
        ∀ key value, inputs.contents key = some value →
          ∀ entry ∈ Entry.first? key (newer.flatMap Segment.entries), entry.value = some value := by
  have hall : (∀ s ∈ store.savedOf htable :: newer, s.priority.toNat + 1 < UInt64.size) ↔
      store.counter.next.toNat + 1 < UInt64.size := by
    refine ⟨fun hall => hall _ List.mem_cons_self, fun hroom s hs => ?_⟩
    rcases List.mem_cons.mp hs with rfl | hs
    · exact hroom
    · exact room_of_below habove s (by simp [hnewer, hs])
  have hmerged : (store.savedOf htable).entries = live := Segment.entries_ofTable _ _ htable
  have hswap := @Contents.Lists.ofEntries_swap_iff live (newer.flatMap Segment.entries) _ hlive
  rw [← List.flatMap_append, ← hnewer] at hswap
  rw [reopens_iff h hintact, hall, Contents.ofSegments, List.flatMap_cons, hmerged]
  exact and_congr_right fun _ => hswap

/-- **After a failed compaction** the folder stores what it did, or the merged segment above all
newer ones. -/
theorem reopens_of_failure_iff {newer : List Segment} (hnewer : current.segments = newer ++ inputs.segments)
    (h : fs.Stores store.folder place current.segments) (hlinks : fs.LinkFree place)
    (habove : ∀ s ∈ current.segments, s.priority < store.counter.next)
    (hfails : store.compact inputs fs = (.error e, after, files)) :
    Reopens files store.folder current ↔
      ∀ image, files.node? (place ++ [(StoreFile.segment store.counter.next).name]) =
          some (.file image) →
        store.counter.next.toNat + 1 < UInt64.size ∧
          ∀ key value, inputs.contents key = some value →
            ∀ entry ∈ Entry.first? key (newer.flatMap Segment.entries),
              entry.value = some value := by
  have hintact : current.Intact := h.filed.intact
  have hinputs : inputs.Intact := fun s hs => hintact s (by simp [hnewer, hs])
  have hsize := size_of_compact_error hfails
  obtain ⟨live, hentries, hlive⟩ := hinputs.liveEntries
  have hstores := h
  rw [hnewer] at hstores
  rcases compact_stores hstores hlinks (by rwa [← hnewer]) hsize hentries hlive.ascending with
    ⟨output, other, hdone, -⟩ | ⟨e', other, hfails', hother, -, -⟩ | ⟨e', other, htable, hfails', hother, -⟩
  · simp [hdone] at hfails
  · -- nothing was saved, so there is no file above the others
    obtain ⟨-, -, rfl⟩ : e' = e ∧ store.advance = after ∧ other = files := by
      simpa [hfails'] using hfails
    rw [← hnewer] at hother
    refine iff_of_true ((reopens_iff hother hintact).mpr ⟨room_of_below habove, rfl⟩)
      fun image hfile => ?_
    obtain ⟨s, hs, hpriority, -⟩ := hother.mirrors.file_iff.mp hfile
    have hlt := habove s hs
    rw [hpriority] at hlt
    exact absurd hlt (UInt64.lt_irrefl _)
  · obtain ⟨-, -, rfl⟩ : e' = e ∧ store.advance = after ∧ other = files := by
      simpa [hfails'] using hfails
    have hfile := hother.mirrors.file (s := store.savedOf htable) List.mem_cons_self
    rw [reopens_above_iff hnewer hintact habove hlive htable hother]
    exact ⟨fun hboth _ _ => hboth, fun himp => himp _ hfile⟩

/-- **What a failed compaction leaves.**  The compaction merges the segments that the folder stored
once, and others were saved since.  If it fails, the folder answers as the current segments do if
and only if the merged segment has not got its name, or it has got it, there is a priority above it,
and each of its keys that was written since has the same value still. -/
theorem reopens_after_failure_iff (h : fs.Stores store.folder place inputs.segments)
    (hlinks : fs.LinkFree place) (habove : ∀ s ∈ inputs.segments, s.priority < store.counter.next)
    (hascending : ∀ es ∈ saves, Entry.Ascending es)
    (hroom : store.counter.next.toNat + saves.length < UInt64.size)
    (hsaves : store.saveAll inputs fs saves = (saved, current, written))
    (hfails : saved.compact inputs written = (.error e, after, files)) :
    Reopens files store.folder current ↔
      ∀ image, files.node? (place ++ [(StoreFile.segment saved.counter.next).name]) =
          some (.file image) →
        saved.counter.next.toNat + 1 < UInt64.size ∧
          ∀ key value, inputs.contents key = some value →
            ∀ entry ∈ Entry.first? key (newerEntries current inputs),
              entry.value = some value := by
  obtain ⟨hfolder, hwithin, ⟨newer, hnewer⟩, hstores, hbelow⟩ :=
    saveAll_stores h hlinks habove hascending hroom hsaves
  have hentries : newerEntries current inputs = newer.flatMap Segment.entries := by
    simp [newerEntries, SegmentSet.size, hnewer]
  rw [hentries, ← hfolder]
  exact reopens_of_failure_iff hnewer (hfolder ▸ hstores) (hlinks.of_within hwithin) hbelow hfails

/-! ## An older value that comes back

Two segments with one value of one key, in a folder where a directory has the lowest segment's name.
The key is written again before the compaction starts. -/

/-- A segment of the folder with one value of one byte. -/
def singleSegment (priority : Priority) (key value : UInt8) : Segment :=
  .ofTable priority ((StoreFile.segment priority).path ["store"]) (table_byte key value)

/-- The segments that are merged. -/
def blockedInputs : SegmentSet :=
  ⟨[singleSegment 2 97 49, singleSegment 1 97 49], by simp [singleSegment]⟩

/-- The folder with the directory and the two files. -/
def blockedFiles : FileSystem :=
  (((ofFolder "store").put (["store"] ++ [(StoreFile.segment .lowest).name]) .directory).put
    (["store"] ++ [(StoreFile.segment 1).name]) (.file (singleSegment 1 97 49).image)).put
    (["store"] ++ [(StoreFile.segment 2).name]) (.file (singleSegment 2 97 49).image)

/-- The store that owns the two segments. -/
def blockedStore : Store := ⟨["store"], ⟨3⟩⟩

theorem filed_blockedInputs : Segment.Filed ["store"] blockedInputs.segments where
  intact := by simp [blockedInputs, singleSegment, Segment.intact_ofTable]
  path_eq := by simp [blockedInputs, singleSegment]
  descending := by simp [blockedInputs, singleSegment]

theorem stores_blockedFiles : blockedFiles.Stores ["store"] ["store"] blockedInputs.segments := by
  have hempty := stores_ofFolder (@directoryAt_ofFolder "store" (by decide) (by decide))
  have hdirectory := hempty.put_directory (StoreFile.utf8ByteSize_name_le (.segment .lowest))
    (by simp [node?_ofFolder])
  have hfirst := hdirectory.put_segment (s := singleSegment 1 97 49) []
    (filed_blockedInputs.sublist (by simp [blockedInputs])) fun node hnode => by
      rw [node?_put _ _ _ (by simp), node?_ofFolder] at hnode
      simp [singleSegment, StoreFile.name_inj, Priority.lowest] at hnode
  refine hfirst.put_segment (s := singleSegment 2 97 49) [] filed_blockedInputs fun node hnode => ?_
  rw [node?_put _ _ _ (by simp), node?_put _ _ _ (by simp), node?_ofFolder] at hnode
  simp [singleSegment, StoreFile.name_inj, Priority.lowest] at hnode

/-- The only directory under a name of the store is the one of the lowest segment. -/
theorem directory_blockedFiles {file : StoreFile}
    (h : blockedFiles.node? (["store"] ++ [file.name]) = some .directory) :
    file = .segment .lowest := by
  rw [blockedFiles, node?_put _ _ _ (by simp), node?_put _ _ _ (by simp),
    node?_put _ _ _ (by simp), node?_ofFolder] at h
  simp only [List.cons.injEq, StoreFile.name_inj, and_true, true_and, List.cons_append,
    List.nil_append, reduceCtorEq, or_false, if_false, and_false] at h
  split at h
  · cases h
  split at h
  · cases h
  split at h
  · assumption
  · cases h

theorem linkFree_blockedFiles : blockedFiles.LinkFree ["store"] := by
  have hdirectory : ((ofFolder "store").put
      (["store"] ++ [(StoreFile.segment .lowest).name]) .directory).LinkFree ["store"] := by
    intro file target
    rw [node?_put _ _ _ (by simp), node?_ofFolder]
    split <;> simp
  exact hdirectory.of_within ((within_put _ _ (by simp)).trans (within_put _ _ (by simp)))

/-- The key has the value that was written first. -/
theorem lists_blockedInputs : blockedInputs.contents.Lists [⟨[97], some [49]⟩] where
  ascending := List.pairwise_singleton _ _
  mem_iff entry := by
    have hentries : blockedInputs.segments.flatMap Segment.entries =
        [⟨[97], some [49]⟩, ⟨[97], some [49]⟩] := by
      simp [blockedInputs, singleSegment]
    rw [SegmentSet.contents, Contents.ofSegments, hentries, Contents.ofEntries]
    obtain ⟨key, value⟩ := entry
    simp only [Entry.first?_cons, Entry.first?_nil]
    by_cases hkey : [97] = key
    · subst hkey
      cases value with
      | none => simp
      | some value => simp [eq_comm]
    · have hne : key ≠ [97] := Ne.symm hkey
      cases value <;> simp [hkey, hne]

/-- Saving goes well there. -/
theorem save_blocked {segments : List Segment} {entries : List Entry} (hwithin : fs.Within blockedFiles)
    (h : fs.Stores store.folder ["store"] segments)
    (habove : ∀ s ∈ segments, s.priority < store.counter.next) (htable : Segment.Table entries)
    (hne : entries ≠ []) (hnext : store.counter.next ≠ .lowest) :
    ∃ files, store.save entries fs = (.ok (some (store.savedOf htable)), store.advance, files) ∧
      files.Stores store.folder ["store"] (store.savedOf htable :: segments) ∧
      Beside files fs ["store"] := by
  obtain ⟨_, files, hsave⟩ := save_free h (linkFree_blockedFiles.of_within hwithin) habove
    htable.ascending hne htable.fits fun file hfile hnode => by
      obtain rfl := directory_blockedFiles (hwithin _ _ rfl hnode)
      simp [Ne.symm hnext] at hfile
  exact ⟨files, hsave⟩

/-- The segment with the key written again. -/
def rewrittenSegment : Segment := blockedStore.savedOf (table_byte 97 50)

theorem segments_rewritten : (blockedInputs.insert rewrittenSegment).segments =
    rewrittenSegment :: blockedInputs.segments :=
  SegmentSet.segments_insert (by
    simp [blockedInputs, singleSegment, rewrittenSegment, savedOf, blockedStore])

/-- **The key is written again, and then the compaction fails**: the folder has the value that was
written first, above the other. -/
theorem run_blockedStore :
    ∃ saved current written e after files segments,
      blockedStore.saveAll blockedInputs blockedFiles [[⟨[97], some [50]⟩]] =
        (saved, current, written) ∧
      saved.compact blockedInputs written = (.error e, after, files) ∧
      current.contents [97] = some [50] ∧ current.Intact ∧
      files.Stores ["store"] ["store"] segments ∧
      (∀ s ∈ segments, s.priority.toNat + 1 < UInt64.size) ∧
      Contents.ofSegments segments [97] = some [49] := by
  obtain ⟨written, hsave, hstores, hbeside⟩ := @save_blocked blockedStore _ _ _
    (.refl blockedFiles) stores_blockedFiles
    (by simp [blockedInputs, blockedStore, singleSegment]) (table_byte 97 50) (by simp) (by decide)
  have hintact : blockedInputs.Intact := filed_blockedInputs.intact
  obtain ⟨live, hlive, hlists⟩ := hintact.liveEntries
  obtain rfl := hlists.unique lists_blockedInputs
  have hmerged := table_byte 97 49
  obtain ⟨merged, hsave', hstores', hbeside'⟩ := @save_blocked blockedStore.advance _ _ _
    hbeside.within hstores (by
      simp [blockedInputs, blockedStore, singleSegment, savedOf, advance, Counter.advance])
    hmerged (by simp) (by decide)
  have hdirectory : blockedFiles.node? (["store"] ++ [(StoreFile.segment .lowest).name]) =
      some .directory := by
    simp [blockedFiles, node?_put, StoreFile.name_inj, Priority.lowest]
  rcases @compact_of_save blockedStore.advance written _ blockedInputs [rewrittenSegment] _ merged
      hmerged (by decide) hlive hsave' hstores'
      (linkFree_blockedFiles.of_within (hbeside'.within.trans hbeside.within)) with
    ⟨-, e, files, hfails, hfiles⟩ | ⟨hfree, -⟩
  · refine ⟨_, blockedInputs.insert rewrittenSegment, written, e, _, files, _, ?_, hfails, ?_, ?_,
      hfiles, ?_, ?_⟩
    · rw [saveAll, hsave]
      rfl
    · rw [SegmentSet.contents, segments_rewritten, Contents.ofSegments, List.flatMap_cons,
        rewrittenSegment, savedOf, Segment.entries_ofTable]
      rfl
    · rw [SegmentSet.Intact, segments_rewritten]
      exact hstores.filed.intact
    · simp [rewrittenSegment, savedOf, advance, Counter.advance, blockedStore]
      decide
    · rw [Contents.ofSegments, List.flatMap_cons, savedOf, Segment.entries_ofTable]
      rfl
  · exact absurd ((hbeside'.kept.trans hbeside.kept) _ _ rfl hdirectory fun _ _ => rfl) hfree

/-- **An older value comes back**: opened again, the folder does not have what was written last. -/
theorem older_value_returns :
    ∃ saved current written e after files opened reopened cleared,
      blockedStore.saveAll blockedInputs blockedFiles [[⟨[97], some [50]⟩]] =
        (saved, current, written) ∧
      saved.compact blockedInputs written = (.error e, after, files) ∧
      load ["store"] files = (.ok (opened, reopened), cleared) ∧
      current.answer [97] = .ok (some ⟨[97], some [50]⟩) ∧
      reopened.answer [97] = .ok (some ⟨[97], some [49]⟩) := by
  obtain ⟨saved, current, written, e, after, files, segments, hsaves, hfails, hcurrent, hintact,
    hstores, hroom, hcontents⟩ := run_blockedStore
  let stored : SegmentSet := ⟨segments, hstores.filed.descending.imp UInt64.le_of_lt⟩
  have hwhole : stored.Intact := hstores.filed.intact
  obtain ⟨counter, cleared, hload⟩ := load_eq_of_stores stored hstores hroom
  refine ⟨saved, current, written, e, after, files, ⟨["store"], counter⟩, stored, cleared, hsaves,
    hfails, hload, ?_, ?_⟩
  · rw [hintact.answer, Contents.live?, hcurrent]
    rfl
  · rw [hwhole.answer, SegmentSet.contents, Contents.live?, hcontents]
    rfl

/-- Here the folder does not answer as before, since the key was written again. -/
theorem reopens_blockedFiles_iff :
    ∃ saved current written e after files,
      blockedStore.saveAll blockedInputs blockedFiles [[⟨[97], some [50]⟩]] =
        (saved, current, written) ∧
      saved.compact blockedInputs written = (.error e, after, files) ∧
      (Reopens files ["store"] current ↔
        ∀ image, files.node? (["store"] ++ [(StoreFile.segment saved.counter.next).name]) =
            some (.file image) →
          saved.counter.next.toNat + 1 < UInt64.size ∧
            ∀ key value, blockedInputs.contents key = some value →
              ∀ entry ∈ Entry.first? key (newerEntries current blockedInputs),
                entry.value = some value) := by
  obtain ⟨saved, current, written, e, after, files, -, hsaves, hfails, -⟩ := run_blockedStore
  refine ⟨saved, current, written, e, after, files, hsaves, hfails, ?_⟩
  exact reopens_after_failure_iff stores_blockedFiles linkFree_blockedFiles
    (by simp [blockedInputs, blockedStore, singleSegment])
    (by simpa using (table_byte 97 50).ascending) (by decide) hsaves hfails

end LsmTree.Store
