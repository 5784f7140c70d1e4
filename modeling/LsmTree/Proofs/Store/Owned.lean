import LsmTree.Proofs.Store.Compact

/-!
# Proofs/Store/Owned — a store goes on to own its segments

Whatever else happens in the folder, a save that goes well puts a segment in front of those that the
store owns (`Store.Owns.save`), so memtables that are written oldest first become segments in their
own order (`Store.Owns.flushAll`), and a compaction that goes well makes one segment of the live
entries, under the lowest priority (`Store.filed_of_compact`).  All this asks only that the counter
does not start over.
-/

namespace LsmTree

open FileSystem

theorem FileSystem.Unlinked.of_within {fs after : FileSystem} {folder : Path}
    (h : fs.Unlinked folder) (hwithin : after.Within fs) : after.Unlinked folder :=
  fun place hfolder priority target hnode =>
    h place (directoryAt_of_within hwithin hfolder) priority target (hwithin _ _ rfl hnode)

namespace Store

variable {store after : Store} {fs files : FileSystem} {place : Place} {entries live : List Entry}
  {segments : List Segment} {s : Segment} {tables : List Memtable} {set : SegmentSet}
  {merged : Segment}

/-! ## Saving -/

theorem toNat_advance (hroom : store.counter.next.toNat + 1 < UInt64.size) :
    store.advance.counter.next.toNat = store.counter.next.toNat + 1 := by
  change (store.counter.next + 1).toNat = _
  rw [UInt64.toNat_add, UInt64.toNat_one, Nat.mod_eq_of_lt hroom]

theorem lt_advance (hroom : store.counter.next.toNat + 1 < UInt64.size) :
    store.counter.next < store.advance.counter.next := by
  rw [UInt64.lt_iff_toNat_lt, toNat_advance hroom]
  exact Nat.lt_succ_self _

/-- **The counter goes on above what was below it.** -/
theorem below_advance (hbelow : ∀ s ∈ segments, s.priority < store.counter.next)
    (hroom : store.counter.next.toNat + 1 < UInt64.size) :
    ∀ s ∈ segments, s.priority < store.advance.counter.next :=
  fun s hs => UInt64.lt_trans (hbelow s hs) (lt_advance hroom)

/-- The counter is above what was saved last, too. -/
theorem below_advance_cons (hbelow : ∀ s ∈ segments, s.priority < store.counter.next)
    (hroom : store.counter.next.toNat + 1 < UInt64.size) (hs : s.priority = store.counter.next) :
    ∀ t ∈ s :: segments, t.priority < store.advance.counter.next :=
  List.forall_mem_cons.mpr ⟨hs ▸ lt_advance hroom, below_advance hbelow hroom⟩

theorem Owns.advance (h : store.Owns segments) (hroom : store.counter.next.toNat + 1 < UInt64.size) :
    store.advance.Owns segments := ⟨h.filed, below_advance h.below hroom⟩

/-- **What was saved is owned**, in front of everything else. -/
theorem Owns.save (h : store.Owns segments) (hlinks : fs.Unlinked store.folder)
    (hascending : Entry.Ascending entries) {saved : Option Segment}
    (hsave : store.save entries fs = (.ok saved, after, files))
    (hroom : store.counter.next.toNat + saved.toList.length < UInt64.size) :
    after.folder = store.folder ∧
      after.counter.next.toNat = store.counter.next.toNat + saved.toList.length ∧
      after.Owns (saved.toList ++ segments) ∧ saved.toList.flatMap Segment.entries = entries ∧
      files.Unlinked store.folder := by
  cases saved with
  | none =>
    obtain rfl := eq_nil_of_save hsave
    rw [save_nil] at hsave
    obtain ⟨rfl, rfl⟩ : store = after ∧ fs = files := by simpa using hsave
    exact ⟨rfl, rfl, h, rfl, hlinks⟩
  | some s =>
    obtain ⟨hfits, himage, hpriority, hpath, hwithin, -⟩ := spec_of_save hlinks hsave
    obtain ⟨-, -, rfl, -⟩ := perform_of_save hsave
    have htable : Segment.Table entries := ⟨hascending, hfits⟩
    obtain rfl : s = store.savedOf htable := Segment.ext_image hpriority hpath himage
    exact ⟨rfl, toNat_advance hroom,
      ⟨filed_saved h.filed h.below htable, below_advance_cons h.below hroom rfl⟩,
      by simp [savedOf], hlinks.of_within hwithin⟩

/-- **Two saves in a row go well** if none of the names they use is a directory's. -/
theorem save_twice {older newer : List Entry} (h : fs.Stores store.folder place segments)
    (hlinks : fs.LinkFree place) (hbelow : ∀ s ∈ segments, s.priority < store.counter.next)
    (hroom : store.counter.next.toNat + 1 < UInt64.size)
    (hfree : ∀ file ∈ [.unfinished store.counter.next, .segment store.counter.next,
      .unfinished store.advance.counter.next, StoreFile.segment store.advance.counter.next],
      fs.node? (place ++ [file.name]) ≠ some .directory)
    (holder : Segment.Table older) (hnewer : Segment.Table newer) (hsome : older ≠ [])
    (hsome' : newer ≠ []) :
    ∃ between files,
      store.save older fs = (.ok (some (store.savedOf holder)), store.advance, between) ∧
      store.advance.save newer between =
        (.ok (some (store.advance.savedOf hnewer)), store.advance.advance, files) ∧
      files.Stores store.folder place
        (store.advance.savedOf hnewer :: store.savedOf holder :: segments) ∧ files.Within fs := by
  obtain ⟨_, between, hsave, hstores, hbeside⟩ := save_free h hlinks hbelow holder.ascending hsome
    holder.fits fun file hfile => hfree file (List.mem_append_left [_, _] hfile)
  have hstores' : between.Stores store.advance.folder place (store.savedOf holder :: segments) :=
    hstores
  obtain ⟨_, files, hsave', hlast, hbeside'⟩ := save_free hstores'
    (hlinks.of_within hbeside.within) (below_advance_cons hbelow hroom rfl) hnewer.ascending hsome'
    hnewer.fits fun file hfile hnode =>
      hfree file (List.mem_append_right [_, _] hfile) (hbeside.within _ _ rfl hnode)
  exact ⟨between, files, hsave, hsave', hlast, hbeside'.within.trans hbeside.within⟩

/-! ## Using up priorities -/

theorem advance_of_save {e : Error} (h : store.save entries fs = (.error e, after, files)) :
    after = store.advance := by
  have hstore := store_save store entries fs
  rw [h] at hstore
  cases hempty : entries.isEmpty with
  | true =>
    rw [List.isEmpty_iff.mp hempty, save_nil] at h
    cases h
  | false => rwa [hempty, if_neg (by simp)] at hstore

theorem toNat_save {saved : Option Segment}
    (h : store.save entries fs = (.ok saved, after, files)) :
    after.counter.next.toNat =
      (store.counter.next.toNat + saved.toList.length) % UInt64.size := by
  cases saved with
  | none =>
    rw [eq_nil_of_save h, save_nil] at h
    obtain ⟨rfl, -⟩ : store = after ∧ fs = files := by simpa using h
    exact (Nat.mod_eq_of_lt store.counter.next.toNat_lt).symm
  | some s =>
    obtain ⟨-, -, rfl, -⟩ := perform_of_save h
    exact UInt64.toNat_add _ _

/-- The priorities that were used up: one for each segment, and one for a failure. -/
def Flushed.taken (flushed : Flushed) : Nat :=
  flushed.written.length + if flushed.result.isOk then 0 else 1

theorem taken_flushAll {table : Memtable} {saved : Option Segment}
    (hsave : store.save table.entries fs = (.ok saved, after, files)) :
    (store.flushAll fs (table :: tables)).taken =
      saved.toList.length + (after.flushAll files tables).taken := by
  simp only [flushAll, flush, hsave, Flushed.taken, List.length_append]
  omega

/-- Writing that goes well leaves no memtable over. -/
theorem unwritten_of_isOk (h : (store.flushAll fs tables).result.isOk) :
    (store.flushAll fs tables).unwritten = [] := by
  induction tables generalizing store fs with
  | nil => rfl
  | cons table newer ih =>
    rcases hsave : store.flush table fs with ⟨e | saved, next, written⟩
    · simp only [flushAll, hsave] at h
      cases h
    · simp only [flushAll, hsave] at h ⊢
      exact ih h

/-- **The counter goes on by the priorities used up**, and starts over past the greatest. -/
theorem toNat_flushAll (store : Store) (fs : FileSystem) (tables : List Memtable) :
    (store.flushAll fs tables).store.counter.next.toNat =
        (store.counter.next.toNat + (store.flushAll fs tables).taken) % UInt64.size ∧
      (store.flushAll fs tables).taken ≤ tables.length := by
  induction tables generalizing store fs with
  | nil => exact ⟨(Nat.mod_eq_of_lt store.counter.next.toNat_lt).symm, Nat.le_refl 0⟩
  | cons table newer ih =>
    rcases hsave : store.save table.entries fs with ⟨e | saved, after, files⟩
    · obtain rfl := advance_of_save hsave
      simp only [flushAll, flush, hsave, Flushed.taken]
      exact ⟨UInt64.toNat_add _ _, Nat.succ_le_succ (Nat.zero_le _)⟩
    · obtain ⟨hnext, hle⟩ := ih after files
      have hlength : saved.toList.length ≤ 1 := by cases saved <;> simp
      rw [taken_flushAll hsave, List.length_cons]
      refine ⟨?_, by omega⟩
      simp only [flushAll, flush, hsave]
      rw [hnext, toNat_save hsave, Nat.mod_add_mod, Nat.add_assoc]

/-- A counter that is not lower afterwards did not start over. -/
theorem room_of_flushAll (hlength : tables.length ≤ store.counter.next.toNat)
    (hcounted : store.counter.next ≤ (store.flushAll fs tables).store.counter.next) :
    store.counter.next.toNat + (store.flushAll fs tables).taken < UInt64.size := by
  obtain ⟨hnext, hle⟩ := toNat_flushAll store fs tables
  have hlt : store.counter.next.toNat < UInt64.size := store.counter.next.toNat_lt
  rw [UInt64.le_iff_toNat_le, hnext] at hcounted
  refine Nat.lt_of_not_le fun hover => ?_
  rw [Nat.mod_eq_sub_mod hover, Nat.mod_eq_of_lt (by omega)] at hcounted
  omega

theorem room_of_advance (hcounted : store.counter.next ≤ store.advance.counter.next) :
    store.counter.next.toNat + 1 < UInt64.size := by
  have hadvance : store.advance.counter.next.toNat =
      (store.counter.next.toNat + 1) % UInt64.size := UInt64.toNat_add _ _
  have hlt : store.counter.next.toNat < UInt64.size := store.counter.next.toNat_lt
  rw [UInt64.le_iff_toNat_le, hadvance] at hcounted
  refine Nat.lt_of_not_le fun hover => ?_
  have hwrap : store.counter.next.toNat + 1 = UInt64.size := by omega
  rw [hwrap, Nat.mod_self] at hcounted
  have hsize : UInt64.size = 2 ^ 64 := rfl
  omega

/-- Segments below the counter leave room for one priority above them. -/
theorem room_of_below {segments : List Segment} (h : ∀ s ∈ segments, s.priority < store.counter.next) :
    ∀ s ∈ segments, s.priority.toNat + 1 < UInt64.size := by
  intro s hs
  have hlt := UInt64.lt_iff_toNat_lt.mp (h s hs)
  have hnext : store.counter.next.toNat < UInt64.size := store.counter.next.toNat_lt
  omega

/-! ## Writing several memtables -/

/-- **Memtables become segments in their own order**: what is written is owned, and stands for the
oldest memtables. -/
theorem Owns.flushAll (h : store.Owns segments) (hlinks : fs.Unlinked store.folder)
    (hroom : store.counter.next.toNat + (store.flushAll fs tables).taken < UInt64.size) :
    (store.flushAll fs tables).store.folder = store.folder ∧
      (store.flushAll fs tables).store.Owns
        ((store.flushAll fs tables).written.reverse ++ segments) ∧
      ∃ done, tables = done ++ (store.flushAll fs tables).unwritten ∧
        (store.flushAll fs tables).written.reverse.flatMap Segment.entries =
          done.reverse.flatMap Memtable.entries := by
  induction tables generalizing store fs segments with
  | nil => exact ⟨rfl, h, [], rfl, rfl⟩
  | cons table newer ih =>
    rcases hsave : store.save table.entries fs with ⟨e | saved, next, written⟩
    · obtain rfl := advance_of_save hsave
      simp only [Store.flushAll, flush, hsave, Flushed.taken] at hroom ⊢
      exact ⟨rfl, h.advance hroom, [], rfl, rfl⟩
    · rw [taken_flushAll hsave] at hroom
      obtain ⟨hfolder, hnext, howns, hentries, hlinks'⟩ :=
        h.save hlinks table.pairwise_entries hsave (by omega)
      obtain ⟨hfolder', howns', done, hdone, hwritten⟩ :=
        ih howns (hfolder ▸ hlinks') (by rw [hnext]; omega)
      simp only [Store.flushAll, flush, hsave]
      refine ⟨hfolder'.trans hfolder, ?_, table :: done, ?_, ?_⟩
      · have hreverse : (saved.toList ++ (next.flushAll written newer).written).reverse ++ segments =
            (next.flushAll written newer).written.reverse ++ (saved.toList ++ segments) := by
          cases saved <;> simp
        rw [hreverse]
        exact howns'
      · rw [List.cons_append, ← hdone]
      · cases saved with
        | none =>
          rw [Option.toList_none, List.flatMap_nil] at hentries
          simp [hwritten, ← hentries]
        | some s =>
          rw [Option.toList_some, List.flatMap_singleton] at hentries
          simp [hwritten, hentries]

/-! ## Merging -/

/-- **A compaction takes one priority at most.** -/
theorem store_compact (store : Store) (set : SegmentSet) (fs : FileSystem) :
    (store.compact set fs).2.1 = store ∨ (store.compact set fs).2.1 = store.advance := by
  unfold compact
  split
  · exact .inl rfl
  · split
    · exact .inl rfl
    · rename_i live _
      have hstore : (store.save live fs).2.1 = store ∨ (store.save live fs).2.1 = store.advance := by
        rw [store_save]
        split
        · exact .inl rfl
        · exact .inr rfl
      rcases hsave : store.save live fs with ⟨e | saved, next, written⟩ <;> rw [hsave] at hstore
      · exact hstore
      · dsimp only
        split
        · exact hstore
        · split <;> exact hstore

/-- **Removing inputs keeps every other segment's file.** -/
theorem perform_removed {folder : Path} {base : FileSystem} {priority : Priority}
    {steps : List FileStep} (hwithin : fs.Within base)
    (hfolder : base.directoryAt folder = .ok place)
    (hpath : ∀ s ∈ segments, s.path = (StoreFile.segment s.priority).path folder)
    (hother : ∀ s ∈ segments, s.priority ≠ priority)
    (h : fs.perform (segments.map (fun s => FileStep.remove s.path) ++ steps) = (.ok (), files)) :
    ∃ removed : FileSystem, removed.perform steps = (.ok (), files) ∧ removed.Within base ∧
      removed.node? (place ++ [(StoreFile.segment priority).name]) =
        fs.node? (place ++ [(StoreFile.segment priority).name]) := by
  induction segments generalizing fs with
  | nil => exact ⟨fs, h, hwithin, rfl⟩
  | cons s older ih =>
    obtain ⟨next, hremove, hrest⟩ := perform_cons_eq_ok h
    rw [apply, hpath s List.mem_cons_self, StoreFile.path] at hremove
    obtain ⟨place', hfolder', rfl⟩ :=
      eq_erase_of_remove (StoreFile.isName_name _) (StoreFile.utf8ByteSize_name_le _) hremove
    obtain rfl := hwithin.place_eq hfolder' hfolder
    obtain ⟨removed, hsteps, hremoved, hnode⟩ :=
      ih ((within_erase fs (by simp)).trans hwithin)
        (fun t ht => hpath t (List.mem_cons_of_mem _ ht))
        (fun t ht => hother t (List.mem_cons_of_mem _ ht)) hrest
    refine ⟨removed, hsteps, hremoved, hnode.trans ?_⟩
    have hne : (StoreFile.segment priority).name ≠ (StoreFile.segment s.priority).name := by
      rw [ne_eq, StoreFile.name_inj, StoreFile.segment.injEq]
      exact fun heq => hother s List.mem_cons_self heq.symm
    rw [node?_erase fs _ (by simp), if_neg (by simpa using hne)]

/-- **After the installation the merged file has the lowest name**, whatever else is in the
folder. -/
theorem perform_installed {base : FileSystem} {priority : Priority} {image : Image}
    (hwithin : fs.Within base) (hfolder : base.directoryAt store.folder = .ok place)
    (h : store.Owns set.segments) (hother : ∀ s ∈ set.segments, s.priority ≠ priority)
    (hne : priority ≠ .lowest)
    (hnode : fs.node? (place ++ [(StoreFile.segment priority).name]) = some (.file image))
    (hinstall : fs.perform (store.installSteps set (some (store.pathOf (.segment priority)))) =
      (.ok (), files)) :
    files.Within base ∧
      files.node? (place ++ [(StoreFile.segment .lowest).name]) = some (.file image) := by
  have hname := StoreFile.isName_name
  have hshort := StoreFile.utf8ByteSize_name_le
  obtain ⟨removed, hrename, hremoved, hkept⟩ :=
    perform_removed hwithin hfolder h.filed.path_eq hother hinstall
  obtain ⟨renamed, hmoved, hnil⟩ := perform_cons_eq_ok hrename
  obtain ⟨-, rfl⟩ := Prod.mk.inj hnil
  obtain ⟨place', hfolder'⟩ := directoryAt_of_rename (hname _) hmoved
  obtain rfl := hremoved.place_eq hfolder' hfolder
  obtain ⟨-, rfl⟩ := eq_put_erase_of_rename hfolder' (hname _) (hshort _) (hname _) (hshort _)
    (by rwa [ne_eq, StoreFile.name_inj, StoreFile.segment.injEq]) rfl (hkept.trans hnode) hmoved
  exact ⟨((within_put _ _ (by simp)).trans (within_erase _ (by simp))).trans hremoved,
    node?_put_self _ _ (by simp)⟩

/-- **What a compaction leaves is one segment of the live entries**, under the lowest priority. -/
theorem filed_of_compact (h : store.Owns set.segments) (hlinks : fs.Unlinked store.folder)
    (hlive : set.liveEntries = .ok live) (hascending : Entry.Ascending live) {done : Compaction}
    (hcompact : store.compact set fs = (.ok (some done), after, files)) :
    done.inputs = set.priorities ∧ done.output.toList.flatMap Segment.entries = live ∧
      Segment.Filed store.folder done.output.toList ∧
      ∀ s ∈ done.output, s.priority = .lowest := by
  obtain ⟨hsize, other, saved, written, hother, hsave, hinstall, hinputs, hload⟩ :=
    spec_of_compact hcompact
  obtain rfl : live = other := Except.ok.inj (hlive.symm.trans hother)
  obtain ⟨inputs, output⟩ := done
  cases saved with
  | none =>
    obtain rfl := eq_nil_of_save hsave
    obtain rfl : none = output := by simpa [loadMerged] using hload
    exact ⟨hinputs, rfl, ⟨by simp, by simp, .nil⟩, by simp⟩
  | some merged =>
    obtain ⟨hfits, himage, hpriority, hpath, hwithin, place, hfolder, hnode⟩ :=
      spec_of_save hlinks hsave
    obtain ⟨-, -, rfl, -⟩ := perform_of_save hsave
    obtain ⟨t, ht⟩ := List.exists_mem_of_ne_nil set.segments (SegmentSet.ne_nil_of_size hsize)
    rw [Option.map_some, hpath] at hinstall
    obtain ⟨hlater, hfile⟩ := perform_installed hwithin hfolder h
      (fun s hs => UInt64.ne_of_lt (h.below s hs)) (Priority.ne_lowest_of_lt (h.below t ht)) hnode
      hinstall
    change some <$> Segment.load files (store.pathOf (.segment .lowest)) .lowest = _ at hload
    obtain ⟨lowest, hopen, rfl⟩ := map_eq_ok_iff.mp hload
    obtain ⟨hzero, hplace, himage'⟩ := spec_of_load hlater hfolder hfile hopen
    have htable : Segment.Table live := ⟨hascending, hfits⟩
    obtain rfl : lowest = lowestOf store.folder htable :=
      Segment.ext_image hzero hplace (himage'.trans himage)
    have hfiled := filed_lowest (h.filed.sublist (List.nil_sublist _)) (by simp) htable
    exact ⟨hinputs, by simp [lowestOf], hfiled, by simp [lowestOf]⟩

end Store

end LsmTree
