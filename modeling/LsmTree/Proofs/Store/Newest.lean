import LsmTree.Proofs.Store.Failure
import LsmTree.Proofs.Store.Opening

/-!
# Proofs/Store/Newest — whether what was saved last is the newest

A store deals out priorities in ascending order, beginning above all segments that it found.  So
what is saved is above everything before it, takes no other segment's file, and is what a look-up
finds, as long as the counter does not start over.  In every folder that opens and after any number
of saves this is the exact condition (`Store.isNewest_iff`).  For the folder to open again there must
be one priority left.
-/

namespace LsmTree

/-! ## The newest segment of a set -/

namespace SegmentSet

variable {set : SegmentSet} {s : Segment}

/-- **A segment above all others comes first.** -/
theorem exists_cons_of_above (hs : s ∈ set.segments)
    (habove : ∀ t ∈ set.segments, t = s ∨ t.priority < s.priority) :
    ∃ older, set.segments = s :: older := by
  have hsorted := set.sorted
  cases hsegments : set.segments with
  | nil => simp [hsegments] at hs
  | cons newest older =>
    rw [hsegments] at hs habove hsorted
    rcases habove newest List.mem_cons_self with rfl | hlt
    · exact ⟨older, rfl⟩
    rcases List.mem_cons.mp hs with rfl | hs
    · exact ⟨older, rfl⟩
    · exact absurd ((List.pairwise_cons.mp hsorted).1 s hs) (UInt64.not_le.mpr hlt)

/-- **The first segment answers for its keys**, whatever the others hold. -/
theorem lookup_of_cons {older : List Segment} {entries : List Entry} {entry : Entry}
    (hsegments : set.segments = s :: older) (h : s.Holds entries) (hentry : entry ∈ entries) :
    set.lookup entry.key = .ok (some entry) := by
  have hfirst : s.lookup entry.key = .ok (some entry) := by
    rw [h.lookup, h.ascending.first?_eq_some_iff.mpr ⟨hentry, rfl⟩]
  rw [lookup, hsegments, lookupIn, hfirst]

end SegmentSet

variable {fs files loaded : FileSystem} {folder : Path} {place : Place} {entries : List Entry}
  {segments : List Segment} {s : Segment}

/-! ## One save -/

namespace FileSystem.Serves

variable {store after : Store} (h : fs.Serves store.folder place segments)
  (habove : ∀ t ∈ segments, t.priority < store.counter.next)
  (hsave : store.save entries fs = (.ok (some s), after, files))

include h hsave

/-- A save puts its file under the segment's name and changes nothing else. -/
theorem node?_of_save (name : String) :
    files.node? (place ++ [name]) =
      if name = (StoreFile.segment s.priority).name then some (.file s.image)
      else if name = (StoreFile.unfinished s.priority).name then none
      else fs.node? (place ++ [name]) := by
  have hunlinked := h.linkFree.unlinked h.directory
  obtain ⟨-, -, -, hperform⟩ := Store.perform_of_save hsave
  obtain ⟨-, himage, hpriority, -⟩ := Store.spec_of_save hunlinked hsave
  obtain ⟨other, hfolder, -, hnodes⟩ := Store.nodes_of_perform_save hunlinked hperform
  obtain rfl : place = other := Except.ok.inj (h.directory.symm.trans hfolder)
  simp [hnodes, himage, hpriority]

include habove

/-- **A save above all segments replaces no finished file.** -/
theorem kept_of_save {name : String} {image : Image} {priority : Priority}
    (hname : StoreFile.ofName? name = some (.segment priority))
    (hnode : fs.node? (place ++ [name]) = some (.file image)) :
    files.node? (place ++ [name]) = some (.file image) := by
  obtain ⟨-, -, hpriority, -⟩ := Store.spec_of_save (h.linkFree.unlinked h.directory) hsave
  obtain ⟨t, ht, rfl⟩ := h.listed name image priority hname hnode
  rw [h.node?_of_save hsave, if_neg, if_neg, hnode]
  · rintro rfl
    simp [StoreFile.ofName?_name] at hname
  · rintro rfl
    rw [StoreFile.ofName?_name] at hname
    have hsame : s.priority = t.priority := StoreFile.segment.inj (Option.some.inj hname)
    exact UInt64.ne_of_lt (habove t ht) (hsame.symm.trans hpriority)

/-- **What was saved above all segments is served with them.** -/
theorem save : files.Serves store.folder place (s :: segments) := by
  have hnodes := h.node?_of_save hsave
  obtain ⟨-, hload, -⟩ := Store.perform_of_save hsave
  obtain ⟨-, -, hpriority, hpath, hwithin, -⟩ :=
    Store.spec_of_save (h.linkFree.unlinked h.directory) hsave
  obtain ⟨other, hother⟩ := directoryAt_of_map (StoreFile.isName_name _)
    (Segment.load_eq_ok_iff.mp hload).1
  refine ⟨hwithin.place_eq hother h.directory ▸ hother, h.linkFree.of_within hwithin,
    List.forall_mem_cons.mpr ⟨hpriority ▸ hpath, h.path_eq⟩,
    List.forall_mem_cons.mpr ⟨?_, fun t ht => ?_⟩, fun name image priority hname hnode => ?_,
    fun name image priority hname hnode => ?_⟩
  · rw [hnodes, if_pos rfl]
  · exact h.kept_of_save habove hsave (StoreFile.ofName?_name _) (h.file t ht)
  · by_cases hnew : name = (StoreFile.segment s.priority).name
    · rw [hnew, StoreFile.ofName?_name] at hname
      exact ⟨s, List.mem_cons_self, StoreFile.segment.inj (Option.some.inj hname)⟩
    · rw [hnodes, if_neg hnew, Option.ite_none_left_eq_some] at hnode
      obtain ⟨t, ht, hpriority⟩ := h.listed name image priority hname hnode.2
      exact ⟨t, List.mem_cons_of_mem _ ht, hpriority⟩
  · rw [hnodes, if_neg, Option.ite_none_left_eq_some] at hnode
    · exact h.tidy name image priority hname hnode.2
    · rintro rfl
      simp [StoreFile.ofName?_name] at hname

end FileSystem.Serves

namespace Store

variable {store after current : Store} {set held : SegmentSet} {n : Nat}

/-! ## Save after save -/

/-- A number of saves that go well, one after the other.  Each new segment goes into the set. -/
inductive Saves (store : Store) (set : SegmentSet) (fs : FileSystem) :
    Nat → Store → SegmentSet → FileSystem → Prop
  | none : Saves store set fs 0 store set fs
  | save {n current held files entries s after written} :
      Saves store set fs n current held files →
      current.save entries files = (.ok (some s), after, written) →
      Saves store set fs (n + 1) after (held.insert s) written

/-- **Every save takes one priority**; past the greatest the counter starts over. -/
theorem Saves.counter (h : Saves store set fs n current held files) :
    current.folder = store.folder ∧
      current.counter.next.toNat = (store.counter.next.toNat + n) % UInt64.size := by
  induction h with
  | none => exact ⟨rfl, (Nat.mod_eq_of_lt store.counter.next.toNat_lt).symm⟩
  | save hsaves hsave ih =>
    obtain ⟨hfolder, hnext⟩ := ih
    have hafter := toNat_save hsave
    obtain ⟨-, -, rfl, -⟩ := perform_of_save hsave
    refine ⟨hfolder, ?_⟩
    rw [hafter, hnext]
    simp [Nat.add_assoc]

/-- **Every priority that was taken has its segment** in the set. -/
theorem Saves.exists_priority (h : Saves store set fs n current held files) {i : Nat} (hi : i < n) :
    ∃ s ∈ held.segments, s.priority.toNat = (store.counter.next.toNat + i) % UInt64.size := by
  induction h with
  | none => exact absurd hi (Nat.not_lt_zero i)
  | save hsaves hsave ih =>
    rcases Nat.lt_succ_iff_lt_or_eq.mp hi with hearlier | rfl
    · obtain ⟨s, hs, hpriority⟩ := ih hearlier
      exact ⟨s, SegmentSet.mem_insert.mpr (.inr hs), hpriority⟩
    · obtain ⟨-, hload, -⟩ := perform_of_save hsave
      obtain ⟨-, hpriority, -⟩ := Segment.load_eq_ok_iff.mp hload
      exact ⟨_, SegmentSet.mem_insert.mpr (.inl rfl), hpriority ▸ hsaves.counter.2⟩

/-- **As long as the counter does not start over** it stays above the whole set, and the folder
serves the set. -/
theorem Saves.serves (h : Saves store set fs n current held files)
    (hserves : fs.Serves store.folder place set.segments)
    (hbelow : ∀ s ∈ set.segments, s.priority < store.counter.next)
    (hroom : store.counter.next.toNat + n < UInt64.size) :
    files.Serves store.folder place held.segments ∧
      ∀ s ∈ held.segments, s.priority < current.counter.next := by
  induction h with
  | none => exact ⟨hserves, hbelow⟩
  | save hsaves hsave ih =>
    obtain ⟨hfiles, hheld⟩ := ih (by omega)
    obtain ⟨hfolder, hnext⟩ := hsaves.counter
    rw [Nat.mod_eq_of_lt (by omega)] at hnext
    rw [← hfolder] at hfiles ⊢
    have hwritten := hfiles.save hheld hsave
    obtain ⟨-, hload, rfl, -⟩ := perform_of_save hsave
    obtain ⟨-, hpriority, -⟩ := Segment.load_eq_ok_iff.mp hload
    rw [SegmentSet.segments_insert fun t ht => UInt64.le_of_lt (hpriority ▸ hheld t ht)]
    exact ⟨hwritten, below_advance_cons hheld (by rw [hnext]; omega) hpriority⟩

/-- **Nothing is above the whole set once the counter has started over**: the greatest priority was
dealt out before. -/
theorem Saves.lt_of_above (h : Saves store set fs n current held files)
    (habove : ∀ t ∈ held.segments, t.priority < s.priority) :
    store.counter.next.toNat + n < UInt64.size := by
  have hstart : store.counter.next.toNat < UInt64.size := store.counter.next.toNat_lt
  have hpriority : s.priority.toNat < UInt64.size := s.priority.toNat_lt
  by_contra hover
  obtain ⟨t, ht, hgreatest⟩ := h.exists_priority
    (show UInt64.size - 1 - store.counter.next.toNat < n by omega)
  rw [Nat.add_sub_cancel' (by omega), Nat.mod_eq_of_lt (by omega)] at hgreatest
  have hlt := UInt64.lt_iff_toNat_lt.mp (habove t ht)
  omega

/-! ## The newest segment of a store -/

/-- A segment was saved as the newest: it is above the whole set, no file of a finished segment was
replaced, and with the segment in the set each of its entries is found. -/
structure IsNewest (place : Place) (fs : FileSystem) (held : SegmentSet) (entries : List Entry)
    (s : Segment) (files : FileSystem) : Prop where
  above : ∀ t ∈ held.segments, t.priority < s.priority
  kept : ∀ name image priority, StoreFile.ofName? name = some (.segment priority) →
    fs.node? (place ++ [name]) = some (.file image) →
      files.node? (place ++ [name]) = some (.file image)
  found : ∀ entry ∈ entries, (held.insert s).lookup entry.key = .ok (some entry)

/-- The folder opens, and each of the entries is found in it. -/
def FoundAgain (files : FileSystem) (folder : Path) (entries : List Entry) : Prop :=
  ∃ store set after, load folder files = (.ok (store, set), after) ∧
    ∀ entry ∈ entries, set.lookup entry.key = .ok (some entry)

/-- **A folder with a segment above all others opens again** if there is a priority above it, and
then the entries of the segment are found. -/
theorem foundAgain_iff (h : fs.Serves folder place (s :: segments))
    (habove : ∀ t ∈ segments, t.priority < s.priority) (hholds : s.Holds entries) :
    FoundAgain fs folder entries ↔ s.priority.toNat + 1 < UInt64.size := by
  obtain ⟨set, hmem, hload⟩ := h.load
  obtain ⟨older, hsegments⟩ := SegmentSet.exists_cons_of_above ((hmem s).mpr List.mem_cons_self)
    fun t ht => (List.mem_cons.mp ((hmem t).mp ht)).imp id (habove t)
  have hroom : (∃ counter, Counter.after set.newestPriority? = .ok counter) ↔
      s.priority.toNat + 1 < UInt64.size := by
    simp [Counter.exists_after_iff, SegmentSet.newestPriority?, SegmentSet.priorities, hsegments]
  rw [← hroom]
  constructor
  · rintro ⟨store, other, after, hopen, -⟩
    obtain ⟨counter, hcounter, -⟩ := map_eq_ok_iff.mp (congrArg Prod.fst (hload.symm.trans hopen))
    exact ⟨counter, hcounter⟩
  · rintro ⟨counter, hcounter⟩
    rw [hcounter] at hload
    exact ⟨_, set, fs, hload, fun entry hentry =>
      SegmentSet.lookup_of_cons hsegments hholds hentry⟩

/-- **What is saved above all segments is the newest**, and it is found again if there is a priority
above its own. -/
theorem isNewest_of_above (h : fs.Serves store.folder place held.segments)
    (habove : ∀ t ∈ held.segments, t.priority < store.counter.next)
    (hascending : Entry.Ascending entries)
    (hsave : store.save entries fs = (.ok (some s), after, files)) :
    IsNewest place fs held entries s files ∧
      (FoundAgain files store.folder entries ↔ store.counter.next.toNat + 1 < UInt64.size) := by
  obtain ⟨hfits, himage, hpriority, -⟩ := spec_of_save (h.linkFree.unlinked h.directory) hsave
  have hholds := Segment.holds_of_image ⟨hascending, hfits⟩ himage
  have hnewest : ∀ t ∈ held.segments, t.priority < s.priority := hpriority ▸ habove
  have hinsert := SegmentSet.segments_insert fun t ht => UInt64.le_of_lt (hnewest t ht)
  refine ⟨⟨hnewest, fun _ _ _ => h.kept_of_save habove hsave, fun entry hentry => ?_⟩, ?_⟩
  · exact SegmentSet.lookup_of_cons hinsert hholds hentry
  · rw [← hpriority]
    exact foundAgain_iff (h.save habove hsave) hnewest hholds

/-- **What is saved is the newest as long as the counter has not started over**, whatever the folder
was that was opened; and if there is a priority left, it is found when the folder is opened
again. -/
theorem isNewest_iff {opened : FileSystem}
    (hload : load folder opened = (.ok (store, set), loaded))
    (hfolder : loaded.directoryAt folder = .ok place) (hlinks : loaded.LinkFree place)
    (hsaves : Saves store set loaded n current held fs) (hascending : Entry.Ascending entries)
    (hsave : current.save entries fs = (.ok (some s), after, files)) :
    (IsNewest place fs held entries s files ↔ store.counter.next.toNat + n < UInt64.size) ∧
      (IsNewest place fs held entries s files ∧ FoundAgain files folder entries ↔
        store.counter.next.toNat + n + 1 < UInt64.size) := by
  obtain ⟨rfl, hcounter, -⟩ := opened_of_load hload
  obtain ⟨hsame, hnext⟩ := hsaves.counter
  have hroom : IsNewest place fs held entries s files →
      store.counter.next.toNat + n < UInt64.size := fun hnewest => hsaves.lt_of_above hnewest.above
  have hsaved (hroom : store.counter.next.toNat + n < UInt64.size) :
      IsNewest place fs held entries s files ∧
        (FoundAgain files store.folder entries ↔
          store.counter.next.toNat + n + 1 < UInt64.size) := by
    obtain ⟨hserves, hbelow⟩ :=
      hsaves.serves (serves_of_load hload hfolder hlinks) (SegmentSet.below_of_after hcounter) hroom
    rw [Nat.mod_eq_of_lt hroom] at hnext
    rw [← hsame] at hserves ⊢
    rw [← hnext]
    exact isNewest_of_above hserves hbelow hascending hsave
  refine ⟨⟨hroom, fun h => (hsaved h).1⟩, fun ⟨hnewest, hagain⟩ => ?_, fun h => ?_⟩
  · exact (hsaved (hroom hnewest)).2.mp hagain
  · obtain ⟨hnewest, hagain⟩ := hsaved (Nat.lt_of_succ_lt h)
    exact ⟨hnewest, hagain.mpr h⟩

/-! ### The counter starts over

The newest segment of a folder has the greatest priority but one.  The first save takes the greatest
priority, and the second one the lowest. -/

/-- **A save goes well in a folder with nothing in its way**, whatever priority is next. -/
theorem save_of_plain (hfolder : fs.directoryAt store.folder = .ok place) (hplain : fs.Plain place)
    (htable : Segment.Table entries) (hne : entries ≠ []) :
    ∃ files, store.save entries fs = (.ok (some (store.savedOf htable)), store.advance, files) ∧
      files.directoryAt store.folder = .ok place ∧ files.Plain place := by
  obtain ⟨files, hsave, hkept, hnodes⟩ :=
    save_done (hplain.linkFree.steady hfolder) (hplain.ne_directory _) htable
      (hplain.ne_directory _) hne
  refine ⟨files, hsave, FileSystem.directoryAt_of_within
    (hplain.linkFree.within (.refl fs) hkept) hfolder, fun file node hnode => ?_⟩
  rw [hnodes] at hnode
  split at hnode
  · obtain rfl := Option.some.inj hnode
    rfl
  · exact hplain file node (Option.ite_none_left_eq_some.mp hnode).2

/-- The segment of the folder. -/
def lateSegment : Segment := singleSegment 18446744073709551614 97 48

/-- The set of the one segment. -/
def lateSet : SegmentSet := ⟨[lateSegment], List.pairwise_singleton _ _⟩

/-- The folder with its file. -/
def lateFiles : FileSystem :=
  (FileSystem.ofFolder "store").put (["store"] ++ [(StoreFile.segment lateSegment.priority).name])
    (.file lateSegment.image)

/-- The store, once the folder is opened. -/
def lateStore : Store := ⟨["store"], ⟨18446744073709551615⟩⟩

theorem load_lateFiles :
    ∃ loaded, load ["store"] lateFiles = (.ok (lateStore, lateSet), loaded) ∧
      loaded.directoryAt ["store"] = .ok ["store"] ∧ loaded.Plain ["store"] := by
  have hfiled : Segment.Filed ["store"] lateSet.segments := by
    refine ⟨?_, ?_, List.pairwise_singleton _ _⟩ <;>
      simp [lateSet, lateSegment, singleSegment, Segment.intact_ofTable]
  have hempty := FileSystem.stores_ofFolder
    (@FileSystem.directoryAt_ofFolder "store" (by decide) (by decide))
  have hstores : lateFiles.Stores ["store"] ["store"] lateSet.segments :=
    hempty.put_segment [] hfiled (by simp [FileSystem.node?_ofFolder])
  obtain ⟨loaded, hload, hcleared⟩ := load_of_stores lateSet hstores
  have hopen : load ["store"] lateFiles = (.ok (lateStore, lateSet), loaded) := hload
  obtain ⟨-, -, -, -, hloaded⟩ := stores_of_load hstores.directory hstores.wellFormed hopen
  refine ⟨loaded, hopen, hloaded.directory, ?_⟩
  exact ((FileSystem.plain_ofFolder "store").of_within
    (FileSystem.within_put _ _ (by simp))).of_within hcleared.within

/-- The first save takes the greatest priority: its segment is the newest, and then the folder does
not open any more. -/
theorem isNewest_lateFiles :
    ∃ loaded s after files, load ["store"] lateFiles = (.ok (lateStore, lateSet), loaded) ∧
      lateStore.save [⟨[97], some [49]⟩] loaded = (.ok (some s), after, files) ∧
      IsNewest ["store"] loaded lateSet [⟨[97], some [49]⟩] s files ∧
      ¬FoundAgain files ["store"] [⟨[97], some [49]⟩] := by
  obtain ⟨loaded, hload, hfolder, hplain⟩ := load_lateFiles
  obtain ⟨files, hsave, -⟩ :=
    @save_of_plain _ _ _ lateStore hfolder hplain (table_byte 97 49) (by simp)
  obtain ⟨hnewest, hagain⟩ := isNewest_iff hload hfolder hplain.linkFree .none
    (table_byte 97 49).ascending hsave
  refine ⟨loaded, _, _, files, hload, hsave, hnewest.mpr (by decide), fun hfound => ?_⟩
  exact absurd (hagain.mp ⟨hnewest.mpr (by decide), hfound⟩) (by decide)

/-- **The second save takes the lowest priority**: its value is not found, though it was written
last. -/
theorem newest_starts_over :
    ∃ loaded first middle files second after written,
      load ["store"] lateFiles = (.ok (lateStore, lateSet), loaded) ∧
      lateStore.save [⟨[97], some [49]⟩] loaded = (.ok (some first), middle, files) ∧
      middle.save [⟨[97], some [50]⟩] files = (.ok (some second), after, written) ∧
      second.priority = .lowest ∧
      ((lateSet.insert first).insert second).lookup [97] = .ok (some ⟨[97], some [49]⟩) := by
  obtain ⟨loaded, hload, hfolder, hplain⟩ := load_lateFiles
  obtain ⟨files, hsave, hfolder', hplain'⟩ :=
    @save_of_plain _ _ _ lateStore hfolder hplain (table_byte 97 49) (by simp)
  obtain ⟨written, hsave', -⟩ :=
    @save_of_plain _ _ _ lateStore.advance hfolder' hplain' (table_byte 97 50) (by simp)
  let first := lateStore.savedOf (table_byte 97 49)
  let second := lateStore.advance.savedOf (table_byte 97 50)
  refine ⟨loaded, first, _, files, second, _, written, hload, hsave, hsave', rfl, ?_⟩
  obtain ⟨older, hsegments⟩ :=
    @SegmentSet.exists_cons_of_above ((lateSet.insert first).insert second) first
      (by simp [SegmentSet.mem_insert]) (by
        simp [SegmentSet.mem_insert, first, second, lateSet, lateSegment, singleSegment, savedOf,
          lateStore, advance, Counter.advance])
  have hholds : first.Holds [⟨[97], some [49]⟩] := Segment.holds_of_image (table_byte 97 49) rfl
  exact SegmentSet.lookup_of_cons hsegments hholds List.mem_cons_self

end Store

end LsmTree
