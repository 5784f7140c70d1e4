import LsmTree.Proofs.Store.Compact
import LsmTree.Proofs.Store.Load

/-!
# Proofs/Store/Crash — a compaction that is cut short

A process may end after any step of a compaction.  What the folder stores then are the merged
entries, and behind them the inputs that were not removed yet (`Store.leftOver_of_cut`).  The merged
entries have lost their tombstones while older inputs are still there, so a deleted key comes back
if an input that is left has a value for it, and this is the only way in which a cut shows
(`Store.reopens_after_cut_iff`).
-/

namespace LsmTree.Store

open FileSystem

variable {store : Store} {fs after : FileSystem} {place : Place} {set : SegmentSet}
  {live : List Entry}

/-- The number of inputs that are gone after the first steps of a compaction with the given live
entries.  The merged segment takes two steps before the first input goes. -/
def inputsRemoved (live : List Entry) (cut : Nat) : Nat :=
  if live.isEmpty then cut else if Segment.encodedSize live < Word.signBit then cut - 2 else 0

/-- The inputs that are still there after the first steps of a compaction. -/
def inputsLeft (set : SegmentSet) (live : List Entry) (cut : Nat) : List Segment :=
  set.segments.drop (inputsRemoved live cut)

/-- **A written unfinished file** is there, and took no directory's place. -/
theorem eq_put_of_apply {segments : List Segment} {image : Image} {priority : Priority}
    (h : fs.Stores store.folder place segments) (hlinks : fs.LinkFree place)
    (hwrite : fs.apply (.write (store.pathOf (.unfinished priority)) image) = .ok after) :
    fs.node? (place ++ [(StoreFile.unfinished priority).name]) ≠ some .directory ∧
      after = fs.put (place ++ [(StoreFile.unfinished priority).name]) (.file image) := by
  have hput : fs.write (store.pathOf (.unfinished priority)) image = _ :=
    write_file h.directory (hlinks _)
  rw [apply, hput] at hwrite
  split at hwrite
  · cases hwrite
  · rename_i hdirectory
    exact ⟨hdirectory, (Except.ok.inj hwrite).symm⟩

/-- The folder stores segments, none above the counter, that amount to the live entries and to the
inputs that are left behind them. -/
def LeftOver (store : Store) (fs : FileSystem) (place : Place) (live : List Entry)
    (left : List Segment) : Prop :=
  ∃ segments, fs.Stores store.folder place segments ∧
    (∀ s ∈ segments, s.priority ≤ store.counter.next) ∧
    Contents.ofSegments segments = .ofEntries (live ++ left.flatMap Segment.entries)

/-- As long as all inputs are there, the merged entries in front of them change nothing. -/
theorem leftOver_of_stores (h : fs.Stores store.folder place set.segments)
    (habove : ∀ s ∈ set.segments, s.priority < store.counter.next)
    (hlive : set.contents.Lists live) : LeftOver store fs place live set.segments :=
  ⟨set.segments, h, fun s hs => UInt64.le_of_lt (habove s hs),
    (hlive.ofEntries_append_eq_iff.mpr fun _ hnone => hnone).symm⟩

/-! ## Installing the merged segment -/

/-- While inputs are removed the merged segment stays in front of those that are left. -/
theorem leftOver_of_removals (htable : Segment.Table live)
    (h : fs.Stores store.folder place (store.savedOf htable :: set.segments)) {cut : Nat}
    (hcut : fs.perform ((set.segments.map fun s => FileStep.remove s.path).take cut) =
      (.ok (), after)) : LeftOver store after place live (set.segments.drop cut) := by
  obtain ⟨other, hperform, hstores, -⟩ :=
    @perform_removals store fs place [store.savedOf htable] set.segments h cut
  obtain rfl : after = other := by simpa [hcut] using hperform
  refine ⟨_, hstores, fun s hs => ?_, by simp [Contents.ofSegments, savedOf]⟩
  rcases List.mem_append.mp hs with hs | hs
  · rw [List.mem_singleton.mp hs]
    exact UInt64.le_refl _
  · exact UInt64.le_of_lt
      ((List.pairwise_cons.mp h.filed.descending).1 s (List.mem_of_mem_drop hs))

/-- In the end the merged segment is the only one, and has the lowest priority. -/
theorem leftOver_of_installed (htable : Segment.Table live)
    (h : fs.Stores store.folder place (store.savedOf htable :: set.segments))
    (hlinks : fs.LinkFree place) (hne : store.counter.next ≠ .lowest)
    (hall : fs.perform (store.installSteps set (some (store.savedOf htable).path)) =
      (.ok (), after)) : LeftOver store after place live [] := by
  have hfiled : Segment.Filed store.folder ([] ++ [lowestOf store.folder htable]) :=
    filed_lowest (h.filed.sublist (List.nil_sublist _)) (by simp) htable
  rcases @perform_install store fs place set [] (store.savedOf htable)
      (lowestOf store.folder htable) h hlinks hfiled rfl rfl hne with
    ⟨-, other, hfails, -⟩ | ⟨-, other, hinstalled, hstores, -⟩
  · simp [hall] at hfails
  · obtain rfl : after = other := by simpa [hall] using hinstalled
    refine ⟨_, hstores, fun s hs => ?_, by simp [Contents.ofSegments, lowestOf]⟩
    obtain rfl : s = lowestOf store.folder htable := by simpa using hs
    exact UInt64.zero_le

/-- What is left once the merged segment has its name, after some of the steps that install it. -/
theorem leftOver_of_install (htable : Segment.Table live)
    (h : fs.Stores store.folder place (store.savedOf htable :: set.segments))
    (hlinks : fs.LinkFree place) (hne : store.counter.next ≠ .lowest) {cut : Nat}
    (hcut : fs.perform ((store.installSteps set (some (store.savedOf htable).path)).take cut) =
      (.ok (), after)) : LeftOver store after place live (set.segments.drop cut) := by
  rcases Nat.lt_or_ge set.segments.length cut with hall | hsome
  · have hlength : (store.installSteps set (some (store.savedOf htable).path)).length ≤ cut := by
      simp only [installSteps, List.length_append, List.length_map, Option.toList_some,
        List.length_singleton]
      omega
    rw [List.take_of_length_le hlength] at hcut
    rw [List.drop_eq_nil_of_le (Nat.le_of_lt hall)]
    exact leftOver_of_installed htable h hlinks hne hcut
  · rw [take_installSteps hsome] at hcut
    exact leftOver_of_removals htable h hcut

/-! ## Every cut -/

/-- A cut of a sequence is before its first step or after it. -/
theorem perform_take_cons {step : FileStep} {rest : List FileStep} {cut : Nat}
    (h : fs.perform ((step :: rest).take cut) = (.ok (), after)) :
    cut = 0 ∧ fs = after ∨ ∃ later next, cut = later + 1 ∧ fs.apply step = .ok next ∧
      next.perform (rest.take later) = (.ok (), after) := by
  cases cut with
  | zero => exact .inl ⟨rfl, by simpa using h⟩
  | succ later =>
    obtain ⟨next, hstep, hrest⟩ := perform_cons_eq_ok h
    exact .inr ⟨later, next, rfl, hstep, hrest⟩

/-- Entries that fit in a file: it is written, takes the segment's name, and is installed. -/
theorem leftOver_of_fits (h : fs.Stores store.folder place set.segments)
    (hlinks : fs.LinkFree place) (habove : ∀ s ∈ set.segments, s.priority < store.counter.next)
    (hsome : set.segments ≠ []) (hlive : set.contents.Lists live)
    (hfits : Segment.encodedSize live < Word.signBit) {cut : Nat}
    (hcut : fs.perform ((.write (store.pathOf (.unfinished store.counter.next)) (Segment.encode live) ::
      .rename (store.pathOf (.unfinished store.counter.next))
        (store.pathOf (.segment store.counter.next)) ::
      store.installSteps set (some (store.pathOf (.segment store.counter.next)))).take cut) =
        (.ok (), after)) :
    LeftOver store after place live (set.segments.drop (cut - 2)) := by
  obtain ⟨s, hs⟩ := List.exists_mem_of_ne_nil set.segments hsome
  have hne := Priority.ne_lowest_of_lt (habove s hs)
  have htable : Segment.Table live := ⟨hlive.ascending, hfits⟩
  have hsteady := hlinks.steady h.directory
  rcases perform_take_cons hcut with ⟨rfl, rfl⟩ | ⟨later, written, rfl, hwrite, hcut⟩
  · exact leftOver_of_stores h habove hlive
  obtain ⟨hdirectory, hwritten⟩ := eq_put_of_apply h hlinks hwrite
  rcases perform_take_cons hcut with ⟨rfl, rfl⟩ | ⟨later, renamed, rfl, hrename, hcut⟩
  · exact leftOver_of_stores (hwritten ▸ h.put_unfinished _ (hsteady.isFile hdirectory)) habove hlive
  rcases rename_unfinished h hsteady habove htable hdirectory hwritten with
    ⟨-, hfails⟩ | ⟨-, other, hmoves, hrenamed, hbeside⟩
  · simp [apply, hfails] at hrename
  · obtain rfl : other = renamed := by simpa [apply, hmoves] using hrename
    exact leftOver_of_install htable hrenamed (hlinks.of_within hbeside.within) hne hcut

/-- Too many entries for a file: an empty one comes and goes. -/
theorem leftOver_of_oversize (h : fs.Stores store.folder place set.segments)
    (hlinks : fs.LinkFree place) (habove : ∀ s ∈ set.segments, s.priority < store.counter.next)
    (hlive : set.contents.Lists live) {cut : Nat}
    (hcut : fs.perform ([.write (store.pathOf (.unfinished store.counter.next)) #[],
      .remove (store.pathOf (.unfinished store.counter.next))].take cut) = (.ok (), after)) :
    LeftOver store after place live set.segments := by
  rcases perform_take_cons hcut with ⟨-, rfl⟩ | ⟨later, written, -, hwrite, hcut⟩
  · exact leftOver_of_stores h habove hlive
  obtain ⟨hdirectory, hwritten⟩ := eq_put_of_apply h hlinks hwrite
  have hstores : written.Stores store.folder place set.segments :=
    hwritten ▸ h.put_unfinished _ ((hlinks.steady h.directory).isFile hdirectory)
  rcases perform_take_cons hcut with ⟨-, rfl⟩ | ⟨later, removed, -, hremove, hcut⟩
  · exact leftOver_of_stores hstores habove hlive
  have hthere : written.node? (place ++ [(StoreFile.unfinished store.counter.next).name]) =
      some (.file #[]) := by
    rw [hwritten, node?_put_self _ _ (by simp)]
  rw [apply, pathOf, remove_file hstores.directory, hthere] at hremove
  obtain rfl : written.erase _ = removed := Except.ok.inj hremove
  obtain rfl : written.erase _ = after := by simpa using hcut
  exact leftOver_of_stores (hstores.erase_unfinished (by simp [hthere, Node.isFile])) habove hlive

/-- **After a cut the folder stores the merged entries and the inputs that are left.** -/
theorem leftOver_of_cut (h : fs.Stores store.folder place set.segments) (hlinks : fs.LinkFree place)
    (habove : ∀ s ∈ set.segments, s.priority < store.counter.next) (hsome : set.segments ≠ [])
    (hlive : set.contents.Lists live) {cut : Nat}
    (hcut : fs.perform ((store.compactionSteps set live).take cut) = (.ok (), after)) :
    LeftOver store after place live (inputsLeft set live cut) := by
  unfold compactionSteps at hcut
  unfold inputsLeft inputsRemoved
  by_cases hempty : live.isEmpty = true
  · -- nothing is live, so the inputs just go
    rw [if_pos hempty, installSteps, Option.toList_none, List.map_nil, List.append_nil] at hcut
    obtain ⟨other, hperform, hstores, -⟩ := @perform_removals store fs place [] set.segments h cut
    obtain rfl : after = other := by simpa [hcut] using hperform
    rw [if_pos hempty, List.isEmpty_iff.mp hempty]
    exact ⟨_, hstores, fun s hs => UInt64.le_of_lt (habove s (List.mem_of_mem_drop hs)), rfl⟩
  rw [if_neg hempty] at hcut ⊢
  by_cases hfits : Segment.encodedSize live < Word.signBit
  · rw [if_pos hfits] at hcut ⊢
    exact leftOver_of_fits h hlinks habove hsome hlive hfits hcut
  · rw [if_neg hfits] at hcut ⊢
    exact leftOver_of_oversize h hlinks habove hlive hcut

/-- **A cut shows in one way only**: a key that was deleted has a value in an input that is left. -/
theorem reopens_of_cut_iff (h : fs.Stores store.folder place set.segments)
    (hlinks : fs.LinkFree place) (habove : ∀ s ∈ set.segments, s.priority < store.counter.next)
    (hroom : store.counter.next.toNat + 1 < UInt64.size) (hsome : set.segments ≠ [])
    (hlive : set.contents.Lists live) {cut : Nat}
    (hcut : fs.perform ((store.compactionSteps set live).take cut) = (.ok (), after)) :
    Reopens after store.folder set ↔
      ∀ key, set.contents key = none → Contents.ofSegments (inputsLeft set live cut) key = none := by
  obtain ⟨segments, hstores, hbelow, hcontents⟩ :=
    leftOver_of_cut h hlinks habove hsome hlive hcut
  have hpriorities : ∀ s ∈ segments, s.priority.toNat + 1 < UInt64.size := by
    intro s hs
    have hle := UInt64.le_iff_toNat_le.mp (hbelow s hs)
    omega
  rw [reopens_iff hstores h.filed.intact, hcontents, hlive.ofEntries_append_eq_iff]
  exact and_iff_right hpriorities

/-- **What a compaction leaves when it is cut short.**  A compaction is a list of file steps, and
the folder can be opened after any number of them.  It then answers as before if and only if no key
that was deleted has a value in an input that is left: the newest inputs go first, and with them go
the tombstones that hide older values. -/
theorem reopens_after_cut_iff (h : fs.Stores store.folder place set.segments)
    (hlinks : fs.LinkFree place) (habove : ∀ s ∈ set.segments, s.priority < store.counter.next)
    (hroom : store.counter.next.toNat + 1 < UInt64.size) (hsize : 2 ≤ set.size) :
    ∃ live, set.liveEntries = .ok live ∧
      (∀ done after files, store.compact set fs = (.ok (some done), after, files) →
        fs.perform (store.compactionSteps set live) = (.ok (), files)) ∧
      ∀ cut after,
        fs.perform ((store.compactionSteps set live).take cut) = (.ok (), after) →
          (Reopens after store.folder set ↔
            ∀ key, set.contents key = none →
              Contents.ofSegments (inputsLeft set live cut) key = none) := by
  have hintact : set.Intact := h.filed.intact
  have hsome := SegmentSet.ne_nil_of_size hsize
  obtain ⟨live, hentries, hlive⟩ := hintact.liveEntries
  refine ⟨live, hentries, fun done after files hdone => ?_, fun cut after hcut => ?_⟩
  · exact perform_of_compact hdone hentries
  · exact reopens_of_cut_iff h hlinks habove hroom hsome hlive hcut

/-! ## A deleted key that comes back

Two segments: the older one has a value for the only key, and the newer one deletes it.  Nothing is
live, so a compaction only removes the two files, the newer one first. -/

theorem table_singleton (key : Bytes) (value : Option Bytes)
    (hfits : Segment.encodedSize [⟨key, value⟩] < Word.signBit) :
    Segment.Table [⟨key, value⟩] := ⟨List.pairwise_singleton _ _, hfits⟩

/-- The segment with the value. -/
def valueSegment : Segment :=
  .ofTable 1 ((StoreFile.segment 1).path ["store"]) (table_singleton [107] (some [118]) (by decide))

/-- The segment with the tombstone. -/
def tombstoneSegment : Segment :=
  .ofTable 2 ((StoreFile.segment 2).path ["store"]) (table_singleton [107] none (by decide))

/-- The set of the two. -/
def deletedSet : SegmentSet := ⟨[tombstoneSegment, valueSegment], by
  simp [tombstoneSegment, valueSegment]⟩

/-- The folder with the two files. -/
def deletedFiles : FileSystem :=
  ((ofFolder "store").put (["store"] ++ [(StoreFile.segment 1).name]) (.file valueSegment.image)).put
    (["store"] ++ [(StoreFile.segment 2).name]) (.file tombstoneSegment.image)

theorem filed_deletedSet : Segment.Filed ["store"] deletedSet.segments where
  intact := by
    simp [deletedSet, tombstoneSegment, valueSegment, Segment.intact_ofTable]
  path_eq := by simp [deletedSet, tombstoneSegment, valueSegment]
  descending := by simp [deletedSet, tombstoneSegment, valueSegment]

theorem stores_deletedFiles : deletedFiles.Stores ["store"] ["store"] deletedSet.segments := by
  have hempty := stores_ofFolder (@directoryAt_ofFolder "store" (by decide) (by decide))
  have hvalue := hempty.put_segment (s := valueSegment) [] (filed_deletedSet.sublist (by
    simp [deletedSet])) (by simp [node?_ofFolder])
  refine hvalue.put_segment (s := tombstoneSegment) [] filed_deletedSet fun node hnode => ?_
  rw [node?_put _ _ _ (by simp), node?_ofFolder] at hnode
  simp [tombstoneSegment, valueSegment, StoreFile.name_inj] at hnode

theorem linkFree_deletedFiles : deletedFiles.LinkFree ["store"] :=
  (linkFree_ofFolder "store").of_within
    ((within_put _ _ (by simp)).trans (within_put _ _ (by simp)))

/-- The store that owns the two segments. -/
def deletedStore : Store := ⟨["store"], ⟨3⟩⟩

theorem below_deletedStore : ∀ s ∈ deletedSet.segments, s.priority < deletedStore.counter.next := by
  simp [deletedSet, deletedStore, tombstoneSegment, valueSegment]

/-- The key is deleted. -/
theorem contents_deletedSet : deletedSet.contents = fun _ => none := by
  funext key
  have hentries : deletedSet.segments.flatMap Segment.entries =
      [⟨[107], none⟩, ⟨[107], some [118]⟩] := by
    simp [deletedSet, tombstoneSegment, valueSegment]
  rw [SegmentSet.contents, Contents.ofSegments, hentries, Contents.ofEntries]
  by_cases hkey : [107] = key <;> simp [Entry.first?_cons, hkey]

/-- **After the first removal the deleted key has its value again.** -/
theorem deleted_key_returns :
    deletedSet.liveEntries = .ok [] ∧
      ∃ after, deletedFiles.perform ((deletedStore.compactionSteps deletedSet []).take 1) =
          (.ok (), after) ∧ ¬ Reopens after ["store"] deletedSet := by
  have hintact : deletedSet.Intact := filed_deletedSet.intact
  obtain ⟨live, hentries, hlive⟩ := hintact.liveEntries
  obtain rfl : live = [] := by
    refine hlive.unique ⟨.nil, fun entry => ?_⟩
    rw [contents_deletedSet]
    cases entry.value <;> simp
  refine ⟨hentries, ?_⟩
  obtain ⟨after, hperform, -, -⟩ :=
    @perform_removals deletedStore deletedFiles ["store"] [] _ stores_deletedFiles 1
  refine ⟨after, hperform, fun hreopens => ?_⟩
  have hnone := (@reopens_of_cut_iff deletedStore _ _ _ _ _ stores_deletedFiles
    linkFree_deletedFiles below_deletedStore (by decide) (by simp [deletedSet]) hlive
    1 hperform).mp hreopens [107] (by rw [contents_deletedSet])
  -- the older segment is left, and it has a value
  simp [inputsLeft, inputsRemoved, deletedSet, valueSegment, Contents.ofSegments,
    Contents.ofEntries, Entry.first?_cons] at hnone

/-- Here a cut shows as long as the older segment is left. -/
theorem reopens_deletedFiles_iff :
    ∃ live, deletedSet.liveEntries = .ok live ∧
      ∀ cut after,
        deletedFiles.perform ((deletedStore.compactionSteps deletedSet live).take cut) =
            (.ok (), after) →
          (Reopens after ["store"] deletedSet ↔
            ∀ key, Contents.ofSegments (inputsLeft deletedSet live cut) key = none) := by
  obtain ⟨live, hentries, -, hcuts⟩ := @reopens_after_cut_iff deletedStore deletedFiles ["store"]
    deletedSet stores_deletedFiles linkFree_deletedFiles below_deletedStore (by decide) (by decide)
  refine ⟨live, hentries, fun cut after hcut => (hcuts cut after hcut).trans ?_⟩
  exact forall_congr' fun key => by simp [contents_deletedSet]

end LsmTree.Store
