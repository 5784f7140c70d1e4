import LsmTree.Proofs.Store.Save

/-!
# Proofs/Store/Compact — the steps of a compaction, one by one

Removing the inputs of a compaction always goes well, and after each removal the folder stores the
inputs that are left, next to all newer segments (`Store.perform_removals`).  Then the merged
segment takes the lowest priority, below everything that was saved since (`Store.perform_install`);
only a directory under that name is in its way, and then it stays where it is: above everything.
-/

namespace LsmTree.Store

open FileSystem

variable {store : Store} {fs : FileSystem} {place : Place} {set : SegmentSet}
  {newer older : List Segment} {merged lowest : Segment}

/-! ## Removing the inputs -/

/-- **Inputs go one by one**, from the front. -/
theorem perform_removals (h : fs.Stores store.folder place (newer ++ older)) (cut : Nat) :
    ∃ after, fs.perform ((older.map fun s => FileStep.remove s.path).take cut) = (.ok (), after) ∧
      after.Stores store.folder place (newer ++ older.drop cut) ∧ Beside after fs place := by
  induction older generalizing fs cut with
  | nil => exact ⟨fs, by simp, by simpa using h, .refl fs place⟩
  | cons s rest ih =>
    cases cut with
    | zero => exact ⟨fs, rfl, h, .refl fs place⟩
    | succ cut =>
      obtain ⟨after, hperform, hafter, hbeside⟩ := ih h.erase_segment cut
      have hpath := h.filed.path_eq s (by simp)
      have hnode := h.mirrors.file (s := s) (by simp)
      refine ⟨after, ?_, hafter, hbeside.trans (beside_erase hnode)⟩
      have hremove : fs.apply (.remove s.path) =
          .ok (fs.erase (place ++ [(StoreFile.segment s.priority).name])) := by
        rw [apply, hpath, remove_file h.directory, hnode]
      rw [List.map_cons, List.take_succ_cons, perform_cons_ok _ hremove, hperform]

/-! ## Demoting the merged segment -/

/-- **The merged segment takes the lowest priority**, unless a directory has its name. -/
theorem rename_lowest (h : fs.Stores store.folder place (merged :: newer))
    (hlinks : fs.LinkFree place) (hfiled : Segment.Filed store.folder (newer ++ [lowest]))
    (hlowest : lowest.priority = .lowest) (himage : lowest.image = merged.image)
    (hne : merged.priority ≠ .lowest) :
    (fs.node? (place ++ [(StoreFile.segment .lowest).name]) = some .directory ∧
      fs.rename merged.path (store.pathOf (.segment .lowest)) = .error .isADirectory) ∨
    fs.node? (place ++ [(StoreFile.segment .lowest).name]) ≠ some .directory ∧
    ∃ after, fs.rename merged.path (store.pathOf (.segment .lowest)) = .ok after ∧
      after.Stores store.folder place (newer ++ [lowest]) ∧ Beside after fs place := by
  have hfile := h.mirrors.file (s := merged) List.mem_cons_self
  rw [← himage] at hfile
  have herased : (fs.erase (place ++ [(StoreFile.segment merged.priority).name])).Stores
      store.folder place (newer ++ []) := by
    rw [List.append_nil]
    exact h.erase_segment []
  have hpath := h.filed.path_eq merged List.mem_cons_self
  have hrename := rename_stores newer (hlinks.steady h.directory) hfile (by simpa [hlowest]) herased
    hfiled
  rw [hlowest, ← hpath] at hrename
  rcases hrename with ⟨hdirectory, hfails⟩ | ⟨hfree, after, hmoves, hafter, hwithin, hkept, hnodes⟩
  · exact .inl ⟨hdirectory, hfails⟩
  · refine .inr ⟨hfree, after, hmoves, hafter, beside_of_nodes hwithin hkept fun name => ?_⟩
    rw [hnodes]
    split
    · rename_i heq
      exact .inr (.inl ⟨.lowest, by simpa using heq⟩)
    · split
      · rename_i heq
        exact .inr (.inl ⟨merged.priority, by simpa using heq⟩)
      · exact .inl rfl

/-! ## The whole installation -/

theorem take_installSteps {path : Path} {cut : Nat} (hcut : cut ≤ set.segments.length) :
    (store.installSteps set (some path)).take cut =
      (set.segments.map fun s => FileStep.remove s.path).take cut := by
  rw [installSteps, List.take_append_of_le_length (by simpa using hcut)]

/-- **Installing the merged segment** removes all inputs, and leaves the merged segment below all
others or, with a directory in its way, above them. -/
theorem perform_install (h : fs.Stores store.folder place (merged :: (newer ++ set.segments)))
    (hlinks : fs.LinkFree place) (hfiled : Segment.Filed store.folder (newer ++ [lowest]))
    (hlowest : lowest.priority = .lowest) (himage : lowest.image = merged.image)
    (hne : merged.priority ≠ .lowest) :
    (fs.node? (place ++ [(StoreFile.segment .lowest).name]) = some .directory ∧
      ∃ after, fs.perform (store.installSteps set (some merged.path)) =
          (.error .isADirectory, after) ∧
        after.Stores store.folder place (merged :: newer) ∧ Beside after fs place) ∨
    fs.node? (place ++ [(StoreFile.segment .lowest).name]) ≠ some .directory ∧
    ∃ after, fs.perform (store.installSteps set (some merged.path)) = (.ok (), after) ∧
      after.Stores store.folder place (newer ++ [lowest]) ∧ Beside after fs place := by
  obtain ⟨removed, hperform, hremoved, hbeside⟩ :=
    @perform_removals store fs place (merged :: newer) set.segments h set.segments.length
  rw [List.take_of_length_le (by simp)] at hperform
  rw [List.drop_length, List.append_nil] at hremoved
  have hsteps : fs.perform (store.installSteps set (some merged.path)) =
      removed.perform [.rename merged.path (store.pathOf (.segment .lowest))] :=
    perform_append _ hperform
  rw [hsteps]
  rcases rename_lowest hremoved (hlinks.of_within hbeside.within) hfiled hlowest himage hne with
    ⟨hdirectory, hfails⟩ | ⟨hfree, after, hmoves, hafter, hbeside'⟩
  · exact .inl ⟨hbeside.within _ _ rfl hdirectory, removed, perform_cons_error _ hfails, hremoved,
      hbeside⟩
  · have hplace : fs.node? (place ++ [(StoreFile.segment .lowest).name]) ≠ some .directory :=
      fun hthere => hfree (hbeside.kept _ _ rfl hthere fun _ _ => rfl)
    exact .inr ⟨hplace, after, perform_cons_ok _ hmoves, hafter, hbeside'.trans hbeside⟩

/-! ## The whole compaction -/

variable {live : List Entry}

/-- The segment that a compaction ends with. -/
def lowestOf (folder : Path) (h : Segment.Table live) : Segment :=
  .ofTable .lowest ((StoreFile.segment .lowest).path folder) h

/-- The lowest segment is filed behind all newer ones. -/
theorem filed_lowest {folder : Path} (h : Segment.Filed folder newer)
    (hnewer : ∀ s ∈ newer, Priority.lowest < s.priority) (hlive : Segment.Table live) :
    Segment.Filed folder (newer ++ [lowestOf folder hlive]) where
  intact s hs := by
    rcases List.mem_append.mp hs with hs | hs
    · exact h.intact s hs
    · obtain rfl := List.mem_singleton.mp hs
      exact Segment.intact_ofTable _ _ hlive
  path_eq s hs := by
    rcases List.mem_append.mp hs with hs | hs
    · exact h.path_eq s hs
    · obtain rfl := List.mem_singleton.mp hs
      rfl
  descending := by
    refine List.pairwise_append.mpr ⟨h.descending, List.pairwise_singleton _ _, fun s hs t ht => ?_⟩
    obtain rfl := List.mem_singleton.mp ht
    exact hnewer s hs

/-- Segments that are newer than others are above the lowest priority. -/
theorem lowest_lt_of_filed {folder : Path} (h : Segment.Filed folder (newer ++ older))
    (hne : older ≠ []) : ∀ s ∈ newer, Priority.lowest < s.priority := by
  obtain ⟨t, ht⟩ := List.exists_mem_of_ne_nil older hne
  intro s hs
  have hlt := (List.pairwise_append.mp h.descending).2.2 s hs t ht
  exact UInt64.lt_of_le_of_lt UInt64.zero_le hlt

section

variable {next : Store} {saved : Option Segment} {written files : FileSystem}

theorem compact_of_install_error {cause : IoError} (hsize : 2 ≤ set.size)
    (hlive : set.liveEntries = .ok live) (hsave : store.save live fs = (.ok saved, next, written))
    (hinstall : written.perform (next.installSteps set (saved.map (·.path))) =
      (.error cause, files)) :
    store.compact set fs = (.error (.io cause), next, files) := by
  have hmany : ¬ set.size < 2 := Nat.not_lt.mpr hsize
  simp only [compact, hmany, hlive, hsave, hinstall, if_false]

theorem compact_of_install {output : Option Segment} (hsize : 2 ≤ set.size)
    (hlive : set.liveEntries = .ok live) (hsave : store.save live fs = (.ok saved, next, written))
    (hinstall : written.perform (next.installSteps set (saved.map (·.path))) = (.ok (), files))
    (hload : next.loadMerged saved files = .ok output) (hsync : files.sync next.folder = .ok ()) :
    store.compact set fs = (.ok (some ⟨set.priorities, output⟩), next, files) := by
  have hmany : ¬ set.size < 2 := Nat.not_lt.mpr hsize
  simp only [compact, hmany, hlive, hsave, hinstall, hload, hsync, if_false]

end

/-- With nothing live the inputs just go. -/
theorem compact_of_nil (h : fs.Stores store.folder place (newer ++ set.segments))
    (hsize : 2 ≤ set.size) (hlive : set.liveEntries = .ok []) :
    ∃ files, store.compact set fs = (.ok (some ⟨set.priorities, none⟩), store, files) ∧
      files.Stores store.folder place newer ∧ Beside files fs place := by
  obtain ⟨files, hperform, hfiles, hbeside⟩ := perform_removals h set.segments.length
  rw [List.take_of_length_le (by simp)] at hperform
  rw [List.drop_length, List.append_nil] at hfiles
  have hsteps : fs.perform (store.installSteps set none) = (.ok (), files) := by
    rw [installSteps, Option.toList_none, List.map_nil, List.append_nil, hperform]
  exact ⟨files, compact_of_install hsize hlive (save_nil store fs) hsteps rfl
    (sync_of_directoryAt hfiles.directory), hfiles, hbeside⟩

/-- Once the merged segment is saved, only a directory under the lowest name is in the way. -/
theorem compact_of_save {saved : FileSystem} (htable : Segment.Table live)
    (hsize : 2 ≤ set.size) (hlive : set.liveEntries = .ok live)
    (hsave : store.save live fs = (.ok (some (store.savedOf htable)), store.advance, saved))
    (h : saved.Stores store.folder place (store.savedOf htable :: (newer ++ set.segments)))
    (hlinks : saved.LinkFree place) :
    (saved.node? (place ++ [(StoreFile.segment .lowest).name]) = some .directory ∧
      ∃ e files, store.compact set fs = (.error e, store.advance, files) ∧
        files.Stores store.folder place (store.savedOf htable :: newer)) ∨
    saved.node? (place ++ [(StoreFile.segment .lowest).name]) ≠ some .directory ∧
      ∃ files, store.compact set fs =
          (.ok (some ⟨set.priorities, some (lowestOf store.folder htable)⟩), store.advance, files) ∧
        files.Stores store.folder place (newer ++ [lowestOf store.folder htable]) ∧
        Beside files saved place := by
  have hsome := SegmentSet.ne_nil_of_size hsize
  obtain ⟨hbelow, hdescending⟩ := List.pairwise_cons.mp h.filed.descending
  have holder : Segment.Filed store.folder (newer ++ set.segments) :=
    h.filed.sublist (List.sublist_cons_self _ _)
  have hfiled := filed_lowest (holder.sublist (List.sublist_append_left _ _))
    (lowest_lt_of_filed holder hsome) htable
  have hne : (store.savedOf htable).priority ≠ .lowest := by
    obtain ⟨t, ht⟩ := List.exists_mem_of_ne_nil set.segments hsome
    exact Priority.ne_lowest_of_lt (hbelow t (List.mem_append_right _ ht))
  rcases perform_install h hlinks hfiled rfl rfl hne with
    ⟨hdirectory, files, hsteps, hfiles, -⟩ | ⟨hfree, files, hsteps, hfiles, hbeside⟩
  · exact .inl ⟨hdirectory, _, files, compact_of_install_error hsize hlive hsave hsteps, hfiles⟩
  · have hload : Segment.load files (store.pathOf (.segment .lowest)) .lowest =
        .ok (lowestOf store.folder htable) :=
      hfiles.load (List.mem_append_right _ List.mem_cons_self)
    have hmerged : store.advance.loadMerged (some (store.savedOf htable)) files =
        .ok (some (lowestOf store.folder htable)) := congrArg (some <$> ·) hload
    exact .inr ⟨hfree, files, compact_of_install hsize hlive hsave hsteps hmerged
      (sync_of_directoryAt hfiles.directory), hfiles, hbeside⟩

/-- **What a compaction can end with.**  It goes well; or the merged segment could not be saved, and
nothing has changed; or a directory has the lowest name, and the merged segment is above all. -/
theorem compact_stores (h : fs.Stores store.folder place (newer ++ set.segments))
    (hlinks : fs.LinkFree place)
    (habove : ∀ s ∈ newer ++ set.segments, s.priority < store.counter.next)
    (hsize : 2 ≤ set.size) (hlive : set.liveEntries = .ok live)
    (hascending : Entry.Ascending live) :
    (∃ output files, store.compact set fs =
        (.ok (some ⟨set.priorities, output⟩),
          if live.isEmpty then store else store.advance, files) ∧
      output.toList.flatMap Segment.entries = live ∧
      files.Stores store.folder place (newer ++ output.toList) ∧ Beside files fs place) ∨
    (∃ e files, store.compact set fs = (.error e, store.advance, files) ∧
      files.Stores store.folder place (newer ++ set.segments) ∧ files.Within fs ∧
      ¬(Segment.encodedSize live < Word.signBit ∧
        fs.node? (place ++ [(StoreFile.unfinished store.counter.next).name]) ≠ some .directory ∧
        fs.node? (place ++ [(StoreFile.segment store.counter.next).name]) ≠ some .directory)) ∨
    (∃ (e : Error) (files : FileSystem) (htable : Segment.Table live),
      store.compact set fs = (.error e, store.advance, files) ∧
      files.Stores store.folder place (store.savedOf htable :: newer) ∧
      fs.node? (place ++ [(StoreFile.segment .lowest).name]) = some .directory) := by
  by_cases hempty : live = []
  · subst hempty
    obtain ⟨files, hcompact, hfiles, hbeside⟩ := compact_of_nil h hsize hlive
    exact .inl ⟨none, files, hcompact, rfl, by simpa using hfiles, hbeside⟩
  rcases save_stores h (hlinks.steady h.directory) habove hascending hempty with
    ⟨htable, saved, hsave, hsaved, hbeside⟩ | ⟨e, files, hsave, hfiles, hwithin, -, hreason⟩
  · rcases compact_of_save htable hsize hlive hsave hsaved (hlinks.of_within hbeside.within) with
      ⟨hdirectory, e, files, hcompact, hfiles⟩ | ⟨-, files, hcompact, hfiles, hbeside'⟩
    · exact .inr (.inr ⟨e, files, htable, hcompact, hfiles, hbeside.within _ _ rfl hdirectory⟩)
    · refine .inl ⟨some (lowestOf store.folder htable), files, ?_, by simp [lowestOf],
        hfiles, hbeside'.trans hbeside⟩
      rw [if_neg (by simpa using hempty)]
      exact hcompact
  · have hmany : ¬ set.size < 2 := Nat.not_lt.mpr hsize
    refine .inr (.inl ⟨e, files, ?_, hfiles, hwithin, hreason⟩)
    simp only [compact, hmany, hlive, hsave, if_false]

/-- **A compaction goes well** if none of the names it uses is a directory's. -/
theorem compact_free (h : fs.Stores store.folder place (newer ++ set.segments))
    (hlinks : fs.LinkFree place)
    (habove : ∀ s ∈ newer ++ set.segments, s.priority < store.counter.next) (hsize : 2 ≤ set.size)
    (hlive : set.liveEntries = .ok live) (hascending : Entry.Ascending live)
    (hfits : Segment.encodedSize live < Word.signBit)
    (hfree : ∀ file ∈ [.unfinished store.counter.next, .segment store.counter.next,
      StoreFile.segment .lowest], fs.node? (place ++ [file.name]) ≠ some .directory) :
    ∃ output files, store.compact set fs =
        (.ok (some ⟨set.priorities, output⟩),
          if live.isEmpty then store else store.advance, files) ∧
      output.toList.flatMap Segment.entries = live ∧
      files.Stores store.folder place (newer ++ output.toList) ∧ Beside files fs place := by
  rcases compact_stores h hlinks habove hsize hlive hascending with
    hdone | ⟨-, -, -, -, -, hreason⟩ | ⟨-, -, -, -, -, hdirectory⟩
  · exact hdone
  · exact absurd ⟨hfits, hfree _ (by simp), hfree _ (by simp)⟩ hreason
  · exact absurd hdirectory (hfree _ (by simp))

/-- **With nothing in its way a compaction goes well.** -/
theorem compact_plain (h : fs.Stores store.folder place (newer ++ set.segments))
    (hplain : fs.Plain place)
    (habove : ∀ s ∈ newer ++ set.segments, s.priority < store.counter.next) (hsize : 2 ≤ set.size)
    (hlive : set.liveEntries = .ok live) (hascending : Entry.Ascending live)
    (hfits : Segment.encodedSize live < Word.signBit) :
    ∃ output files, store.compact set fs =
        (.ok (some ⟨set.priorities, output⟩),
          if live.isEmpty then store else store.advance, files) ∧
      output.toList.flatMap Segment.entries = live ∧
      files.Stores store.folder place (newer ++ output.toList) ∧ Beside files fs place :=
  compact_free h hplain.linkFree habove hsize hlive hascending hfits
    fun file _ => hplain.ne_directory file

/-! ## What a result tells -/

/-- Only what merges something can fail. -/
theorem size_of_compact_error {after : Store} {files : FileSystem} {e : Error}
    (h : store.compact set fs = (.error e, after, files)) : 2 ≤ set.size := by
  refine Nat.le_of_not_lt fun hsmall => ?_
  simp [compact, hsmall] at h

/-- Only with fewer than two segments there is nothing to do. -/
theorem size_of_compact_none {after : Store} {files : FileSystem}
    (h : store.compact set fs = (.ok none, after, files)) : set.size < 2 := by
  unfold compact at h
  split at h
  · assumption
  split at h
  · cases h
  split at h
  · cases h
  split at h
  · cases h
  split at h <;> cases h

/-- **A compaction that goes well** saves the live entries, installs what was saved, and opens it. -/
theorem spec_of_compact {after : Store} {files : FileSystem} {done : Compaction}
    (h : store.compact set fs = (.ok (some done), after, files)) :
    2 ≤ set.size ∧ ∃ live saved written, set.liveEntries = .ok live ∧
      store.save live fs = (.ok saved, after, written) ∧
      written.perform (after.installSteps set (saved.map (·.path))) = (.ok (), files) ∧
      done.inputs = set.priorities ∧ after.loadMerged saved files = .ok done.output := by
  unfold compact at h
  split at h
  · cases h
  rename_i hsize
  split at h
  · cases h
  rename_i live hlive
  rcases hsave : store.save live fs with ⟨e | saved, next, written⟩ <;> rw [hsave] at h
  · cases h
  dsimp only at h
  split at h
  · cases h
  rename_i installed hinstall
  split at h
  · cases h
  · cases h
  rename_i output hload hsync
  obtain ⟨rfl, rfl, rfl⟩ : ⟨set.priorities, output⟩ = done ∧ next = after ∧ installed = files := by
    simpa using h
  exact ⟨Nat.le_of_not_lt hsize, live, saved, written, hlive, hsave, hinstall, rfl, hload⟩

/-- There is a merged segment if anything is live. -/
theorem output_eq_none_iff {after : Store} {files : FileSystem} {done : Compaction}
    (h : store.compact set fs = (.ok (some done), after, files))
    (hlive : set.liveEntries = .ok live) : done.output = none ↔ live = [] := by
  obtain ⟨-, other, saved, written, hother, hsave, -, -, hload⟩ := spec_of_compact h
  obtain rfl : live = other := Except.ok.inj (hlive.symm.trans hother)
  cases saved with
  | none =>
    have hnone : none = done.output := Except.ok.inj hload
    exact iff_of_true hnone.symm (eq_nil_of_save hsave)
  | some merged =>
    refine iff_of_false (fun hnone => ?_) (fun hnil => ?_)
    · rw [hnone] at hload
      obtain ⟨lowest, -, hsome⟩ := map_eq_ok_iff.mp hload
      cases hsome
    · rw [hnil, save_nil] at hsave
      cases hsave

/-- **A compaction that goes well makes all its steps.** -/
theorem perform_of_compact {after : Store} {files : FileSystem} {done : Compaction}
    (h : store.compact set fs = (.ok (some done), after, files))
    (hlive : set.liveEntries = .ok live) :
    fs.perform (store.compactionSteps set live) = (.ok (), files) := by
  obtain ⟨-, other, saved, written, hother, hsave, hinstall, -⟩ := spec_of_compact h
  obtain rfl : live = other := Except.ok.inj (hlive.symm.trans hother)
  unfold compactionSteps
  cases saved with
  | none =>
    obtain rfl := eq_nil_of_save hsave
    rw [save_nil] at hsave
    obtain ⟨rfl, rfl⟩ : store = after ∧ fs = written := by simpa using hsave
    exact hinstall
  | some merged =>
    obtain ⟨hfits, hload, rfl, hperform⟩ := perform_of_save hsave
    have hne : ¬ live.isEmpty = true := by
      intro hnil
      rw [List.isEmpty_iff.mp hnil, save_nil] at hsave
      cases hsave
    rw [if_neg hne, if_pos hfits]
    refine (perform_append _ hperform).trans ?_
    rw [← hinstall, Option.map_some, (Segment.load_eq_ok_iff.mp hload).2.2]
    rfl

end LsmTree.Store
