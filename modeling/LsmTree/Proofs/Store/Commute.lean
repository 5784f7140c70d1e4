import LsmTree.Proofs.Store.Failure

/-!
# Proofs/Store/Commute — a compaction that goes well beside saves

A compaction works on the segments of one moment, and others may be saved before it starts.  The
merged segment is demoted below all of these, and what is newer keeps hiding what is merged: the set
answers as before, and the folder opens again with just this set
(`Store.compact_beside_saves`).
-/

namespace LsmTree.Store

open FileSystem

variable {store saved after : Store} {start fs written files : FileSystem} {folder : Path}
  {place : Place} {inputs current : SegmentSet} {saves : List (List Entry)} {newer : List Segment}
  {live : List Entry} {done : Compaction}

/-! ## The set that is left -/

/-- **Behind all newer segments stands what was merged**, and the folder stores just these. -/
theorem segments_of_compact (hcurrent : current.segments = newer ++ inputs.segments)
    (h : fs.Stores store.folder place current.segments) (hlinks : fs.LinkFree place)
    (hbelow : ∀ s ∈ current.segments, s.priority < store.counter.next)
    (hcompact : store.compact inputs fs = (.ok (some done), after, files))
    (hentries : inputs.liveEntries = .ok live) (hascending : Entry.Ascending live) :
    (current.replace done.inputs done.output).segments = newer ++ done.output.toList ∧
      done.output.toList.flatMap Segment.entries = live ∧
      files.Stores store.folder place (current.replace done.inputs done.output).segments := by
  obtain ⟨hsize, -⟩ := spec_of_compact hcompact
  rw [hcurrent] at h hbelow
  rcases compact_stores h hlinks hbelow hsize hentries hascending with
    ⟨output, installed, hdone, houtput, hstores, -⟩ | ⟨e, installed, hfails, -⟩ |
      ⟨e, installed, -, hfails, -⟩
  · rw [hdone] at hcompact
    obtain ⟨rfl, -, rfl⟩ : ⟨inputs.priorities, output⟩ = done ∧ _ ∧ installed = files := by
      simpa [Prod.mk.injEq] using hcompact
    have hsegments := SegmentSet.segments_replace_older hcurrent
      (List.pairwise_append.mp h.filed.descending).2.2
      (hstores.filed.descending.imp UInt64.le_of_lt)
    exact ⟨hsegments, houtput, hsegments ▸ hstores⟩
  · simp [hfails] at hcompact
  · simp [hfails] at hcompact

/-- **What is newer hides what was merged as it hid the inputs.** -/
theorem contents_of_compact (hcurrent : current.segments = newer ++ inputs.segments)
    (hlive : inputs.contents.Lists live)
    (hsegments : (current.replace done.inputs done.output).segments =
      newer ++ done.output.toList)
    (houtput : done.output.toList.flatMap Segment.entries = live) :
    (current.replace done.inputs done.output).contents = current.contents := by
  rw [SegmentSet.contents, SegmentSet.contents, hsegments, hcurrent, Contents.ofSegments,
    Contents.ofSegments, List.flatMap_append, List.flatMap_append, houtput]
  exact Contents.ofEntries_append_congr hlive.ofEntries_eq

/-- The merged segment is the lowest one, if there is one at all. -/
theorem priorities_of_compact (h : store.Owns inputs.segments)
    (hlinks : fs.Unlinked store.folder)
    (hcompact : store.compact inputs fs = (.ok (some done), after, files))
    (hentries : inputs.liveEntries = .ok live) (hascending : Entry.Ascending live) :
    done.output.toList.map (·.priority) = if live = [] then [] else [.lowest] := by
  obtain ⟨-, -, -, hlowest⟩ := filed_of_compact h hlinks hentries hascending hcompact
  have hnone := output_eq_none_iff hcompact hentries
  cases houtput : done.output with
  | none =>
    rw [if_pos (hnone.mp houtput)]
    rfl
  | some merged =>
    have hpriority : merged.priority = .lowest := hlowest merged houtput
    have hne : live ≠ [] := fun hnil => by simpa [houtput] using hnone.mpr hnil
    rw [if_neg hne, Option.toList_some, List.map_singleton, hpriority]

/-! ## The whole run -/

/-- **A compaction that goes well changes no answer**, whatever was saved since its inputs were
looked at.  The merged segment stands behind all that was saved, under the lowest priority, and
there is none if nothing was live.  The folder opens with the segments that are left. -/
theorem compact_beside_saves (hfolder : start.directoryAt folder = .ok place)
    (h : start.WellFormed place) (hlinks : start.LinkFree place)
    (hload : load folder start = (.ok (store, inputs), fs))
    (hascending : ∀ es ∈ saves, Entry.Ascending es)
    (hroom : store.counter.next.toNat + saves.length < UInt64.size)
    (hsaves : store.saveAll inputs fs saves = (saved, current, written))
    (hcompact : saved.compact inputs written = (.ok (some done), after, files)) :
    ∃ live, inputs.contents.Lists live ∧
      (∀ key, (current.replace done.inputs done.output).answer key = current.answer key) ∧
      (current.replace done.inputs done.output).priorities =
        ((store.savedSegments fs saves).map (·.priority)).reverse ++
          (if live = [] then [] else [.lowest]) ∧
      (current.replace done.inputs done.output).priorities.Pairwise (fun a b => b < a) ∧
      ∃ reopened cleared, load folder files =
        (.ok (reopened, current.replace done.inputs done.output), cleared) := by
  obtain ⟨rfl, -, howns, hcleared, hstart⟩ := stores_of_load hfolder h hload
  obtain ⟨hsame, hwithin, hcurrent, hstores, hbelow⟩ :=
    saveAll_segments hstart (hlinks.of_within hcleared.within) howns.below hascending hroom hsaves
  rw [← hsame] at hstores ⊢
  have hfree : written.LinkFree place := (hlinks.of_within hcleared.within).of_within hwithin
  have hinputs : inputs.Intact := howns.filed.intact
  have howned : saved.Owns inputs.segments :=
    ⟨hsame ▸ howns.filed, fun s hs => hbelow s (by simp [hcurrent, hs])⟩
  obtain ⟨live, hentries, hlive⟩ := hinputs.liveEntries
  obtain ⟨hsegments, houtput, hleft⟩ :=
    segments_of_compact hcurrent hstores hfree hbelow hcompact hentries hlive.ascending
  have hunlinked := hfree.unlinked hstores.directory
  have hmerged := priorities_of_compact howned hunlinked hcompact hentries hlive.ascending
  have hall : (current.replace done.inputs done.output).priorities =
      ((store.savedSegments fs saves).map (·.priority)).reverse ++
        if live = [] then [] else [.lowest] := by
    rw [SegmentSet.priorities, hsegments, List.map_append, hmerged, List.map_reverse]
  refine ⟨live, hlive, ?_, hall, List.pairwise_map.mpr hleft.filed.descending, ?_⟩
  · have hintact : (current.replace done.inputs done.output).Intact := hleft.filed.intact
    have hbefore : current.Intact := hstores.filed.intact
    exact (hintact.answer_eq_iff hbefore).mpr (contents_of_compact hcurrent hlive hsegments houtput)
  · have hpriority : ∀ s ∈ (current.replace done.inputs done.output).segments,
        s.priority.toNat + 1 < UInt64.size := by
      intro s hs
      rw [hsegments] at hs
      rcases List.mem_append.mp hs with hs | hs
      · exact room_of_below hbelow s (by simp [hcurrent, hs])
      · obtain ⟨-, -, -, hlowest⟩ := filed_of_compact howned hunlinked hentries hlive.ascending
          hcompact
        rw [hlowest s (Option.mem_toList.mp hs)]
        decide
    obtain ⟨counter, cleared, hopens⟩ := load_eq_of_stores _ hleft hpriority
    exact ⟨_, cleared, hopens⟩

/-! ## A key that is written again beside a compaction

The two segments with one value of one key, in a folder where nothing is in the way. -/

/-- The folder with the two files. -/
def pairFiles : FileSystem :=
  ((ofFolder "store").put (["store"] ++ [(StoreFile.segment 1).name])
    (.file (singleSegment 1 97 49).image)).put
    (["store"] ++ [(StoreFile.segment 2).name]) (.file (singleSegment 2 97 49).image)

theorem stores_pairFiles : pairFiles.Stores ["store"] ["store"] blockedInputs.segments := by
  have hempty := stores_ofFolder (@directoryAt_ofFolder "store" (by decide) (by decide))
  have hfirst := hempty.put_segment (s := singleSegment 1 97 49) []
    (filed_blockedInputs.sublist (by simp [blockedInputs])) (by simp [node?_ofFolder])
  refine hfirst.put_segment (s := singleSegment 2 97 49) [] filed_blockedInputs fun node hnode => ?_
  rw [node?_put _ _ _ (by simp), node?_ofFolder] at hnode
  simp [singleSegment, StoreFile.name_inj] at hnode

theorem plain_pairFiles : pairFiles.Plain ["store"] :=
  (plain_ofFolder "store").of_within
    ((within_put _ _ (by simp)).trans (within_put _ _ (by simp)))

/-- Written again beside the compaction, the key keeps its last value, and the merged segment is
behind it. -/
theorem compact_beside_rewritten :
    ∃ store fs saved current written done after files,
      load ["store"] pairFiles = (.ok (store, blockedInputs), fs) ∧
      store.saveAll blockedInputs fs [[⟨[97], some [50]⟩]] = (saved, current, written) ∧
      saved.compact blockedInputs written = (.ok (some done), after, files) ∧
      (current.replace done.inputs done.output).priorities = [3, .lowest] ∧
      (current.replace done.inputs done.output).answer [97] = .ok (some ⟨[97], some [50]⟩) := by
  obtain ⟨fs, hload, hcleared⟩ := load_of_stores blockedInputs stores_pairFiles
  have hcounter : Counter.after blockedInputs.newestPriority? = .ok ⟨3⟩ := by decide
  rw [hcounter] at hload
  have hopen : load ["store"] pairFiles = (.ok (blockedStore, blockedInputs), fs) := hload
  obtain ⟨-, -, howns, -, hstart⟩ := stores_of_load stores_pairFiles.directory
    stores_pairFiles.wellFormed hopen
  have hplain := plain_pairFiles.of_within hcleared.within
  -- the key is written again
  obtain ⟨htable, written, hsave, hstores, hbeside⟩ := @save_plain blockedStore _ _ _ _
    hstart hplain howns.below (table_byte 97 50).ascending (by simp) (table_byte 97 50).fits
  have hsaves : blockedStore.saveAll blockedInputs fs [[⟨[97], some [50]⟩]] =
      (blockedStore.advance, blockedInputs.insert (blockedStore.savedOf htable), written) := by
    rw [saveAll, hsave]
    rfl
  -- and then the two segments are merged
  have hinputs : blockedInputs.Intact := filed_blockedInputs.intact
  obtain ⟨live, hentries, hlive⟩ := hinputs.liveEntries
  obtain rfl := hlive.unique lists_blockedInputs
  obtain ⟨output, files, hcompact, -⟩ := @compact_plain blockedStore.advance
    _ _ _ [_] _ hstores (hplain.of_within hbeside.within)
    (by simp [blockedInputs, singleSegment, blockedStore, savedOf, advance, Counter.advance])
    (by decide) hentries hlive.ascending (table_byte 97 49).fits
  obtain ⟨live', hlive', hanswer, hpriorities, -⟩ := compact_beside_saves stores_pairFiles.directory
    stores_pairFiles.wellFormed plain_pairFiles.linkFree hopen
    (by simpa using (table_byte 97 50).ascending) (by decide) hsaves hcompact
  obtain rfl := hlive'.unique hlive
  refine ⟨_, _, _, _, _, _, _, _, hopen, hsaves, hcompact, ?_, ?_⟩
  · rw [hpriorities, savedSegments, hsave]
    rfl
  · have hsegments : (blockedInputs.insert (blockedStore.savedOf htable)).segments =
        blockedStore.savedOf htable :: blockedInputs.segments :=
      SegmentSet.segments_insert fun s hs => UInt64.le_of_lt (howns.below s hs)
    have hintact : (blockedInputs.insert (blockedStore.savedOf htable)).Intact := fun s hs =>
      hstores.filed.intact s (hsegments ▸ hs)
    rw [hanswer, hintact.answer, SegmentSet.contents, hsegments, Contents.ofSegments,
      List.flatMap_cons, savedOf, Segment.entries_ofTable]
    rfl

end LsmTree.Store
