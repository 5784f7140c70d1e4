import LsmTree.Proofs.Engine.Durable

/-!
# Proofs/Engine/Reopen — what is there when the folder is opened again

In every state of a run the folder opens again with what the engine keeps, and once the engine is
closed with all that it showed (`Engine.opens_after_runs`).
-/

namespace LsmTree.Engine

variable {settings : Settings} {opened engine after closed : Engine} {fs files later : FileSystem}
  {folder : Path} {place : Place} {loaded now kept : Contents} {result : Except Error Unit}

/-! ## Opening again -/

/-- An engine can be opened on the files, and then shows the contents. -/
def Opens (settings : Settings) (files : FileSystem) (m : Contents) : Prop :=
  ∃ engine cleared, load settings files = (.ok engine, cleared) ∧ engine.Shows m

/-- **A folder opens with what it stores**, as long as there are priorities left. -/
theorem opens_of_stores (hsettings : settings.folder = .ok folder) (set : SegmentSet)
    (h : files.Stores folder place set.segments)
    (hroom : ∀ s ∈ set.segments, s.priority.toNat + 1 < UInt64.size) :
    Opens settings files set.contents := by
  obtain ⟨counter, hcounter⟩ := SegmentSet.exists_after_iff.mpr hroom
  obtain ⟨cleared, hengine, -⟩ := load_of_stores hsettings set h
  rw [hcounter] at hengine
  obtain ⟨-, hsound⟩ := sound_of_load hsettings h.directory h.wellFormed hengine
  exact ⟨_, cleared, hengine, hsound.shows⟩

/-- **A folder opens with what it stores and with nothing else.** -/
theorem opens_iff (hsettings : settings.folder = .ok folder) {stored : List Segment}
    (h : files.Stores folder place stored)
    (hroom : ∀ s ∈ stored, s.priority.toNat + 1 < UInt64.size) :
    Opens settings files now ↔ .ofSegments stored = now := by
  let set : SegmentSet := ⟨stored, h.filed.descending.imp UInt64.le_of_lt⟩
  have hopens : Opens settings files (.ofSegments stored) := opens_of_stores hsettings set h hroom
  constructor
  · rintro ⟨engine, cleared, hload, hshows⟩
    obtain ⟨other, others, hother, hshows'⟩ := hopens
    obtain ⟨rfl, -⟩ : engine = other ∧ _ := by simpa [hload] using hother
    exact hshows'.unique hshows
  · rintro rfl
    exact hopens

/-- **What is kept is there after a crash.** -/
theorem Durable.opens (h : engine.Durable files folder place now kept)
    (hsettings : settings.folder = .ok folder) : Opens settings files kept := by
  rw [← h.folder_eq] at hsettings
  rw [← h.kept_eq]
  exact opens_of_stores hsettings engine.segments h.stores (Store.room_of_below h.sound.owns.below)

/-! ## Closing -/

/-- With nothing sealed, closing writes the active memtable. -/
theorem close_eq (hrest : engine.closed = false ∨ engine.active.isEmpty = false)
    (hsealed : engine.sealed = []) (files : FileSystem) :
    engine.close files =
      match engine.store.flush engine.active files with
      | (.error e, store, later) =>
        (.error e,
          { engine with store, closed := true, flushResult := none, compactionResult := none },
          later)
      | (.ok _, store, later) =>
        (.ok (),
          { engine.retireActive with
            store, segments := {}, closed := true, flushResult := none, compactionResult := none },
          later) := by
  have hstarts : (engine.closed && engine.sealed.isEmpty && engine.active.isEmpty) = false := by
    rcases hrest with hopen | hactive
    · simp [hopen]
    · simp [hactive]
  rw [Engine.close, hstarts, if_neg Bool.false_ne_true]
  simp only [persist, persistSealed, persistActive, hsealed, List.reverse_nil, Store.flushAll,
    retireActive]
  rcases engine.store.flush engine.active files with ⟨_ | _, store, later⟩ <;> rfl

/-- Closing uses up as many priorities as writing the active memtable does. -/
theorem store_close (hopen : engine.closed = false) (hsealed : engine.sealed = []) :
    (engine.close files).2.1.store = (engine.store.save engine.active.entries files).2.1 := by
  rw [close_eq (.inl hopen) hsealed, Store.flush]
  rcases engine.store.save engine.active.entries files with ⟨_ | _, store, later⟩ <;> rfl

/-- **Closing goes well**, and then all that was shown is there. -/
theorem Durable.close (h : engine.Durable files folder place now kept) (hfits : engine.Fits)
    (hsettings : settings.folder = .ok folder)
    (hclose : engine.close files = (result, closed, later))
    (hcounted : engine.store.counter.next ≤ closed.store.counter.next) :
    result = .ok () ∧ Opens settings later now := by
  rw [close_eq (.inl h.sound.isOpen) h.sealed_eq] at hclose
  by_cases hactive : engine.active.entries = []
  · have hsave : engine.store.flush engine.active files = (.ok none, engine.store, files) := by
      rw [Store.flush, hactive, Store.save_nil]
    rw [hsave] at hclose
    obtain ⟨rfl, -, rfl⟩ : _ ∧ _ ∧ files = later := by simpa [Prod.mk.injEq] using hclose
    refine ⟨rfl, ?_⟩
    rw [← h.sound.contents_eq hactive h.sealed_eq, h.kept_eq]
    exact h.opens hsettings
  · obtain ⟨htable, written, hsave, hstores, -⟩ := Store.save_plain h.stores h.plain
      h.sound.owns.below engine.active.pairwise_entries hactive hfits.active
    rw [Store.flush, hsave] at hclose
    obtain ⟨rfl, rfl, rfl⟩ : _ ∧ _ ∧ written = later := by simpa [Prod.mk.injEq] using hclose
    have hroom := Store.room_of_advance hcounted
    let set : SegmentSet := ⟨engine.store.savedOf htable :: engine.segments.segments,
      hstores.filed.descending.imp UInt64.le_of_lt⟩
    have hcontents : set.contents = now := by
      rw [← h.sound.contents, entries, memtables, h.sealed_eq, List.flatMap_singleton]
      simp [set, SegmentSet.contents, Contents.ofSegments, SegmentSet.entries, Store.savedOf]
    refine ⟨rfl, ?_⟩
    rw [← h.folder_eq] at hsettings
    rw [← hcontents]
    refine opens_of_stores hsettings set hstores fun s hs => ?_
    rcases List.mem_cons.mp hs with rfl | hs
    · exact hroom
    · exact Store.room_of_below h.sound.owns.below s hs

/-! ## Runs -/

/-- What an engine and its files can become by one request after the other, nobody else touching
them, and with what the engine shows and keeps then.  What it shows at the time is kept from then on
whenever the active memtable is retired. -/
inductive Runs (opened : Engine) (files : FileSystem) (loaded : Contents) :
    Engine → FileSystem → Contents → Contents → Prop
  | start : Runs opened files loaded opened files loaded loaded
  | step {engine after : Engine} {before later : FileSystem} {now kept : Contents}
      {request : Request} {reply : Reply}
      (h : Runs opened files loaded engine before now kept) (hworks : request.Works)
      (hfits : engine.Fits) (hanswer : engine.answer before request = (reply, after, later))
      (hcounted : engine.store.counter.next ≤ after.store.counter.next) :
      Runs opened files loaded after later (now.after request reply)
        (if after.retired.size = engine.retired.size then kept else now)

theorem Runs.durable (h : Runs opened files loaded engine later now kept)
    (hstart : opened.Durable files folder place loaded loaded) : engine.Durable later folder place now kept := by
  induction h with
  | start => exact hstart
  | step _ hworks hfits hanswer hcounted ih => exact (ih.answer hfits hworks hanswer hcounted).2

/-- An engine that was just opened keeps what it shows. -/
theorem durable_of_load (hsettings : settings.folder = .ok folder)
    (hfolder : fs.directoryAt folder = .ok place) (h : fs.WellFormed place) (hplain : fs.Plain place)
    (hload : load settings fs = (.ok opened, files)) :
    opened.Durable files folder place (.ofSegments opened.segments.segments)
      (.ofSegments opened.segments.segments) := by
  obtain ⟨hengine, hstore, -, -, hcleared, hstores⟩ := spec_of_load hsettings hfolder h hload
  have hsound := (sound_of_load hsettings hfolder h hload).2
  refine ⟨hstore, hsound, hstore.symm ▸ hstores, hplain.of_within hcleared.within,
    fun name priority image hname hnode => ?_, rfl, by rw [hengine], by rw [hengine],
    by rw [hengine]; rfl, by rw [hengine]; rfl⟩
  by_cases hleft : Store.Leftover fs place (place ++ [name])
  · rw [hcleared.gone _ hleft] at hnode
    cases hnode
  · rw [hcleared.kept _ hleft] at hnode
    exact hleft ⟨name, image, priority, rfl, hname, hnode⟩

/-- Memory and disk agree: the files of finished segments in the folder are those of the engine, and
there are no unfinished ones. -/
structure Agrees (engine : Engine) (files : FileSystem) (folder : Path) (place : Place) : Prop where
  filed : Segment.Filed folder engine.segments.segments
  below : ∀ s ∈ engine.segments.segments, s.priority < engine.store.counter.next
  mirrors : files.Mirrors place engine.segments.segments
  finished : ∀ name priority image, StoreFile.ofName? name = some (.unfinished priority) →
    files.node? (place ++ [name]) ≠ some (.file image)

/-- **Durability.**  In every state of a run no request fails, memory and disk agree, and the folder
opens with what was shown when the active memtable was retired last; after closing, which goes well,
it opens with what was shown at the end. -/
theorem opens_after_runs (hsettings : settings.folder = .ok folder)
    (hfolder : fs.directoryAt folder = .ok place) (h : fs.WellFormed place) (hplain : fs.Plain place)
    (hload : load settings fs = (.ok opened, files)) :
    ∃ segments, Segment.Filed folder segments ∧ fs.Mirrors place segments ∧
      ∀ engine later now kept, Runs opened files (.ofSegments segments) engine later now kept →
        (∀ request reply after afterFiles, request.Works → engine.Fits →
          engine.answer later request = (reply, after, afterFiles) →
          engine.store.counter.next ≤ after.store.counter.next → reply = .done) ∧
        engine.Agrees later folder place ∧ Opens settings later kept ∧
        ∀ result closed closedFiles, engine.Fits →
          engine.close later = (result, closed, closedFiles) →
          engine.store.counter.next ≤ closed.store.counter.next →
            result = .ok () ∧ Opens settings closedFiles now := by
  obtain ⟨-, hstore, -, howns, -⟩ := spec_of_load hsettings hfolder h hload
  have hmirrors := (sound_of_load hsettings hfolder h hload).1
  refine ⟨opened.segments.segments, hstore ▸ howns.filed, hmirrors,
    fun engine later now kept hruns => ?_⟩
  have hdurable := hruns.durable (durable_of_load hsettings hfolder h hplain hload)
  refine ⟨fun request reply after afterFiles hworks hfits hanswer hcounted =>
      (hdurable.answer hfits hworks hanswer hcounted).1, ⟨?_, hdurable.sound.owns.below,
      hdurable.stores.mirrors, hdurable.finished⟩, hdurable.opens hsettings,
    fun result closed closedFiles hfits hclose hcounted =>
      hdurable.close hfits hsettings hclose hcounted⟩
  exact hdurable.folder_eq ▸ hdurable.sound.owns.filed

/-! ### A flush, a compaction and a value that is not flushed -/

/-- The engine when its value has become a segment. -/
def flushedEngine : Engine :=
  { fillingEngine.retireActive with
    store := fillingEngine.store.advance
    segments := fillingEngine.segments.insert (fillingEngine.store.savedByte 98 50)
    flushResult := some (.ok ()) }

theorem entries_seededEngine : seededEngine.segments.entries = [⟨[99], some [51]⟩] := by
  have hsegments : seededEngine.segments.segments = [valueSegment 1 99 51] := rfl
  simp [SegmentSet.entries, hsegments]

theorem segments_flushedEngine : flushedEngine.segments.segments =
    [fillingEngine.store.savedByte 98 50, valueSegment 1 99 51] :=
  SegmentSet.segments_insert (by decide)

theorem entries_flushedEngine :
    flushedEngine.segments.entries = [⟨[98], some [50]⟩, ⟨[99], some [51]⟩] := by
  simp [SegmentSet.entries, segments_flushedEngine]

/-- The engine with a third value, which is not flushed. -/
def unflushedEngine (set : SegmentSet) : Engine :=
  { flushedEngine.afterMerge set with active := ({} : Memtable).insert ⟨[97], some [49]⟩ }

/-- The value is flushed, and the two segments are merged. -/
theorem compact_flushedEngine (hstores : files.Stores ["", "store"] ["store"] [valueSegment 1 99 51])
    (hplain : files.Plain ["store"]) :
    ∃ (flushedFiles mergedFiles : FileSystem) (set : SegmentSet),
      fillingEngine.answer files .flush = (.done, flushedEngine, flushedFiles) ∧
      flushedEngine.answer flushedFiles .compact = (.done, flushedEngine.afterMerge set, mergedFiles) ∧
      set.size = 1 ∧ set.entries = [⟨[98], some [50]⟩, ⟨[99], some [51]⟩] := by
  obtain ⟨_, flushedFiles, hsave, hflushed, hbeside⟩ := @Store.save_plain fillingEngine.store files
    _ ["store"] _ hstores hplain (by decide) (Store.table_byte 98 50).ascending (by simp)
    (Store.table_byte 98 50).fits
  have hflush : fillingEngine.flush files = (.ok (), flushedEngine, flushedFiles) :=
    flush_eq_of_save rfl rfl rfl (by decide) hsave
  have hstored : flushedFiles.Stores flushedEngine.store.folder ["store"]
      flushedEngine.segments.segments := segments_flushedEngine ▸ hflushed
  have hplain' := hplain.of_within hbeside.within
  have htable : Segment.Table flushedEngine.segments.entries := by
    rw [entries_flushedEngine]
    exact ⟨by simp only [Entry.Ascending]; decide, by decide⟩
  obtain ⟨set, mergedFiles, hcompact, hsize, hentries⟩ := @compact_ascending flushedEngine
    flushedFiles ["store"] rfl (by decide) hstored hplain'.linkFree
    (by simp [segments_flushedEngine]; decide) (fun file _ => hplain'.ne_directory file) htable
    (by simp [entries_flushedEngine]) (by simp [entries_flushedEngine]; decide)
  refine ⟨flushedFiles, mergedFiles, set, ?_, ?_, hsize, hentries.trans entries_flushedEngine⟩
  · rw [answer, hflush]
    rfl
  · rw [answer, hcompact]
    rfl

/-- A value is flushed next to a segment that was there, and the two segments are merged.  Then
another value is written: after a crash the folder opens without it, and after closing with it. -/
theorem opens_with_written_value :
    ∃ loaded flushedFiles mergedFiles set closed closedFiles,
      load storeSettings seededFiles = (.ok seededEngine, loaded) ∧
      seededEngine.answer loaded (.put ⟨[98], some [50]⟩) = (.done, fillingEngine, loaded) ∧
      fillingEngine.answer loaded .flush = (.done, flushedEngine, flushedFiles) ∧
      flushedEngine.answer flushedFiles .compact = (.done, flushedEngine.afterMerge set, mergedFiles) ∧
      set.size = 1 ∧
      (flushedEngine.afterMerge set).answer mergedFiles (.put ⟨[97], some [49]⟩) =
        (.done, unflushedEngine set, mergedFiles) ∧
      (unflushedEngine set).close mergedFiles = (.ok (), closed, closedFiles) ∧
      Opens storeSettings mergedFiles filled ∧
      Opens storeSettings closedFiles (filled.write ⟨[97], some [49]⟩) := by
  obtain ⟨loaded, hload, hcleared⟩ := load_seededFiles
  obtain ⟨-, -, -, -, -, hstores⟩ := spec_of_load folder_storeSettings
    stores_seededFiles.directory stores_seededFiles.wellFormed hload
  obtain ⟨segments, hfiled, hmirrors, hall⟩ := opens_after_runs folder_storeSettings
    stores_seededFiles.directory stores_seededFiles.wellFormed plain_seededFiles hload
  obtain rfl := stores_seededFiles.unique hfiled hmirrors
  obtain ⟨flushedFiles, mergedFiles, set, hflush, hcompact, hsize, hentries⟩ :=
    compact_flushedEngine hstores (plain_seededFiles.of_within hcleared.within)
  have hput : seededEngine.answer loaded (.put ⟨[98], some [50]⟩) =
      (.done, fillingEngine, loaded) := rfl
  have hput' : (flushedEngine.afterMerge set).answer mergedFiles (.put ⟨[97], some [49]⟩) =
      (.done, unflushedEngine set, mergedFiles) := rfl
  -- the values fit in every state
  have hseeded : seededEngine.Fits := fits_of_entries rfl entries_seededEngine (by decide)
  have hfilling : fillingEngine.Fits := fits_of_entries rfl entries_seededEngine (by decide)
  have hflushed : flushedEngine.Fits := fits_of_entries rfl entries_flushedEngine (by decide)
  have hmerged : (flushedEngine.afterMerge set).Fits := @fits_of_entries _ [] _ rfl hentries (by decide)
  have hunflushed : (unflushedEngine set).Fits :=
    @fits_of_entries _ [⟨[97], some [49]⟩] _ rfl hentries (by decide)
  have hstart : Runs seededEngine loaded (.ofSegments [valueSegment 1 99 51]) seededEngine loaded
    _ _ := .start
  have hworks : ∀ entry, (Request.put entry).Works := fun _ => trivial
  have hworks' : Request.flush.Works ∧ Request.compact.Works := ⟨trivial, trivial⟩
  have hcounted : flushedEngine.store.counter.next ≤ flushedEngine.store.advance.counter.next := by
    decide
  have hrun := (((hstart.step (hworks _) hseeded hput (UInt64.le_refl _)).step hworks'.1 hfilling
    hflush (by decide)).step hworks'.2 hflushed hcompact hcounted).step (hworks _) hmerged hput'
      (UInt64.le_refl _)
  obtain ⟨-, -, hcrash, hclosing⟩ := hall _ _ _ _ hrun
  rcases hclose : (unflushedEngine set).close mergedFiles with ⟨result, closed, closedFiles⟩
  have hstore : closed.store = (unflushedEngine set).store.advance := by
    have heq := @store_close (unflushedEngine set) mergedFiles rfl rfl
    rw [hclose, Store.store_save] at heq
    exact heq
  have hcounted' : flushedEngine.store.advance.counter.next ≤
      flushedEngine.store.advance.advance.counter.next := by decide
  obtain ⟨rfl, hclosed⟩ := hclosing result closed closedFiles hunflushed hclose (hstore ▸ hcounted')
  exact ⟨loaded, flushedFiles, mergedFiles, set, closed, closedFiles, hload, hput, hflush, hcompact,
    hsize, hput', hclose, hcrash, hclosed⟩

end LsmTree.Engine
