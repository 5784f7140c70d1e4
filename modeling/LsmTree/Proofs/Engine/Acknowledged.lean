import LsmTree.Proofs.Engine.Backed
import LsmTree.Proofs.Engine.Reopen

/-!
# Proofs/Engine/Acknowledged — what a flush that went well says about the folder

If a flush was started and waited for, and both went well, then everything that was written is in
the folder, whatever failed before.  But a flush of an empty memtable is not started.  What earlier
flushes could not write stays in memory then, and it is in the folder only if the segments say the
same (`Engine.opens_after_flush_iff`).
-/

namespace LsmTree.Engine

variable {settings : Settings} {opened engine flushed after : Engine}
  {fs files before later : FileSystem} {folder : Path} {place : Place} {stored : List Segment}
  {loaded now : Contents} {result : Except Error Unit}

/-! ## A flush that is started -/

/-- **A flush that is started and goes well** leaves nothing in memory. -/
theorem Backed.flush_started (h : engine.Backed before folder place stored now)
    (hopen : engine.closed = false) (hactive : engine.active.isEmpty = false)
    (hflush : engine.flush before = (result, flushed, later))
    (hawait : flushed.awaitFlush = (.ok (), after)) :
    flushed.memtables = [{}] := by
  rw [flush_eq hopen h.idle hactive] at hflush
  obtain ⟨-, rfl, -⟩ : _ ∧ _ ∧ _ := by simpa [Prod.mk.injEq] using hflush
  obtain ⟨hok, -⟩ := Prod.mk.inj hawait
  have hnone := Store.unwritten_of_isOk ((eq_ok_iff _).mp hok)
  change ({} : Memtable) :: List.reverse _ = _
  rw [hnone, List.reverse_nil]

/-- Memory that adds nothing to the segments is in the folder. -/
theorem Backed.opens_iff (h : engine.Backed before folder place stored now)
    (hsettings : settings.folder = .ok folder) :
    Opens settings before now ↔ ∀ key,
      ∀ entry ∈ Entry.first? key (engine.memtables.flatMap Memtable.entries),
        entry.value = Contents.ofSegments stored key := by
  rw [Engine.opens_iff hsettings h.stores (Store.room_of_below h.below), ← h.contents]
  constructor
  · intro heq key entry hentry
    have hkey := congrFun heq key
    rw [Contents.ofEntries_append, Option.mem_def.mp hentry] at hkey
    exact hkey.symm
  · intro hagree
    funext key
    rw [Contents.ofEntries_append]
    cases hentry : Entry.first? key (engine.memtables.flatMap Memtable.entries) with
    | none => rfl
    | some entry => exact (hagree key entry hentry).symm

/-! ## All runs -/

/-- **What two acknowledgements are worth.**  In every state of a run, after a flush and the wait
for it both went well, the engine shows what was written; and the folder opens with the same if and
only if there was something in the active memtable, or all that is left of failed flushes is in the
segments as well.  Links may stand in the folder, under a segment's name too, as long as no
unfinished file is one and the folder is found without those that a save replaces. -/
theorem opens_after_flush_iff (hsettings : settings.folder = .ok folder)
    (hsteady : fs.Steady folder place) (h : fs.WellFormed place)
    (hload : load settings fs = (.ok opened, files)) :
    ∃ segments, Segment.Filed folder segments ∧ fs.Mirrors place segments ∧
      ∀ engine before now,
        RunsBeside opened files folder place (.ofSegments segments) engine before now →
        engine.closed = false →
        ∀ flushed after later, engine.flush before = (.ok (), flushed, later) →
          flushed.awaitFlush = (.ok (), after) →
          engine.store.counter.next ≤ after.store.counter.next →
            after.Shows now ∧ (Opens settings later now ↔
              engine.active.isEmpty = false ∨
                ∀ key, ∀ entry ∈ Entry.first? key (engine.sealed.flatMap Memtable.entries),
                  entry.value = engine.segments.contents key) := by
  obtain ⟨hfiled, hmirrors, hstart⟩ := backed_of_load hsettings hsteady h hload
  refine ⟨_, hfiled, hmirrors, fun engine before now hruns hopen flushed after later hflush hawait
    hcounted => ?_⟩
  obtain ⟨stored, hbacked⟩ := hruns.backed hstart
  obtain ⟨hok, rfl⟩ := Prod.mk.inj hawait
  obtain ⟨hclosed, written, hflushed⟩ := hbacked.flush hflush hcounted
  refine ⟨hflushed.awaitFlush.shows (hclosed.trans hopen), ?_⟩
  cases hactive : engine.active.isEmpty with
  | false =>
    have hmemtables := hbacked.flush_started hopen hactive hflush hawait
    refine iff_of_true ((hflushed.opens_iff hsettings).mpr fun key entry hentry => ?_) (.inl rfl)
    simp [hmemtables] at hentry
  | true =>
    rw [flush_eq_self (.inr ⟨hbacked.idle, hactive⟩)] at hflush
    obtain ⟨rfl, rfl⟩ : engine = flushed ∧ before = later := by simpa using hflush
    rw [hbacked.opens_iff hsettings, SegmentSet.contents, hbacked.current hopen, memtables,
      List.flatMap_cons, Memtable.entries_eq_nil_iff.mpr hactive, List.nil_append]
    simp

/-! ### A save that fails

A directory has the name of the unfinished file of the first segment, so the first flush fails and
its failure is told.  Then another value is written, and the next flush writes both. -/

/-- The folder with the directory. -/
def obstructedFiles : FileSystem :=
  (FileSystem.ofFolder "store").put (["store"] ++ [(StoreFile.unfinished 1).name]) .directory

theorem stores_obstructedFiles : obstructedFiles.Stores ["", "store"] ["store"] [] :=
  (FileSystem.stores_ofFolder directoryAt_store).put_directory (StoreFile.utf8ByteSize_name_le _)
    (by simp [FileSystem.node?_ofFolder])

theorem linkFree_obstructedFiles : obstructedFiles.LinkFree ["store"] :=
  (FileSystem.linkFree_ofFolder "store").put_directory _

theorem directory_obstructedFiles {file : StoreFile}
    (h : obstructedFiles.node? (["store"] ++ [file.name]) = some .directory) :
    file = .unfinished 1 := (FileSystem.plain_ofFolder "store").eq_of_directory h

/-- The engine after a flush that failed, once the failure was told. -/
def failedEngine : Engine :=
  { emptyEngine with
    store := emptyEngine.store.advance
    sealed := [writtenTable]
    retired := #[writtenTable] }

/-- **The first save fails.** -/
theorem flush_obstructed :
    ∃ files, load storeSettings obstructedFiles = (.ok emptyEngine, files) ∧
      files.Stores ["", "store"] ["store"] [] ∧ files.Within obstructedFiles ∧
      emptyEngine.store.flush writtenTable files =
        (.error (.io .isADirectory), emptyEngine.store.advance, files) := by
  obtain ⟨files, hload, hcleared⟩ := load_of_empty stores_obstructedFiles
  obtain ⟨-, -, -, -, -, hstores⟩ := spec_of_load folder_storeSettings
    stores_obstructedFiles.directory stores_obstructedFiles.wellFormed hload
  have hlinks := linkFree_obstructedFiles.of_within hcleared.within
  have hdirectory : files.node? (["store"] ++ [(StoreFile.unfinished 1).name]) =
      some .directory := by
    have hthere : obstructedFiles.node? (["store"] ++ [(StoreFile.unfinished 1).name]) =
        some .directory := FileSystem.node?_put_self _ _ (by simp)
    refine (hcleared.kept _ ?_).trans hthere
    rintro ⟨name, image, priority, -, -, hfile⟩
    cases hthere.symm.trans hfile
  exact ⟨files, hload, hstores, hcleared.within,
    Store.save_directory hstores.directory hdirectory (by decide)⟩

/-- The same engine while the failure waits to be told. -/
def refusedEngine : Engine :=
  { failedEngine with flushResult := some (.error (.io .isADirectory)) }

theorem flush_writtenEngine (hfails : emptyEngine.store.flush writtenTable files =
    (.error (.io .isADirectory), emptyEngine.store.advance, files)) :
    writtenEngine.flush files = (.ok (), refusedEngine, files) :=
  flush_eq_of_error rfl rfl (by decide) rfl hfails

/-- The engine with another value, to be flushed behind the first. -/
def retryingEngine : Engine :=
  { failedEngine with active := ({} : Memtable).insert ⟨[98], some [50]⟩ }

/-- Two values are there once they are flushed, though a flush of the first had failed before. -/
theorem opens_flushed_value :
    ∃ files flushed after later,
      load storeSettings obstructedFiles = (.ok emptyEngine, files) ∧
      emptyEngine.answer files (.put ⟨[97], some [49]⟩) = (.done, writtenEngine, files) ∧
      writtenEngine.answer files .flush = (.done, refusedEngine, files) ∧
      refusedEngine.answer files .awaitFlush = (.failed (.io .isADirectory), failedEngine, files) ∧
      failedEngine.answer files (.put ⟨[98], some [50]⟩) = (.done, retryingEngine, files) ∧
      retryingEngine.flush files = (.ok (), flushed, later) ∧
      flushed.awaitFlush = (.ok (), after) ∧
      after.Shows (((Contents.ofSegments []).write ⟨[97], some [49]⟩).write ⟨[98], some [50]⟩) ∧
      Opens storeSettings later
        (((Contents.ofSegments []).write ⟨[97], some [49]⟩).write ⟨[98], some [50]⟩) := by
  obtain ⟨files, hload, hstores, hwithin, hfails⟩ := flush_obstructed
  have hlinks := linkFree_obstructedFiles.of_within hwithin
  -- the next two names are free
  obtain ⟨between, later, hfirst, hsecond, -⟩ := @Store.save_twice retryingEngine.store files
    ["store"] [] _ _ hstores hlinks (by simp) (by decide)
    (fun file hfile hnode => by
      obtain rfl := directory_obstructedFiles (hwithin _ _ rfl hnode)
      simp at hfile
      revert hfile
      decide)
    (Store.table_byte 97 49) (Store.table_byte 98 50) (by simp) (by simp)
  have hflush := @flush_eq_of_saves retryingEngine _ _ rfl rfl writtenTable rfl (by decide) _ _ _ _
    _ hfirst hsecond
  obtain ⟨segments, hfiled, hmirrors, hruns⟩ := opens_after_flush_iff folder_storeSettings
    (linkFree_obstructedFiles.steady stores_obstructedFiles.directory)
    stores_obstructedFiles.wellFormed hload
  obtain rfl := stores_obstructedFiles.unique hfiled hmirrors
  have hput : emptyEngine.answer files (.put ⟨[97], some [49]⟩) = (.done, writtenEngine, files) := rfl
  have hrefused : writtenEngine.answer files .flush = (.done, refusedEngine, files) := by
    rw [answer, flush_writtenEngine hfails]
    rfl
  have htold : refusedEngine.answer files .awaitFlush =
      (.failed (.io .isADirectory), failedEngine, files) := rfl
  have hput' : failedEngine.answer files (.put ⟨[98], some [50]⟩) = (.done, retryingEngine, files) :=
    rfl
  have hstart : RunsBeside emptyEngine files ["", "store"] ["store"] (.ofSegments []) emptyEngine
    files _ := .start
  have hkeeps : ∀ entry, (Request.put entry).KeepsSegments := fun _ => trivial
  have hkeeps' : Request.flush.KeepsSegments ∧ Request.awaitFlush.KeepsSegments := ⟨trivial, trivial⟩
  have hrun := (((hstart.step (hkeeps _) hput (UInt64.le_refl _)).step hkeeps'.1 hrefused
    (by decide)).step hkeeps'.2 htold (UInt64.le_refl _)).step (hkeeps _) hput' (UInt64.le_refl _)
  obtain ⟨hshows, hopens⟩ := hruns _ _ _ hrun rfl _ _ _ hflush rfl (by decide)
  exact ⟨files, _, _, later, hload, hput, hrefused, htold, hput', hflush, rfl, hshows,
    hopens.mpr (.inl rfl)⟩

/-! ## A value that is only in memory

Nothing is written after the first failure, so no second flush is started. -/

/-- A flush and the wait for it go well, and the folder does not open with what the engine shows. -/
def FlushesInVain (engine : Engine) (files : FileSystem) : Prop :=
  ∃ flushed after later now, engine.flush files = (.ok (), flushed, later) ∧
    flushed.awaitFlush = (.ok (), after) ∧ after.Shows now ∧ ¬ Opens storeSettings later now

/-- The value is only in memory, and the second flush is not started. -/
theorem failed_flushesInVain (hstores : files.Stores ["", "store"] ["store"] []) :
    failedEngine.FlushesInVain files := by
  have hshows : failedEngine.Shows (.ofEntries failedEngine.entries) :=
    shows rfl (by simp [SegmentSet.Readable, failedEngine, emptyEngine])
  refine ⟨_, _, files, _, flush_eq_self (.inr ⟨rfl, rfl⟩) files, rfl, hshows, fun hopens => ?_⟩
  have hsame := (Engine.opens_iff folder_storeSettings hstores (by simp)).mp hopens
  exact absurd (congrFun hsame [97]) (by decide)

/-! ## A folder that does not open any more

The segment of the folder has the last priority but one, so the value is saved under the last, and
there is none for the next segment. -/

/-- The segment of the folder. -/
def fullSegment : Segment :=
  .ofTable 18446744073709551614 ((StoreFile.segment 18446744073709551614).path ["", "store"])
    (@Segment.Table.mk [⟨[97], some [48]⟩] (List.pairwise_singleton _ _) (by decide))

/-- The folder with the segment. -/
def fullFiles : FileSystem :=
  (FileSystem.ofFolder "store").put (["store"] ++ [(StoreFile.segment fullSegment.priority).name])
    (.file fullSegment.image)

theorem stores_fullFiles : fullFiles.Stores ["", "store"] ["store"] [fullSegment] := by
  refine (FileSystem.stores_ofFolder directoryAt_store).put_segment [] ⟨?_, ?_, ?_⟩ ?_
  · simp [fullSegment, Segment.intact_ofTable]
  · simp [fullSegment]
  · exact List.pairwise_singleton _ _
  · simp [FileSystem.node?_ofFolder]

/-- The engine on the folder. -/
def fullEngine : Engine :=
  { settings := storeSettings
    store := ⟨["", "store"], ⟨18446744073709551615⟩⟩
    segments := .ofList [fullSegment] }

/-- The engine with the value in its active memtable. -/
def lastEngine : Engine := { fullEngine with active := writtenTable }

theorem load_fullFiles : ∃ files, load storeSettings fullFiles = (.ok fullEngine, files) ∧
    Store.Cleared fullFiles files ["store"] :=
  load_of_stores folder_storeSettings (.ofList [fullSegment]) stores_fullFiles

/-- The value is saved, and the folder is refused. -/
theorem last_flushesInVain (hstores : files.Stores ["", "store"] ["store"] [fullSegment])
    (hplain : files.Plain ["store"]) : lastEngine.FlushesInVain files := by
  obtain ⟨htable, later, hsave, hlater, -⟩ := @Store.save_plain lastEngine.store files
    writtenTable.entries ["store"] _ hstores hplain (by simp [lastEngine, fullEngine, fullSegment])
    writtenTable.pairwise_entries (by decide) (by decide)
  have hflush : lastEngine.flush files = (.ok (), _, later) :=
    flush_eq_of_save rfl rfl rfl (by decide) hsave
  let set : SegmentSet :=
    ⟨[lastEngine.store.savedOf htable, fullSegment], hlater.filed.descending.imp UInt64.le_of_lt⟩
  have hset : later.Stores ["", "store"] ["store"] set.segments := hlater
  have hbelow := (List.pairwise_cons.mp hlater.filed.descending).1
  have hsegments : lastEngine.segments.insert (lastEngine.store.savedOf htable) = set :=
    SegmentSet.ext (SegmentSet.segments_insert fun s hs => UInt64.le_of_lt (hbelow s hs))
  have hintact : (lastEngine.segments.insert (lastEngine.store.savedOf htable)).Intact := by
    rw [hsegments]
    exact hset.filed.intact
  refine ⟨_, _, later, _, hflush, rfl, shows rfl hintact.readable, ?_⟩
  rintro ⟨engine, cleared, hload, -⟩
  obtain ⟨refused, hrefused, -⟩ := load_of_stores folder_storeSettings set hset
  cases hrefused.symm.trans hload

/-- **A value is lost though its flush was acknowledged.** -/
theorem acknowledged_value_is_lost :
    (∃ files failed,
      load storeSettings obstructedFiles = (.ok emptyEngine, files) ∧
      emptyEngine.answer files (.put ⟨[97], some [49]⟩) = (.done, writtenEngine, files) ∧
      writtenEngine.flush files = (.ok (), failed, files) ∧
      failed.awaitFlush = (.error (.io .isADirectory), failedEngine) ∧
      failedEngine.FlushesInVain files) ∧
    ∃ files,
      load storeSettings fullFiles = (.ok fullEngine, files) ∧
      fullEngine.answer files (.put ⟨[97], some [49]⟩) = (.done, lastEngine, files) ∧
      lastEngine.FlushesInVain files := by
  obtain ⟨files, hload, hstores, -, hfails⟩ := flush_obstructed
  have hflush := flush_writtenEngine hfails
  obtain ⟨opened, hopen, hcleared⟩ := load_fullFiles
  obtain ⟨-, -, -, -, -, hfull⟩ := spec_of_load folder_storeSettings stores_fullFiles.directory
    stores_fullFiles.wellFormed hopen
  have hplain : fullFiles.Plain ["store"] :=
    (FileSystem.plain_ofFolder "store").of_within (FileSystem.within_put _ _ (by simp))
  exact ⟨⟨files, _, hload, rfl, hflush, rfl, failed_flushesInVain hstores⟩,
    opened, hopen, rfl, last_flushesInVain hfull (hplain.of_within hcleared.within)⟩

end LsmTree.Engine
