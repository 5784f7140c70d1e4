import LsmTree.Proofs.Engine.Steps
import LsmTree.Proofs.Store.Load

/-!
# Proofs/Engine/Open — an engine on a folder

An engine that is opened on a well-formed folder has the segments that the folder mirrors and empty
memtables, and **it is sound for what the segments amount to** (`Engine.sound_of_load`).
-/

namespace LsmTree.Engine

variable {settings : Settings} {fs files : FileSystem} {folder : Path} {place : Place}
  {engine : Engine}

/-- **An engine is opened with the segments of its folder** and nothing else. -/
theorem spec_of_load (hsettings : settings.folder = .ok folder)
    (hfolder : fs.directoryAt folder = .ok place) (h : fs.WellFormed place)
    (hload : load settings fs = (.ok engine, files)) :
    engine = { settings, store := engine.store, segments := engine.segments } ∧
      engine.store.folder = folder ∧ 0 < engine.store.counter.next ∧
      engine.store.Owns engine.segments.segments ∧ Store.Cleared fs files place ∧
      files.Stores folder place engine.segments.segments := by
  rw [load, hsettings] at hload
  dsimp only at hload
  rcases hopen : Store.load folder fs with ⟨e | ⟨store, set⟩, opened⟩ <;> rw [hopen] at hload
  · cases hload
  · obtain ⟨rfl, rfl⟩ : { settings, store, segments := set } = engine ∧ opened = files := by
      simpa using hload
    obtain ⟨heq, hpositive, howns, hcleared, hstores⟩ := Store.stores_of_load hfolder h hopen
    exact ⟨rfl, heq, hpositive, howns, hcleared, hstores⟩

/-- **An engine shows at first what the segments of its folder amount to.** -/
theorem sound_of_load (hsettings : settings.folder = .ok folder)
    (hfolder : fs.directoryAt folder = .ok place) (h : fs.WellFormed place)
    (hload : load settings fs = (.ok engine, files)) :
    fs.Mirrors place engine.segments.segments ∧
      engine.Sound (.ofSegments engine.segments.segments) := by
  obtain ⟨hengine, -, hpositive, howns, hcleared, hstores⟩ :=
    spec_of_load hsettings hfolder h hload
  refine ⟨hstores.mirrors.congr fun name priority hname => (hcleared.segment hname).symm, ?_⟩
  rw [hengine]
  refine ⟨rfl, howns, UInt64.lt_iff_toNat_lt.mp hpositive, ?_⟩
  simp [entries, memtables, SegmentSet.entries, Contents.ofSegments]

/-- **An engine is opened with the segments that are stored**, if there is a priority left for the
next one. -/
theorem load_of_stores (hsettings : settings.folder = .ok folder) (set : SegmentSet)
    (h : fs.Stores folder place set.segments) :
    ∃ after, load settings fs =
        ((fun counter => { settings, store := ⟨folder, counter⟩, segments := set }) <$>
          Counter.after set.newestPriority?, after) ∧
      Store.Cleared fs after place := by
  obtain ⟨after, hload, hcleared⟩ := Store.load_of_stores set h
  refine ⟨after, ?_, hcleared⟩
  rw [load, hsettings]
  dsimp only
  rw [hload]
  cases Counter.after set.newestPriority? <;> rfl

/-! ## An empty folder to begin with -/

/-- Settings for the folder `/store`. -/
def storeSettings : Settings := { path := "/store" }

theorem folder_storeSettings : storeSettings.folder = .ok ["", "store"] := rfl

theorem directoryAt_store : (FileSystem.ofFolder "store").directoryAt ["", "store"] = .ok ["store"] :=
  (FileSystem.directoryAt_blank _ _).trans (FileSystem.directoryAt_ofFolder (by decide) (by decide))

theorem wellFormed_store : (FileSystem.ofFolder "store").WellFormed ["store"] :=
  (FileSystem.stores_ofFolder directoryAt_store).wellFormed

/-- The engine on the empty folder. -/
def emptyEngine : Engine :=
  { settings := storeSettings, store := ⟨["", "store"], {}⟩, segments := .ofList [] }

/-- **A folder without segments opens**, and nothing but unfinished files goes. -/
theorem load_of_empty (h : fs.Stores ["", "store"] ["store"] []) :
    ∃ files, load storeSettings fs = (.ok emptyEngine, files) ∧ Store.Cleared fs files ["store"] :=
  load_of_stores folder_storeSettings (.ofList []) h

/-- A memtable with one value. -/
def writtenTable : Memtable := ({} : Memtable).insert ⟨[97], some [49]⟩

/-- The engine with the value in its active memtable. -/
def writtenEngine : Engine := { emptyEngine with active := writtenTable }

/-! ## A folder with a segment -/

/-- A segment of the folder `/store` with one value of one byte. -/
def valueSegment (priority : Priority) (key value : UInt8) : Segment :=
  .ofTable priority ((StoreFile.segment priority).path ["", "store"]) (Store.table_byte key value)

@[simp] theorem entries_valueSegment (priority : Priority) (key value : UInt8) :
    (valueSegment priority key value).entries = [⟨[key], some [value]⟩] :=
  Segment.entries_ofTable _ _ _

/-- The folder with one segment. -/
def seededFiles : FileSystem :=
  (FileSystem.ofFolder "store").put (["store"] ++ [(StoreFile.segment 1).name])
    (.file (valueSegment 1 99 51).image)

theorem stores_seededFiles : seededFiles.Stores ["", "store"] ["store"] [valueSegment 1 99 51] := by
  have hfiled : Segment.Filed ["", "store"] [valueSegment 1 99 51] :=
    ⟨by simp [valueSegment, Segment.intact_ofTable], by simp [valueSegment],
      List.pairwise_singleton _ _⟩
  exact (FileSystem.stores_ofFolder directoryAt_store).put_segment (s := valueSegment 1 99 51) []
    hfiled (by simp [FileSystem.node?_ofFolder])

theorem plain_seededFiles : seededFiles.Plain ["store"] :=
  (FileSystem.plain_ofFolder "store").of_within (FileSystem.within_put _ _ (by simp))

/-- The engine on the folder. -/
def seededEngine : Engine :=
  { settings := storeSettings, store := ⟨["", "store"], ⟨2⟩⟩,
    segments := .ofList [valueSegment 1 99 51] }

theorem load_seededFiles : ∃ files, load storeSettings seededFiles = (.ok seededEngine, files) ∧
    Store.Cleared seededFiles files ["store"] := by
  obtain ⟨files, hload, hcleared⟩ :=
    load_of_stores folder_storeSettings seededEngine.segments stores_seededFiles
  have hcounter : Counter.after seededEngine.segments.newestPriority? = .ok ⟨2⟩ := by decide
  rw [hcounter] at hload
  exact ⟨files, hload, hcleared⟩

/-- The engine with a value in its active memtable. -/
def fillingEngine : Engine :=
  { seededEngine with active := ({} : Memtable).insert ⟨[98], some [50]⟩ }

/-- What the segment holds, and the value. -/
def filled : Contents := (Contents.ofSegments [valueSegment 1 99 51]).write ⟨[98], some [50]⟩

end LsmTree.Engine
