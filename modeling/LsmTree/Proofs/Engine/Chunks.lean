import LsmTree.Proofs.Engine.Backed
import LsmTree.Proofs.Engine.Durable
import Mathlib.Data.List.Forall2

/-!
# Proofs/Engine/Chunks — writing alone cuts the entries into segments

An engine that is only written to cuts the entries into **chunks**: an entry begins a new chunk if
the chunk before has something in it and has reached the threshold (`Chunks.ofEntries`).  The size of
a chunk is that of all its entries, also of those that were written over, and a chunk that has only
an empty deleted key in it has something in it.  On a folder that was empty, and as long as no flush
fails, the segments are the full chunks, numbered from 1 on, and the active memtable is the last
chunk (`Engine.inChunks_of_fills`).  The engine counts in 64 bits, so it cuts there as long as they
suffice for the size of every chunk, and they do where they suffice for the threshold together with
any one entry (`Chunks.counted_ofEntries`).
-/

namespace LsmTree

/-! ## Chunks -/

/-- Entries cut into chunks: the full ones in order, and the one that is still written to. -/
structure Chunks where
  full : List (List Entry) := []
  last : List Entry := []

namespace Chunks

variable {threshold : Nat} {chunks : Chunks} {entry : Entry}

/-- The last chunk has something in it and has reached the threshold. -/
def Full (threshold : Nat) (chunks : Chunks) : Prop :=
  chunks.last ≠ [] ∧ threshold ≤ Entry.totalSize chunks.last

instance (threshold : Nat) (chunks : Chunks) : Decidable (chunks.Full threshold) :=
  inferInstanceAs (Decidable (_ ∧ _))

/-- The chunks with a new one begun. -/
def cut (chunks : Chunks) : Chunks := ⟨chunks.full ++ [chunks.last], []⟩

/-- Adds an entry to the last chunk. -/
def append (chunks : Chunks) (entry : Entry) : Chunks :=
  { chunks with last := chunks.last ++ [entry] }

/-- Adds an entry, which begins a new chunk if the last one is full. -/
def add (threshold : Nat) (chunks : Chunks) (entry : Entry) : Chunks :=
  if chunks.Full threshold then chunks.cut.append entry else chunks.append entry

/-- The chunks that a sequence of entries is cut into. -/
def ofEntries (threshold : Nat) (es : List Entry) : Chunks := es.foldl (add threshold) {}

theorem ofEntries_concat (threshold : Nat) (es : List Entry) (entry : Entry) :
    ofEntries threshold (es ++ [entry]) = (ofEntries threshold es).add threshold entry := by
  rw [ofEntries, ofEntries, List.foldl_concat]

theorem flatten_add (threshold : Nat) (chunks : Chunks) (entry : Entry) :
    (chunks.add threshold entry).full.flatten ++ (chunks.add threshold entry).last =
      chunks.full.flatten ++ chunks.last ++ [entry] := by
  unfold add
  split <;> simp [cut, append]

/-- **The chunks are consecutive pieces of the sequence.** -/
theorem flatten_ofEntries (threshold : Nat) (es : List Entry) :
    (ofEntries threshold es).full.flatten ++ (ofEntries threshold es).last = es := by
  induction es using List.reverseRecOn with
  | nil => rfl
  | append_singleton es entry ih => rw [ofEntries_concat, flatten_add, ih]

/-- The size of every chunk can be counted in 64 bits. -/
def Counted (chunks : Chunks) : Prop :=
  ∀ chunk ∈ chunks.full ++ [chunks.last], Entry.totalSize chunk < UInt64.size

theorem Counted.last (h : chunks.Counted) : Entry.totalSize chunks.last < UInt64.size :=
  h _ (List.mem_append_right _ List.mem_cons_self)

theorem Counted.of_add (h : (chunks.add threshold entry).Counted) : chunks.Counted := by
  intro chunk hchunk
  unfold add at h
  split at h
  · exact h chunk (List.mem_append_left _ hchunk)
  · rcases List.mem_append.mp hchunk with hfull | hlast
    · exact h chunk (List.mem_append_left _ hfull)
    · obtain rfl := List.mem_singleton.mp hlast
      have hgrown := h.last
      rw [append, Entry.totalSize_concat] at hgrown
      omega

theorem length_full_le_add : chunks.full.length ≤ (chunks.add threshold entry).full.length := by
  unfold add
  split <;> simp [cut, append]

/-- **Only the entry that was added last takes a chunk over the threshold.** -/
theorem totalSize_last_add :
    Entry.totalSize (chunks.add threshold entry).last < threshold + entry.byteSize ∨
      Entry.totalSize (chunks.add threshold entry).last = entry.byteSize := by
  unfold add
  split
  · exact .inr (by simp [cut, append, Entry.totalSize])
  · rename_i hroom
    rw [append, Entry.totalSize_concat]
    by_cases hlast : chunks.last = []
    · exact .inr (by simp [hlast])
    · have hsmall : Entry.totalSize chunks.last < threshold := by
        simpa [Full, hlast] using hroom
      exact .inl (by omega)

theorem Counted.add (h : chunks.Counted) (hentry : threshold + entry.byteSize < UInt64.size) :
    (chunks.add threshold entry).Counted := by
  have hlast : Entry.totalSize (chunks.add threshold entry).last < UInt64.size := by
    rcases @totalSize_last_add threshold chunks entry with hlast | hlast <;> omega
  intro chunk hchunk
  rcases List.mem_append.mp hchunk with hfull | hchunk
  · refine h chunk ?_
    unfold Chunks.add at hfull
    split at hfull
    · exact hfull
    · exact List.mem_append_left _ hfull
  · exact List.mem_singleton.mp hchunk ▸ hlast

/-- **No chunk is too large to count** if the threshold and any one entry together are not. -/
theorem counted_ofEntries {es : List Entry}
    (h : ∀ entry ∈ es, threshold + entry.byteSize < UInt64.size) :
    (ofEntries threshold es).Counted := by
  induction es using List.reverseRecOn with
  | nil =>
    intro chunk hchunk
    obtain rfl : chunk = [] := List.mem_singleton.mp hchunk
    decide
  | append_singleton es entry ih =>
    rw [List.forall_mem_append] at h
    rw [ofEntries_concat]
    exact (ih h.1).add (h.2 entry List.mem_cons_self)

end Chunks

/-! ## Engines that are written to -/

namespace Engine

variable {settings : Settings} {opened engine after : Engine} {fs files later : FileSystem}
  {folder : Path} {place : Place} {chunks : Chunks} {es : List Entry} {entry : Entry}
  {result : Except Error Unit}

/-- An engine writes entries, one after the other, and nothing else happens.  No flush fails. -/
inductive Fills (opened : Engine) (files : FileSystem) : List Entry → Engine → FileSystem → Prop
  | start : Fills opened files [] opened files
  | put {es : List Entry} {before : Engine} {fs : FileSystem} {entry : Entry}
      {result : Except Error Unit} {after : Engine} {later : FileSystem} :
      Fills opened files es before fs → before.put entry fs = (result, after, later) →
      (∀ e, after.flushResult ≠ some (.error e)) → Fills opened files (es ++ [entry]) after later

/-- The segments of the engine, which are those of its folder, hold the last entry of every key of
the full chunks, a segment for each chunk, numbered from 1 on.  The last chunk went into the active
memtable, and nothing is sealed. -/
structure InChunks (engine : Engine) (files : FileSystem) (folder : Path) (place : Place)
    (chunks : Chunks) : Prop where
  segments : List.Forall₂ (fun chunk s => ∃ held, Entry.Newest chunk.reverse held ∧ s.Holds held)
    chunks.full engine.segments.segments.reverse
  priorities : engine.segments.segments.reverse.map (·.priority.toNat) =
    List.range' 1 chunks.full.length
  stores : files.Stores folder place engine.segments.segments
  active_eq : engine.active = .ofEntries chunks.last
  sealed_eq : engine.sealed = []

/-- An engine in chunks that is ready to go on. -/
structure Filling (engine : Engine) (settings : Settings) (files : FileSystem) (folder : Path)
    (place : Place) (chunks : Chunks) : Prop extends engine.InChunks files folder place chunks where
  settings_eq : engine.settings = settings
  folder_eq : engine.store.folder = folder
  plain : files.Plain place
  isOpen : engine.closed = false
  idle : engine.flushing = false
  counter_eq : engine.store.counter.next = .ofNat (chunks.full.length + 1)

theorem Filling.toNat_next (h : engine.Filling settings files folder place chunks)
    (hroom : chunks.full.length + 1 < UInt64.size) :
    engine.store.counter.next.toNat = chunks.full.length + 1 := by
  rw [h.counter_eq, UInt64.toNat_ofNat_of_lt' hroom]

theorem Filling.below (h : engine.Filling settings files folder place chunks)
    (hroom : chunks.full.length + 1 < UInt64.size) :
    ∀ s ∈ engine.segments.segments, s.priority < engine.store.counter.next := by
  intro s hs
  have hmem : s.priority.toNat ∈ List.range' 1 chunks.full.length := by
    rw [← h.priorities]
    exact List.mem_map_of_mem (f := fun s : Segment => s.priority.toNat) (List.mem_reverse.mpr hs)
  rw [UInt64.lt_iff_toNat_lt, h.toNat_next hroom]
  have hrange := List.mem_range'_1.mp hmem
  omega

/-- What the active memtable holds fits into a file if what was written to it does. -/
theorem Filling.fits (h : engine.Filling settings files folder place chunks)
    (hfits : Segment.encodedSize chunks.last < Word.signBit) :
    Segment.encodedSize engine.active.entries < Word.signBit := by
  rw [h.active_eq]
  exact Nat.lt_of_le_of_lt (Segment.encodedSize_le_of_subperm
    ((Memtable.newest_ofEntries _).subperm.trans (List.reverse_perm _).subperm)) hfits

/-- **The engine is still in chunks when an entry is added to the last one.** -/
theorem Filling.append (h : engine.Filling settings files folder place chunks) (entry : Entry) :
    ({ engine with active := engine.active.insert entry } : Engine).Filling settings files folder place
      (chunks.append entry) where
  segments := h.segments
  priorities := h.priorities
  stores := h.stores
  active_eq := by
    rw [h.active_eq]
    exact (Memtable.ofEntries_concat _ _).symm
  sealed_eq := h.sealed_eq
  settings_eq := h.settings_eq
  folder_eq := h.folder_eq
  plain := h.plain
  isOpen := h.isOpen
  idle := h.idle
  counter_eq := h.counter_eq

/-- **A flush that goes well cuts**: the last chunk is a segment now, above all others. -/
theorem Filling.cut (h : engine.Filling settings files folder place chunks)
    (hroom : chunks.full.length + 1 < UInt64.size)
    (htable : Segment.Table engine.active.entries)
    (hstores : later.Stores engine.store.folder place
      (engine.store.savedOf htable :: engine.segments.segments)) (hwithin : later.Within files) :
    ({ engine.retireActive with
        store := engine.store.advance
        segments := engine.segments.insert (engine.store.savedOf htable)
        freshlyCompacted := false
        flushResult := some (.ok ()) } : Engine).Filling settings later folder place chunks.cut := by
  have hinsert : (engine.segments.insert (engine.store.savedOf htable)).segments =
      engine.store.savedOf htable :: engine.segments.segments :=
    SegmentSet.segments_insert fun s hs => UInt64.le_of_lt (h.below hroom s hs)
  have hsegments : (engine.segments.insert (engine.store.savedOf htable)).segments.reverse =
      engine.segments.segments.reverse ++ [engine.store.savedOf htable] := by
    rw [hinsert, List.reverse_cons]
  have hholds : (engine.store.savedOf htable).Holds (Memtable.ofEntries chunks.last).entries := by
    rw [← h.active_eq]
    exact Segment.holds_of_image htable rfl
  refine ⟨⟨?_, ?_, ?_, rfl, h.sealed_eq⟩, h.settings_eq, h.folder_eq, h.plain.of_within hwithin,
    h.isOpen, h.idle, ?_⟩
  · rw [hsegments]
    exact List.rel_append h.segments
      (.cons ⟨_, Memtable.newest_ofEntries _, hholds⟩ .nil)
  · have hnext : (engine.store.savedOf htable).priority.toNat = chunks.full.length + 1 :=
      h.toNat_next hroom
    rw [hsegments, List.map_append, h.priorities, Chunks.cut, List.length_append,
      List.length_singleton, List.range'_concat, List.map_singleton, hnext]
    simp [Nat.add_comm]
  · rw [← h.folder_eq]
    exact hinsert ▸ hstores
  · change engine.store.counter.next + 1 = _
    rw [h.counter_eq, Chunks.cut, List.length_append, List.length_singleton]
    simp

/-- **A flush cuts**, unless it fails; it does not if the last chunk fits into a file. -/
theorem Filling.flush (h : engine.Filling settings files folder place chunks)
    (hlast : chunks.last ≠ []) (hroom : chunks.full.length + 1 < UInt64.size) :
    ((engine.flush files).2.1.Filling settings (engine.flush files).2.2 folder place chunks.cut ∧
      (engine.flush files).2.1.flushResult = some (.ok ())) ∨
    (∃ e, (engine.flush files).2.1.flushResult = some (.error e)) ∧
      ¬ Segment.encodedSize chunks.last < Word.signBit := by
  have hactive : engine.active.isEmpty = false := by
    rw [h.active_eq, ← Bool.not_eq_true, Memtable.isEmpty_ofEntries]
    exact hlast
  have hsome : engine.active.entries ≠ [] := mt Memtable.entries_eq_nil_iff.mp (by simp [hactive])
  have hstores : files.Stores engine.store.folder place engine.segments.segments :=
    h.folder_eq ▸ h.stores
  rcases Store.save_stores hstores (h.plain.linkFree.steady hstores.directory) (h.below hroom)
      engine.active.pairwise_entries hsome with
    ⟨htable, later, hsave, hlater, hbeside⟩ | ⟨e, later, hsave, -, -, -, hreason⟩
  · rw [flush_eq_of_save h.isOpen h.idle h.sealed_eq hactive hsave]
    exact .inl ⟨h.cut hroom htable hlater hbeside.within, rfl⟩
  · have hflushed : engine.store.flushAll files engine.memtables.reverse =
        ⟨.error e, [], [engine.active], engine.store.advance, later⟩ := by
      simp [memtables, h.sealed_eq, Store.flushAll, Store.flush, hsave]
    rw [flush_eq h.isOpen h.idle hactive, hflushed]
    exact .inr ⟨⟨e, rfl⟩, fun hfits =>
      hreason ⟨h.fits hfits, h.plain.ne_directory _, h.plain.ne_directory _⟩⟩

theorem Filling.byteSize_eq (h : engine.Filling settings files folder place chunks)
    (hcounted : chunks.Counted) : engine.active.byteSize.toNat = Entry.totalSize chunks.last := by
  rw [h.active_eq, Memtable.toNat_byteSize_ofEntries hcounted.last]

/-- The active memtable has reached the threshold where the last chunk has. -/
theorem Filling.reached_iff (h : engine.Filling settings files folder place chunks)
    (hcounted : chunks.Counted) : engine.settings.threshold ≤ engine.active.byteSize ↔
      settings.threshold.toNat ≤ Entry.totalSize chunks.last := by
  rw [UInt64.le_iff_toNat_le, h.byteSize_eq hcounted, h.settings_eq]

/-- As long as the last chunk is not full no flush changes anything: with a threshold of zero one is
asked for, but there is nothing to flush. -/
theorem Filling.flush_of_not_full (h : engine.Filling settings files folder place chunks)
    (hnot : ¬ chunks.Full settings.threshold.toNat)
    (hle : settings.threshold.toNat ≤ Entry.totalSize chunks.last) :
    engine.flush files = (.ok (), engine, files) := by
  have hlast : chunks.last = [] := by
    by_contra hlast
    exact hnot ⟨hlast, hle⟩
  exact flush_eq_self (.inr ⟨h.idle, by rw [h.active_eq, hlast]; rfl⟩) files

/-- **A write adds its entry to the chunks**, unless the flush in front of it fails. -/
theorem Filling.put (h : engine.Filling settings files folder place chunks)
    (hcounted : chunks.Counted) (entry : Entry)
    (hroom : (chunks.add settings.threshold.toNat entry).full.length < UInt64.size) :
    ∃ after later, engine.put entry files = (.ok (), after, later) ∧
      ((after.Filling settings later folder place (chunks.add settings.threshold.toNat entry) ∧
          (after.flushResult = engine.flushResult ∨ after.flushResult = some (.ok ()))) ∨
        (∃ e, after.flushResult = some (.error e)) ∧
          ¬ Segment.encodedSize chunks.last < Word.signBit) := by
  rw [put_eq h.isOpen h.idle]
  by_cases hfull : chunks.Full settings.threshold.toNat
  · have hadd : chunks.add settings.threshold.toNat entry = chunks.cut.append entry := if_pos hfull
    rw [hadd] at hroom ⊢
    rw [if_pos ((h.reached_iff hcounted).mpr hfull.2)]
    have hroom' : chunks.full.length + 1 < UInt64.size := by
      simpa [Chunks.cut, Chunks.append] using hroom
    rcases h.flush hfull.1 hroom' with ⟨hfilling, hok⟩ | hfails
    · exact ⟨_, _, rfl, .inl ⟨hfilling.append entry, .inr hok⟩⟩
    · exact ⟨_, _, rfl, .inr hfails⟩
  · have hadd : chunks.add settings.threshold.toNat entry = chunks.append entry := if_neg hfull
    rw [hadd]
    split_ifs with hle
    · rw [h.flush_of_not_full hfull ((h.reached_iff hcounted).mp hle)]
      exact ⟨_, _, rfl, .inl ⟨h.append entry, .inl rfl⟩⟩
    · exact ⟨_, _, rfl, .inl ⟨h.append entry, .inl rfl⟩⟩

/-- **Engines that are written to stay in chunks.** -/
theorem Fills.filling (h : Fills opened files es engine later)
    (hopened : opened.Filling settings files folder place {})
    (hresult : ∀ e, opened.flushResult ≠ some (.error e))
    (hroom : (Chunks.ofEntries settings.threshold.toNat es).full.length < UInt64.size)
    (hcounted : (Chunks.ofEntries settings.threshold.toNat es).Counted) :
    engine.Filling settings later folder place (.ofEntries settings.threshold.toNat es) ∧
      ∀ e, engine.flushResult ≠ some (.error e) := by
  induction h with
  | start => exact ⟨hopened, hresult⟩
  | put _ hput hwell ih =>
    rw [Chunks.ofEntries_concat] at hroom hcounted ⊢
    obtain ⟨hfilling, -⟩ := ih (Nat.lt_of_le_of_lt Chunks.length_full_le_add hroom) hcounted.of_add
    obtain ⟨after, later, hput', hcases⟩ := hfilling.put hcounted.of_add _ hroom
    obtain ⟨-, rfl, rfl⟩ : _ ∧ _ ∧ _ := by simpa [Prod.mk.injEq] using hput.symm.trans hput'
    rcases hcases with ⟨hfilling', -⟩ | ⟨⟨e, hfails⟩, -⟩
    · exact ⟨hfilling', hwell⟩
    · exact absurd hfails (hwell e)

/-! ## From an empty folder on -/

/-- An empty folder opens, with no chunks. -/
theorem filling_of_empty (hsettings : settings.folder = .ok folder)
    (hfolder : fs.directoryAt folder = .ok place)
    (hempty : ∀ name, fs.node? (place ++ [name]) = none) :
    ∃ opened files, load settings fs = (.ok opened, files) ∧ opened.flushResult = none ∧
      opened.Filling settings files folder place {} := by
  have hstores := FileSystem.stores_of_empty hfolder hempty
  obtain ⟨files, hload, hcleared⟩ := load_of_stores hsettings (.ofList []) hstores
  have hspec := spec_of_load hsettings hfolder hstores.wellFormed hload
  exact ⟨_, files, hload, rfl, ⟨.nil, rfl, hspec.2.2.2.2.2, rfl, rfl⟩, rfl, rfl,
    (FileSystem.plain_of_empty hempty).of_within hcleared.within, rfl, rfl, rfl⟩

/-- **Writing fills one segment after the other.**  An empty folder opens.  Whatever is written then,
and nothing else, the engine is in the chunks that the entries are cut into, and its active memtable
tells the size of the last chunk.  That is below the threshold but for the entry written last, or the
size of that entry.  Every write is accepted, and the flush that it may start does not fail if the
last chunk fits into a file.  All this holds as long as there are priorities for the segments and no
chunk grows to 2⁶⁴ bytes, where the engine would begin to count from zero again. -/
theorem inChunks_of_fills (hsettings : settings.folder = .ok folder)
    (hfolder : fs.directoryAt folder = .ok place)
    (hempty : ∀ name, fs.node? (place ++ [name]) = none) :
    ∃ opened files, load settings fs = (.ok opened, files) ∧
      ∀ es engine later, Fills opened files es engine later →
        (Chunks.ofEntries settings.threshold.toNat es).full.length < UInt64.size →
        (Chunks.ofEntries settings.threshold.toNat es).Counted →
        engine.InChunks later folder place (.ofEntries settings.threshold.toNat es) ∧
        engine.active.byteSize.toNat =
          Entry.totalSize (Chunks.ofEntries settings.threshold.toNat es).last ∧
        (∀ entry ∈ es.getLast?,
          engine.active.byteSize.toNat < settings.threshold.toNat + entry.byteSize ∨
            engine.active.byteSize.toNat = entry.byteSize) ∧
        ∀ entry,
          (Chunks.ofEntries settings.threshold.toNat (es ++ [entry])).full.length < UInt64.size →
          ∃ after latest, engine.put entry later = (.ok (), after, latest) ∧
            (Segment.encodedSize (Chunks.ofEntries settings.threshold.toNat es).last <
                Word.signBit →
              Fills opened files (es ++ [entry]) after latest) := by
  obtain ⟨opened, files, hload, hresult, hopened⟩ := filling_of_empty hsettings hfolder hempty
  refine ⟨opened, files, hload, fun es engine later hfills hroom hcounted => ?_⟩
  obtain ⟨hfilling, hwell⟩ := hfills.filling hopened (by simp [hresult]) hroom hcounted
  refine ⟨hfilling.toInChunks, hfilling.byteSize_eq hcounted, fun entry hentry => ?_,
    fun entry hroom' => ?_⟩
  · obtain ⟨others, rfl⟩ := List.getLast?_eq_some_iff.mp hentry
    rw [hfilling.byteSize_eq hcounted, Chunks.ofEntries_concat]
    exact Chunks.totalSize_last_add
  · rw [Chunks.ofEntries_concat] at hroom'
    obtain ⟨after, latest, hput, hcases⟩ := hfilling.put hcounted entry hroom'
    refine ⟨after, latest, hput, fun hfits => hfills.put hput fun e => ?_⟩
    rcases hcases with ⟨-, hsame | hok⟩ | ⟨-, hbig⟩
    · rw [hsame]
      exact hwell e
    · simp [hok]
    · exact absurd hfits hbig

/-- Three entries of two bytes, the second under the key of the first. -/
def repeatedEntries : List Entry :=
  [⟨[97], some [49]⟩, ⟨[97], some [50]⟩, ⟨[98], some [51]⟩]

/-- With a threshold of three bytes the first two entries, which make four bytes though only one of
them is held, become the first segment. -/
theorem inChunks_repeatedEntries :
    ∃ opened files engine later s,
      load { path := "/store", threshold := 3 } (.ofFolder "store") = (.ok opened, files) ∧
      Fills opened files repeatedEntries engine later ∧ engine.segments.segments = [s] ∧
      s.priority.toNat = 1 ∧ s.lookup [97] = .ok (some ⟨[97], some [50]⟩) ∧
      engine.active.byteSize.toNat = 2 := by
  obtain ⟨opened, files, hload, hall⟩ := @inChunks_of_fills { path := "/store", threshold := 3 }
    (.ofFolder "store") _ ["store"] rfl directoryAt_store (FileSystem.node?_within_ofFolder "store")
  have hgoes {es : List Entry} {engine : Engine} {later : FileSystem}
      (hfills : Fills opened files es engine later) (entry : Entry)
      (hroom : (Chunks.ofEntries 3 es).full.length < UInt64.size)
      (hsmall : ∀ entry ∈ es, 3 + entry.byteSize < UInt64.size)
      (hroom' : (Chunks.ofEntries 3 (es ++ [entry])).full.length < UInt64.size)
      (hfits : Segment.encodedSize (Chunks.ofEntries 3 es).last < Word.signBit) :
      ∃ after latest, Fills opened files (es ++ [entry]) after latest := by
    obtain ⟨-, -, -, hput⟩ := hall es engine later hfills hroom (Chunks.counted_ofEntries hsmall)
    obtain ⟨after, latest, -, hnext⟩ := hput entry hroom'
    exact ⟨after, latest, hnext hfits⟩
  obtain ⟨_, _, hfirst⟩ := hgoes .start ⟨[97], some [49]⟩ (by decide) (by decide) (by decide)
    (by decide)
  obtain ⟨_, _, hsecond⟩ := hgoes hfirst ⟨[97], some [50]⟩ (by decide) (by decide) (by decide)
    (by decide)
  obtain ⟨engine, later, hthird⟩ :=
    hgoes hsecond ⟨[98], some [51]⟩ (by decide) (by decide) (by decide) (by decide)
  obtain ⟨hchunks, hsize, -⟩ := hall _ engine later hthird (by decide)
    (Chunks.counted_ofEntries (by decide))
  have hheld := hchunks.segments
  have hpriorities := hchunks.priorities
  obtain ⟨s, hs⟩ : ∃ s, engine.segments.segments = [s] := by
    refine List.length_eq_one_iff.mp ?_
    rw [← List.length_reverse, ← hheld.length_eq]
    decide
  rw [hs] at hheld hpriorities
  obtain ⟨held, hnewest, hholds⟩ := (List.forall₂_cons.mp hheld).1
  refine ⟨opened, files, engine, later, s, hload, hthird, hs, (List.cons.inj hpriorities).1, ?_, hsize⟩
  rw [hholds.lookup, hnewest.first?_eq]
  rfl

end Engine

end LsmTree
