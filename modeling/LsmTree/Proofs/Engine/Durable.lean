import LsmTree.Proofs.Engine.Open

/-!
# Proofs/Engine/Durable — memory and disk in step

Where nobody else touches the folder and nothing but files has a name of the store, flushes and
compactions go well.  Then an engine stays **durable**: it shows one thing and keeps another, what
its segments amount to, and its folder stores just these segments.  What is kept becomes what is
shown whenever the active memtable is retired, and at no other time (`Engine.Durable.answer`).
-/

namespace LsmTree

/-- The request is one that a run consists of: it writes, flushes, compacts, or waits. -/
def Request.Works : Request → Prop
  | .put _ | .flush | .awaitFlush | .compact | .awaitCompaction | .mergeSegments => True
  | _ => False

namespace Engine

variable {engine after : Engine} {files later : FileSystem} {folder : Path} {place : Place} {now kept : Contents}
  {result : Except Error Unit}

/-- All entries of the engine, those that nobody sees included, would fit in one file.  Entries may
share their values, so nothing but this condition keeps an engine from holding more than that, and
then a flush or a compaction can fail. -/
def Fits (engine : Engine) : Prop := Segment.encodedSize engine.entries < Word.signBit

/-- The engine shows one thing and keeps another, and its folder stores what it keeps. -/
structure Durable (engine : Engine) (files : FileSystem) (folder : Path) (place : Place)
    (now kept : Contents) : Prop where
  folder_eq : engine.store.folder = folder
  sound : engine.Sound now
  stores : files.Stores engine.store.folder place engine.segments.segments
  plain : files.Plain place
  finished : ∀ name priority image, StoreFile.ofName? name = some (.unfinished priority) →
    files.node? (place ++ [name]) ≠ some (.file image)
  kept_eq : engine.segments.contents = kept
  sealed_eq : engine.sealed = []
  idle : engine.flushing = false
  flushed : engine.flushResult.getD (.ok ()) = .ok ()
  compacted : engine.compactionResult.getD (.ok ()) = .ok ()

/-! ## What fits -/

theorem fits_of_entries {held older : List Entry}
    (hmemtables : engine.memtables.flatMap Memtable.entries = held)
    (hsegments : engine.segments.entries = older)
    (hfits : Segment.encodedSize (held ++ older) < Word.signBit) : engine.Fits := by
  rwa [Fits, entries, hmemtables, hsegments]

theorem Fits.active (h : engine.Fits) :
    Segment.encodedSize engine.active.entries < Word.signBit := by
  refine Nat.lt_of_le_of_lt (Segment.encodedSize_le_of_subperm ?_) h
  simp only [entries, memtables, List.flatMap_cons, List.append_assoc]
  exact (List.sublist_append_left _ _).subperm

theorem Fits.live (h : engine.Fits) {live : List Entry}
    (hlive : engine.segments.contents.Lists live) : Segment.encodedSize live < Word.signBit := by
  refine Nat.lt_of_le_of_lt (Segment.encodedSize_le_of_subperm ?_) h
  exact hlive.subperm.trans (List.sublist_append_right _ _).subperm

/-! ## Flushing -/

theorem Durable.finished_of_beside (h : engine.Durable files folder place now kept)
    (hbeside : FileSystem.Beside later files place) (name : String) (priority : Priority)
    (image : Image) (hname : StoreFile.ofName? name = some (.unfinished priority)) :
    later.node? (place ++ [name]) ≠ some (.file image) := by
  intro hnode
  rcases hbeside.unfinished name priority hname with heq | hnone
  · exact h.finished name priority image hname (heq.symm.trans hnode)
  · rw [hnone] at hnode
    cases hnode

/-- An engine without entries in memory keeps all that it shows. -/
theorem Sound.contents_eq (h : engine.Sound now) (hactive : engine.active.entries = [])
    (hsealed : engine.sealed = []) : engine.segments.contents = now := by
  rw [← h.contents, entries, memtables, hsealed, List.flatMap_singleton, hactive]
  rfl

theorem Durable.unlinked (h : engine.Durable files folder place now kept) :
    files.Unlinked engine.store.folder := h.plain.linkFree.unlinked h.stores.directory

/-- **A flush goes well**, and if there is anything to flush all that is shown is kept. -/
theorem Durable.flush (h : engine.Durable files folder place now kept) (hfits : engine.Fits)
    (hflush : engine.flush files = (result, after, later))
    (hcounted : engine.store.counter.next ≤ after.store.counter.next) :
    result = .ok () ∧ after.Durable later folder place now
      (if after.retired.size = engine.retired.size then kept else now) := by
  have hsound := h.sound.flush h.unlinked hflush hcounted
  cases hactive : engine.active.isEmpty with
  | true =>
    obtain ⟨rfl, rfl, rfl⟩ : .ok () = result ∧ engine = after ∧ files = later := by
      simpa [Engine.flush, h.sound.isOpen, h.idle, hactive] using hflush
    exact ⟨rfl, by rwa [if_pos rfl]⟩
  | false =>
    have hsome : engine.active.entries ≠ [] := mt Memtable.entries_eq_nil_iff.mp (by simp [hactive])
    obtain ⟨htable, written, hsave, hstores, hbeside⟩ := Store.save_plain h.stores h.plain
      h.sound.owns.below engine.active.pairwise_entries hsome hfits.active
    rw [flush_eq_of_save h.sound.isOpen h.idle h.sealed_eq hactive hsave] at hflush
    obtain ⟨rfl, rfl, rfl⟩ : _ ∧ _ ∧ written = later := by simpa using hflush
    have hsegments : (engine.segments.insert (engine.store.savedOf htable)).segments =
        engine.store.savedOf htable :: engine.segments.segments :=
      SegmentSet.segments_insert fun s hs => UInt64.le_of_lt (h.sound.owns.below s hs)
    refine ⟨rfl, h.folder_eq, hsound, hsegments ▸ hstores, h.plain.of_within hbeside.within,
      h.finished_of_beside hbeside, ?_, h.sealed_eq, h.idle, rfl, h.compacted⟩
    rw [if_neg (by simp [retireActive])]
    exact hsound.contents_eq rfl h.sealed_eq

/-! ## Writing -/

theorem Durable.makeRoom (h : engine.Durable files folder place now kept) (hfits : engine.Fits)
    (hroom : engine.makeRoom files = (result, after, later))
    (hcounted : engine.store.counter.next ≤ after.store.counter.next) :
    result = .ok () ∧ after.Durable later folder place now
      (if after.retired.size = engine.retired.size then kept else now) := by
  unfold Engine.makeRoom at hroom
  split at hroom
  · obtain ⟨rfl, rfl, rfl⟩ : _ ∧ engine = after ∧ files = later := by
      simpa [Prod.mk.injEq] using hroom
    exact ⟨rfl, by rwa [if_pos rfl]⟩
  rw [if_neg (by simp [h.sound.isOpen])] at hroom
  rcases hflush : engine.flush files with ⟨flushed, full, fullFiles⟩
  rw [hflush] at hroom
  split at hroom
  · rename_i heq
    have hok := flush_eq_ok h.idle files
    rw [hflush, heq] at hok
    cases hok
  · obtain ⟨rfl, rfl, rfl⟩ : _ ∧ full = after ∧ _ := by simpa [Prod.mk.injEq] using hroom
    exact h.flush hfits hflush hcounted

/-- **A write goes well.** -/
theorem Durable.put (h : engine.Durable files folder place now kept) (hfits : engine.Fits) {entry : Entry}
    (hput : engine.put entry files = (result, after, later))
    (hcounted : engine.store.counter.next ≤ after.store.counter.next) :
    result = .ok () ∧ after.Durable later folder place (now.write entry)
      (if after.retired.size = engine.retired.size then kept else now) := by
  have hsound := h.sound.put h.unlinked hput hcounted
  unfold Engine.put at hput
  rcases hroom : engine.makeRoom files with ⟨_ | _, roomy, roomyFiles⟩ <;> rw [hroom] at hput
  · obtain ⟨rfl, rfl, -⟩ : _ ∧ roomy = after ∧ _ := by simpa [Prod.mk.injEq] using hput
    exact absurd (h.makeRoom hfits hroom hcounted).1 (by simp)
  · dsimp only at hput
    split at hput
    · rename_i hclosed
      obtain ⟨-, rfl, -⟩ : _ ∧ roomy = after ∧ _ := by simpa [Prod.mk.injEq] using hput
      exact absurd hclosed (by simp [(h.makeRoom hfits hroom hcounted).2.sound.isOpen])
    · obtain ⟨rfl, rfl, rfl⟩ : _ ∧ _ ∧ roomyFiles = later := by
        simpa [Prod.mk.injEq] using hput
      obtain ⟨-, hroomy⟩ := h.makeRoom hfits hroom hcounted
      exact ⟨rfl, hroomy.folder_eq, hsound, hroomy.stores, hroomy.plain, hroomy.finished, hroomy.kept_eq,
        hroomy.sealed_eq, hroomy.idle, hroomy.flushed, hroomy.compacted⟩

/-! ## Merging -/

/-- **A compaction goes well** and keeps what was kept. -/
theorem Durable.mergeSegments (h : engine.Durable files folder place now kept) (hfits : engine.Fits)
    (hmerge : engine.mergeSegments files = (result, after, later))
    (hcounted : engine.store.counter.next ≤ after.store.counter.next) :
    result = .ok () ∧ after.retired = engine.retired ∧ after.Durable later folder place now kept := by
  have hsound := h.sound.mergeSegments h.unlinked hmerge hcounted
  unfold Engine.mergeSegments at hmerge
  rw [if_neg (by simp [h.sound.isOpen])] at hmerge
  by_cases hsize : engine.segments.size < 2
  · have hcompact : engine.store.compact engine.segments files = (.ok none, engine.store, files) := by
      simp [Store.compact, hsize]
    rw [hcompact] at hmerge
    obtain ⟨rfl, rfl, rfl⟩ : .ok () = result ∧ engine = after ∧ files = later := by
      simpa using hmerge
    exact ⟨rfl, rfl, h⟩
  · obtain ⟨live, hentries, hlive⟩ := SegmentSet.Intact.liveEntries h.sound.owns.filed.intact
    obtain ⟨output, merged, hcompact, houtput, hstores, hbeside⟩ :=
      @Store.compact_plain _ files place _ [] _ h.stores h.plain h.sound.owns.below
        (Nat.le_of_not_lt hsize) hentries hlive.ascending (hfits.live hlive)
    rw [hcompact] at hmerge
    obtain ⟨rfl, rfl, rfl⟩ : .ok () = result ∧ _ ∧ merged = later := by simpa using hmerge
    have hsegments := SegmentSet.segments_replace engine.segments output
    refine ⟨rfl, rfl, ?_, hsound, ?_, h.plain.of_within hbeside.within, h.finished_of_beside hbeside,
      ?_, h.sealed_eq, h.idle, h.flushed, h.compacted⟩
    · dsimp only
      split <;> exact h.folder_eq
    · rw [hsegments]
      dsimp only
      split <;> exact hstores
    · rw [← h.kept_eq, ← hlive.ofEntries_eq, ← houtput, ← hsegments]
      rfl

theorem Durable.compact (h : engine.Durable files folder place now kept) (hfits : engine.Fits)
    (hcompact : engine.compact files = (result, after, later))
    (hcounted : engine.store.counter.next ≤ after.store.counter.next) :
    result = .ok () ∧ after.retired = engine.retired ∧ after.Durable later folder place now kept := by
  unfold Engine.compact at hcompact
  rw [if_neg (by simp [h.sound.isOpen])] at hcompact
  split at hcompact
  · obtain ⟨rfl, rfl, rfl⟩ : _ ∧ engine = after ∧ files = later := by
      simpa [Prod.mk.injEq] using hcompact
    exact ⟨rfl, rfl, h⟩
  rcases hmerge : engine.mergeSegments files with ⟨merged, merging, mergedFiles⟩
  rw [hmerge] at hcompact
  obtain ⟨rfl, rfl, rfl⟩ : _ ∧ _ ∧ mergedFiles = later := by
    simpa [Prod.mk.injEq] using hcompact
  obtain ⟨rfl, hretired, hmerged⟩ := h.mergeSegments hfits hmerge hcounted
  have hsound := hmerged.sound
  exact ⟨rfl, hretired, hmerged.folder_eq, ⟨hsound.isOpen, hsound.owns, hsound.numbered, hsound.contents⟩,
    hmerged.stores, hmerged.plain, hmerged.finished, hmerged.kept_eq, hmerged.sealed_eq,
    hmerged.idle, hmerged.flushed, rfl⟩

/-! ## Every request -/

/-- **Every request goes well**, and the engine stays durable: what is shown at the time is kept
from then on if the active memtable is retired. -/
theorem Durable.answer (h : engine.Durable files folder place now kept) (hfits : engine.Fits)
    {request : Request} (hworks : request.Works) {reply : Reply}
    (hanswer : engine.answer files request = (reply, after, later))
    (hcounted : engine.store.counter.next ≤ after.store.counter.next) :
    reply = .done ∧ after.Durable later folder place (now.after request reply)
      (if after.retired.size = engine.retired.size then kept else now) := by
  cases request with
  | put entry =>
    obtain ⟨result, hput, rfl⟩ := eq_of_tell hanswer
    obtain ⟨rfl, hdurable⟩ := h.put hfits hput hcounted
    exact ⟨rfl, hdurable⟩
  | flush =>
    obtain ⟨result, hflush, rfl⟩ := eq_of_tell hanswer
    obtain ⟨rfl, hdurable⟩ := h.flush hfits hflush hcounted
    exact ⟨rfl, hdurable⟩
  | compact =>
    obtain ⟨result, hcompact, rfl⟩ := eq_of_tell hanswer
    obtain ⟨rfl, hretired, hdurable⟩ := h.compact hfits hcompact hcounted
    exact ⟨rfl, by rwa [if_pos (by rw [hretired])]⟩
  | mergeSegments =>
    obtain ⟨result, hmerge, rfl⟩ := eq_of_tell hanswer
    obtain ⟨rfl, hretired, hdurable⟩ := h.mergeSegments hfits hmerge hcounted
    exact ⟨rfl, by rwa [if_pos (by rw [hretired])]⟩
  | awaitFlush =>
    obtain ⟨rfl, rfl, rfl⟩ := by simpa [Engine.answer, Engine.awaitFlush, h.flushed] using hanswer
    have hsound := h.sound
    exact ⟨rfl, by
      rw [if_pos rfl]
      exact ⟨h.folder_eq, ⟨hsound.isOpen, hsound.owns, hsound.numbered, hsound.contents⟩,
        h.stores, h.plain, h.finished, h.kept_eq, h.sealed_eq, h.idle, rfl, h.compacted⟩⟩
  | awaitCompaction =>
    obtain ⟨rfl, rfl, rfl⟩ := by
      simpa [Engine.answer, Engine.awaitCompaction, h.compacted] using hanswer
    have hsound := h.sound
    exact ⟨rfl, by
      rw [if_pos rfl]
      exact ⟨h.folder_eq, ⟨hsound.isOpen, hsound.owns, hsound.numbered, hsound.contents⟩,
        h.stores, h.plain, h.finished, h.kept_eq, h.sealed_eq, h.idle, h.flushed, rfl⟩⟩
  | _ => exact hworks.elim

end Engine

end LsmTree
