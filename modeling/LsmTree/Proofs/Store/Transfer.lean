import LsmTree.Proofs.FileSystem.Moved
import LsmTree.Proofs.Memtable
import LsmTree.Proofs.Segment.Lookup
import LsmTree.Proofs.Store.Save

/-!
# Proofs/Store/Transfer — a memtable reads the same once it is a segment

A segment **copies** a memtable if it answers every question as the memtable does: look-ups, scans,
the number of keys, and ranges between any two ends, inverted ones included.  The memtable cuts a
range out of its entries, the segment searches its index for the two ends, and what the segment reads
has been through a file; yet whatever was inserted, and whatever else is in the folder, a flush that
goes well yields a copy (`Store.copies_of_flush`).
-/

namespace LsmTree

/-- Every read of the segment tells what the same read of the memtable tells, and none fails. -/
structure Segment.Copies (segment : Segment) (table : Memtable) : Prop where
  lookup : ∀ key, segment.lookup key = .ok (table.lookup key)
  items : segment.items = table.entries.map .ok
  range : ∀ lower upper : Option Bytes, ∃ cursor, segment.range ⟨lower, upper⟩ = .ok cursor ∧
    ItemStream.drain cursor = (table.entriesIn ⟨lower, upper⟩).map .ok
  size_eq : segment.size = table.size

/-- **A segment that holds a memtable's entries copies the memtable.** -/
theorem Segment.Holds.copies {segment : Segment} {table : Memtable}
    (h : segment.Holds table.entries) : segment.Copies table where
  lookup key := by rw [h.lookup, table.first?_entries]
  items := h.items
  range lower upper := by
    rw [table.entriesIn_eq_filter]
    exact h.range ⟨lower, upper⟩
  size_eq := h.size_eq.trans table.size_eq_length.symm

namespace Store

variable {store after : Store} {fs files : FileSystem} {entries es : List Entry} {s : Segment}

/-- **A segment that was saved is the file of what was to be saved**, whatever is in the folder. -/
theorem image_of_save (h : store.save entries fs = (.ok (some s), after, files)) :
    Segment.encodedSize entries < Word.signBit ∧ s.image = Segment.encode entries := by
  obtain ⟨hfits, hload, -, hperform⟩ := perform_of_save h
  obtain ⟨written, hwrite, hrest⟩ := FileSystem.perform_cons_eq_ok hperform
  obtain ⟨renamed, hrename, hnil⟩ := FileSystem.perform_cons_eq_ok hrest
  obtain ⟨-, rfl⟩ := Prod.mk.inj hnil
  obtain ⟨hmap, -⟩ := Segment.load_eq_ok_iff.mp hload
  have hne : (StoreFile.unfinished store.counter.next).name ≠
      (StoreFile.segment store.counter.next).name := by simp [StoreFile.name_inj]
  exact ⟨hfits, FileSystem.eq_of_write_rename_map (StoreFile.isName_name _)
    (StoreFile.utf8ByteSize_name_le _) (StoreFile.isName_name _)
    (StoreFile.utf8ByteSize_name_le _) hne hwrite hrename hmap⟩

/-- **A segment that was saved holds what was to be saved.** -/
theorem holds_of_save (hascending : Entry.Ascending entries)
    (h : store.save entries fs = (.ok (some s), after, files)) : s.Holds entries := by
  obtain ⟨hfits, himage⟩ := image_of_save h
  exact Segment.holds_of_image ⟨hascending, hfits⟩ himage

/-- **A segment that was saved has the next priority.** -/
theorem priority_of_save (h : store.save entries fs = (.ok (some s), after, files)) :
    s.priority = store.counter.next ∧ after = store.advance := by
  obtain ⟨-, hload, rfl, -⟩ := perform_of_save h
  exact ⟨(Segment.load_eq_ok_iff.mp hload).2.1, rfl⟩

/-- **A flush that goes well copies the memtable**, whatever was inserted into it, and whatever else
is in the folder.  The memtable counts the size of all that was inserted in 64 bits.  Where they
suffice, its size is the sum of the inserted sizes, which is not less than that of what is held. -/
theorem copies_of_flush {found : Option Segment} (hne : es ≠ [])
    (h : store.flush (.ofEntries es) fs = (.ok found, after, files)) :
    (∃ segment, found = some segment ∧ segment.Copies (.ofEntries es)) ∧
      (Memtable.ofEntries es).byteSize = .ofNat (Entry.totalSize es) ∧
      (Entry.totalSize es < UInt64.size →
        (Memtable.ofEntries es).byteSize.toNat = Entry.totalSize es ∧
          Entry.totalSize (Memtable.ofEntries es).entries ≤
            (Memtable.ofEntries es).byteSize.toNat) := by
  refine ⟨?_, Memtable.byteSize_ofEntries es, fun hsize => ?_⟩
  · cases found with
    | none => exact absurd (Memtable.entries_ofEntries_eq_nil_iff.mp (eq_nil_of_save h)) hne
    | some segment => exact ⟨segment, rfl, (holds_of_save (Memtable.pairwise_entries _) h).copies⟩
  · rw [Memtable.toNat_byteSize_ofEntries hsize]
    exact ⟨rfl, Memtable.totalSize_entries_le es⟩

/-- A key that is written and deleted, and the empty key with the empty value. -/
def rewrittenEntries : List Entry := [⟨[98], some [49, 50]⟩, ⟨[], some []⟩, .tombstone [98]]

/-- The three inserts are flushed as two entries, the deleted key is found deleted, and the deletion
is counted as well as the value. -/
theorem copies_rewrittenEntries :
    ∃ segment after files,
      (⟨["store"], {}⟩ : Store).flush (.ofEntries rewrittenEntries) (.ofFolder "store") =
        (.ok (some segment), after, files) ∧
      segment.size = 2 ∧ segment.lookup [98] = .ok (some (.tombstone [98])) ∧
      (Memtable.ofEntries rewrittenEntries).byteSize.toNat = 4 := by
  have hfolder := @FileSystem.directoryAt_ofFolder "store" (by decide) (by decide)
  obtain ⟨htable, files, hsave, -⟩ := @save_plain ⟨["store"], {}⟩ (.ofFolder "store")
    (Memtable.ofEntries rewrittenEntries).entries ["store"] [] (FileSystem.stores_ofFolder hfolder)
    (FileSystem.plain_ofFolder "store") (by simp) (Memtable.pairwise_entries _) (by decide)
    (by decide)
  obtain ⟨⟨segment, hfound, hcopies⟩, -, hcounted⟩ := copies_of_flush (by decide) hsave
  obtain ⟨hsize, -⟩ := hcounted (by decide)
  rw [Option.some.inj hfound] at hsave
  exact ⟨segment, _, files, hsave, hcopies.size_eq, hcopies.lookup [98], hsize⟩

end Store

end LsmTree
