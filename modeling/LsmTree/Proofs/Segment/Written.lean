import LsmTree.Proofs.FileSystem.Written
import LsmTree.Proofs.SegmentSet
import LsmTree.Store.Save

/-!
# Proofs/Segment/Written — a table that is written reads as its entries

Entries in key order that fit into a file can be written wherever a file can be, and the segment that
is opened from there tells these entries in every way it can be asked: by its size, by a scan, by
searches and look-ups, and by ranges (`Segment.reads_written_table`).
-/

namespace LsmTree.Segment

open FileSystem

variable {segment : Segment} {es : List Entry} {fs : FileSystem} {path : Path} {place : Place}

/-- Every read of the segment tells the given entries, which are in key order. -/
structure Reads (segment : Segment) (es : List Entry) : Prop where
  size_eq : segment.size = es.length
  items : segment.items = es.map .ok
  hit_iff : ∀ key pos, segment.search key = .ok (.hit pos) ↔
    ∃ hpos : pos < es.length, es[pos].key = key
  miss : ∀ key, (∀ e ∈ es, e.key ≠ key) →
    segment.search key = .ok (.miss (es.countP fun entry => decide (entry.key < key)))
  lookup : ∀ key, segment.lookup key = .ok (es.find? fun entry => entry.key = key)
  range : ∀ lower upper : Option Bytes, ∃ cursor, segment.range ⟨lower, upper⟩ = .ok cursor ∧
    ItemStream.drain cursor = (es.filter fun entry =>
      lower.all (fun key => decide (key ≤ entry.key)) &&
        upper.all fun key => decide (entry.key < key)).map .ok

/-- **A segment reads as the entries it holds.** -/
theorem Holds.reads (h : segment.Holds es) : segment.Reads es where
  size_eq := h.size_eq
  items := h.items
  hit_iff := h.search_hit_iff
  miss _ := h.search_miss
  lookup := h.lookup
  range lower upper := h.range ⟨lower, upper⟩

/-- **A table is written where a file can be.** -/
theorem writeSegment_of_resolveNew (hfits : encodedSize es < Word.signBit)
    (hplace : fs.resolveNew path = .ok place) (hfree : fs.node? place ≠ some .directory) :
    fs.writeSegment path es = (.ok (encodedSize es), fs.put place (.file (encode es))) := by
  have hwrite : fs.apply (.write path (encode es)) = .ok (fs.put place (.file (encode es))) :=
    write_eq_ok_iff.mpr ⟨place, hplace, hfree, rfl⟩
  simp only [writeSegment, if_pos hfits, perform_cons_ok [] hwrite, perform_nil]

/-- **A table that is written reads as its entries.**  Wherever a path leads to no directory, a table
is written under it, the length that the writer tells is that of the file, and the segment that is
opened from there tells the entries of the table. -/
theorem reads_written_table (h : Table es) (hplace : fs.resolveNew path = .ok place)
    (hfree : fs.node? place ≠ some .directory) (priority : Priority) :
    ∃ files segment, fs.writeSegment path es = (.ok segment.byteSize, files) ∧
      files.node? place = some (.file segment.image) ∧
      load files path priority = .ok segment ∧ segment.Reads es := by
  have hroot : place ≠ [] := by
    rintro rfl
    exact hfree (node?_nil fs)
  have hmap : (fs.put place (.file (encode es))).map path = .ok (encode es) :=
    map_of_write (write_eq_ok_iff.mpr ⟨place, hplace, hfree, rfl⟩)
  have hload : load (fs.put place (.file (encode es))) path priority =
      .ok (ofTable priority path h) := by
    rw [load, hmap]
    exact ofImage_encode priority path h
  have hsize : (ofTable priority path h).byteSize = encodedSize es := size_encode es
  refine ⟨_, ofTable priority path h, ?_, node?_put_self fs _ hroot, hload,
    (holds_of_image h rfl).reads⟩
  rw [hsize]
  exact writeSegment_of_resolveNew h.fits hplace hfree

/-- The empty key, a deleted key and a longer key: three entries with all the corners of the
format. -/
def cornerEntries : List Entry := [⟨[], some []⟩, ⟨[97], none⟩, ⟨[97, 0], some [49]⟩]

theorem table_cornerEntries : Table cornerEntries :=
  ⟨by simp [Entry.Ascending, cornerEntries], by decide⟩

/-- The three entries are found in a file of their own, the tombstone among them, and so is the place
of a key that is not there. -/
theorem reads_cornerEntries :
    ∃ files segment, ({} : FileSystem).writeSegment ["table"] cornerEntries =
        (.ok segment.byteSize, files) ∧
      load files ["table"] 7 = .ok segment ∧
      segment.lookup [97] = .ok (some ⟨[97], none⟩) ∧ segment.search [98] = .ok (.miss 3) := by
  obtain ⟨files, segment, hwrite, -, hload, hreads⟩ :=
    @reads_written_table cornerEntries {} ["table"] ["table"] table_cornerEntries rfl
      (by simp [node?]) 7
  refine ⟨files, segment, hwrite, hload, hreads.lookup [97], ?_⟩
  exact hreads.miss [98] (by simp [cornerEntries])

end LsmTree.Segment
