import LsmTree.Proofs.Contents
import LsmTree.Proofs.Format.RoundTrip
import LsmTree.Segment.Cursor
import LsmTree.Segment.Encode

/-!
# Proofs/Segment/Content — a segment holds the entries its file was written from

`Segment.Holds segment es` is what every read of a segment rests on: its slots can be read, and what
they say is `es`, in key order.  A file written by `Segment.encode` makes such a segment
(`Segment.holds_of_image`), unless it would be longer than files can be.
-/

namespace LsmTree

/-- Entries that a segment file can hold: in key order, and few enough for one file. -/
structure Segment.Table (es : List Entry) : Prop where
  ascending : Entry.Ascending es
  fits : Segment.encodedSize es < Word.signBit

namespace Segment

/-! ## Where the pieces of an encoded file lie -/

theorem offsets_append (start : Nat) (es fs : List Entry) :
    offsets start (es ++ fs) = offsets start es ++ offsets (start + recordsSize es) fs := by
  induction es generalizing start with
  | nil => simp [offsets, recordsSize]
  | cons e rest ih => simp [offsets, recordsSize, ih, Nat.add_assoc]

theorem recordsSize_le_of_sublist {es fs : List Entry} (h : es.Sublist fs) :
    recordsSize es ≤ recordsSize fs := by
  induction h with
  | slnil => exact Nat.le_refl _
  | cons e _ ih => exact Nat.le_trans ih (Nat.le_add_left _ _)
  | cons_cons e _ ih => exact Nat.add_le_add_left ih _

theorem recordsSize_eq_of_perm {es fs : List Entry} (h : es.Perm fs) :
    recordsSize es = recordsSize fs := by
  induction h with
  | nil => rfl
  | cons e _ ih => exact congrArg (Record.size e + ·) ih
  | swap e other rest => simp [recordsSize, Nat.add_left_comm]
  | trans _ _ ih ih' => exact ih.trans ih'

/-- **Fewer entries take no more bytes.** -/
theorem encodedSize_le_of_subperm {es fs : List Entry} (h : es.Subperm fs) :
    encodedSize es ≤ encodedSize fs := by
  obtain ⟨others, hperm, hsub⟩ := h
  have hrecords : recordsSize es ≤ recordsSize fs :=
    recordsSize_eq_of_perm hperm ▸ recordsSize_le_of_sublist hsub
  have hlength : es.length ≤ fs.length := hperm.length_eq ▸ hsub.length_le
  have hslots := Nat.mul_le_mul_left Word.size hlength
  unfold encodedSize Header.indexEnd
  omega

theorem at_encode (es : List Entry) :
    (encode es).At 0 (Header.encode ⟨.v0, es.length⟩) ∧
      (encode es).At Header.size (encodeIndex es) ∧
        (encode es).At (Header.indexEnd es.length) (es.flatMap Record.encode) := by
  have hheader : (Header.encode ⟨.v0, es.length⟩).length = Header.size := by
    simp [Header.encode, Header.fields, Header.size, Word.size]
  have hindex : (encodeIndex es).length = Word.size * es.length := by
    rw [encodeIndex, length_flatMap_slot, length_offsets, Word.size]
  have hall : (encode es).At 0 (Header.encode ⟨.v0, es.length⟩ ++ encodeIndex es ++
      es.flatMap Record.encode) := Image.at_iff.mpr ⟨[], [], by simp [encode], rfl⟩
  obtain ⟨hfront, hrecords⟩ := hall.append
  obtain ⟨hfirst, hslots⟩ := hfront.append
  rw [List.length_append, hheader, hindex, Nat.zero_add] at hrecords
  rw [hheader, Nat.zero_add] at hslots
  exact ⟨hfirst, hslots, hrecords⟩

/-- The record of an entry lies where its index slot points to. -/
theorem at_encode_middle (before : List Entry) (e : Entry) (after : List Entry) :
    let es := before ++ e :: after
    let offset := Header.indexEnd es.length + recordsSize before
    (encode es).At (Header.size + before.length * Word.size) (IndexSlot.encode offset) ∧
      (encode es).At offset (Record.encode e) := by
  obtain ⟨-, hslots, hrecords⟩ := at_encode (before ++ e :: after)
  constructor
  · rw [encodeIndex, offsets_append, List.flatMap_append] at hslots
    have hslot := hslots.append.2
    rw [length_flatMap_slot, length_offsets, offsets, List.flatMap_cons] at hslot
    rw [Nat.mul_comm]
    exact hslot.append.1
  · rw [List.flatMap_append] at hrecords
    have hrecord := hrecords.append.2
    rw [length_flatMap_record, List.flatMap_cons] at hrecord
    exact hrecord.append.1

theorem indexEnd_le_encodedSize (es : List Entry) :
    Header.indexEnd es.length ≤ encodedSize es := Nat.le_add_right _ _

/-! ## Segments that hold entries -/

/-- The segment's slots can be read, and hold the entries in key order. -/
structure Holds (segment : Segment) (es : List Entry) : Prop where
  ascending : Entry.Ascending es
  size_eq : segment.size = es.length
  read : ∀ (i : Nat) (h : i < es.length), segment.readEntry i = .ok es[i]

theorem decode_encode {es : List Entry} (h : Table es) :
    Header.decode (encode es) = .ok ⟨.v0, es.length⟩ :=
  Header.decode_of_at (at_encode es).1 (by rw [size_encode]; exact h.fits)
    (by rw [size_encode]; exact indexEnd_le_encodedSize es)

/-- **A segment holds the entries that its file was written from.** -/
theorem holds_of_image {segment : Segment} {es : List Entry} (h : Table es)
    (himage : segment.image = encode es) : segment.Holds es where
  ascending := h.ascending
  size_eq := by
    have hread := segment.readable
    rw [himage, decode_encode h] at hread
    rw [size, ← Except.ok.inj hread]
  read i hi := by
    have hsplit : es = es.take i ++ es[i] :: es.drop (i + 1) := by simp
    have hsize : (encode es).size < Word.signBit := by
      rw [size_encode]
      exact h.fits
    obtain ⟨hslot, hrecord⟩ := at_encode_middle (es.take i) es[i] (es.drop (i + 1))
    rw [← hsplit, List.length_take, Nat.min_eq_left (Nat.le_of_lt hi)] at hslot
    rw [← hsplit] at hrecord
    -- the record takes at least two words, so its offset lies in front of the end of the file
    have hend := hrecord.le_size
    rw [Record.length_encode, Record.size, Word.size] at hend
    have hoffset := IndexSlot.decode_of_at hslot hsize
      (by simp only [Header.indexEnd]; omega) (by omega)
    simp [readEntry, himage, hoffset, Record.decode_of_at hrecord hsize, bind, Except.bind]

variable {segment : Segment} {es : List Entry}

/-- A slot whose entry can be read has the key of that entry. -/
theorem readKey_of_readEntry {entry : Entry} {pos : Nat}
    (h : segment.readEntry pos = .ok entry) : segment.readKey pos = .ok entry.key := by
  obtain ⟨offset, hslot, hrecord⟩ := bind_eq_ok_iff.mp h
  exact bind_eq_ok_iff.mpr ⟨offset, hslot, Record.decodeKey_of_decode hrecord⟩

theorem Holds.readKey (h : segment.Holds es) (i : Nat) (hi : i < es.length) :
    segment.readKey i = .ok es[i].key := readKey_of_readEntry (h.read i hi)

/-! ## Reading from the front -/

theorem next?_cursor_ok {entry : Entry} {pos stop : Nat} (hlt : pos < stop)
    (h : segment.readEntry pos = .ok entry) :
    ItemStream.next? (⟨segment, pos, stop⟩ : Cursor) =
      some (.ok entry, ⟨segment, pos + 1, stop⟩) := by
  simp [ItemStream.next?, Cursor.next?, hlt, h]

theorem next?_cursor_error {e : Error} {pos stop : Nat} (hlt : pos < stop)
    (h : segment.readEntry pos = .error e) :
    ItemStream.next? (⟨segment, pos, stop⟩ : Cursor) =
      some (.error e, ⟨segment, stop, stop⟩) := by
  simp [ItemStream.next?, Cursor.next?, hlt, h]

theorem next?_cursor_end (segment : Segment) {pos stop : Nat} (hle : stop ≤ pos) :
    ItemStream.next? (⟨segment, pos, stop⟩ : Cursor) = none := by
  simp [ItemStream.next?, Cursor.next?, Nat.not_lt.mpr hle]

/-- **A scan reads its slots in order, up to the first that cannot be read**: so many of them, all
but the last readable, and the last an error if slots are left. -/
theorem drain_cursor_eq (segment : Segment) (pos stop : Nat) :
    ∃ count ≤ stop - pos,
      ItemStream.drain (⟨segment, pos, stop⟩ : Cursor) =
        (List.range' pos count).map segment.readEntry ∧
      (∀ i, i + 1 < count → ∃ entry, segment.readEntry (pos + i) = .ok entry) ∧
      (count < stop - pos → ∃ i e, count = i + 1 ∧ segment.readEntry (pos + i) = .error e) := by
  rcases Nat.lt_or_ge pos stop with hlt | hge
  · cases hread : segment.readEntry pos with
    | error e =>
      refine ⟨1, by omega, ?_, fun i hi => by omega, fun _ => ⟨0, e, rfl, hread⟩⟩
      rw [ItemStream.drain_of_some (next?_cursor_error hlt hread),
        ItemStream.drain_of_none (next?_cursor_end segment (Nat.le_refl _))]
      simp [hread]
    | ok entry =>
      obtain ⟨count, hcount, hdrain, hreadable, hlast⟩ := drain_cursor_eq segment (pos + 1) stop
      refine ⟨count + 1, by omega, ?_, fun i hi => ?_, fun hleft => ?_⟩
      · rw [ItemStream.drain_of_some (next?_cursor_ok hlt hread), hdrain, List.range'_succ,
          List.map_cons, hread]
      · cases i with
        | zero => exact ⟨entry, hread⟩
        | succ i =>
          obtain ⟨later, hlater⟩ := hreadable i (by omega)
          exact ⟨later, by rw [← hlater]; congr 1; omega⟩
      · obtain ⟨i, e, rfl, herror⟩ := hlast (by omega)
        exact ⟨i + 1, e, rfl, by rw [← herror]; congr 1; omega⟩
  · refine ⟨0, Nat.zero_le _, ?_, fun i hi => by omega, fun hleft => by omega⟩
    rw [ItemStream.drain_of_none (next?_cursor_end segment hge), List.range'_zero, List.map_nil]
termination_by stop - pos

theorem Holds.drain_cursor (h : segment.Holds es) (pos stop : Nat) (hstop : stop ≤ es.length) :
    ItemStream.drain (⟨segment, pos, stop⟩ : Cursor) =
      ((es.drop pos).take (stop - pos)).map .ok := by
  rcases Nat.lt_or_ge pos stop with hlt | hge
  · have hpos : pos < es.length := Nat.lt_of_lt_of_le hlt hstop
    have hcount : stop - pos = (stop - (pos + 1)) + 1 := by omega
    rw [ItemStream.drain_of_some (next?_cursor_ok hlt (h.read pos hpos)),
      h.drain_cursor (pos + 1) stop hstop, List.drop_eq_getElem_cons hpos, hcount,
      List.take_succ_cons, List.map_cons]
  · rw [ItemStream.drain_of_none (next?_cursor_end segment hge), Nat.sub_eq_zero_of_le hge,
      List.take_zero, List.map_nil]
termination_by stop - pos

/-- **A segment yields the entries it holds.** -/
theorem Holds.items (h : segment.Holds es) : segment.items = es.map .ok := by
  rw [Segment.items, cursor, h.drain_cursor _ _ (Nat.le_of_eq h.size_eq), h.size_eq]
  simp

end Segment

end LsmTree
