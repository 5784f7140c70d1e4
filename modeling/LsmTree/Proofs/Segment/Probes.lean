import LsmTree.Proofs.Segment.Content

/-!
# Proofs/Segment/Probes — what a search tells about any file

Nothing is asked here of the file of a segment but its header: slots may point anywhere and keys may
be in any order.  A search then tells what it has seen (`Segment.Probed`): the slots at both ends of
its window are probed before the window shrinks to them (`Segment.Window`).  Hence an entry that is
looked up has the key it was looked up by, and no range leaves the index
(`Segment.sound_on_any_file`).
-/

namespace LsmTree.Segment

variable {segment : Segment} {key : Bytes} {low high pos : Nat}

/-! ## Slots that were probed -/

/-- The slot was read, and its key is smaller. -/
def Below (segment : Segment) (key : Bytes) (pos : Nat) : Prop :=
  ∃ smaller, segment.readKey pos = .ok smaller ∧ smaller < key

/-- The slot was read, and its key is greater. -/
def Above (segment : Segment) (key : Bytes) (pos : Nat) : Prop :=
  ∃ greater, segment.readKey pos = .ok greater ∧ key < greater

/-- The slots of a search that is under way: those next to them on either side were probed, unless
the index ends there. -/
structure Window (segment : Segment) (key : Bytes) (low high : Nat) : Prop where
  ordered : low ≤ high
  within : high ≤ segment.size
  below : ∀ pos, pos + 1 = low → segment.Below key pos
  above : high < segment.size → segment.Above key high

/-- What a search says about the slots it probed. -/
def Probed (segment : Segment) (key : Bytes) : Except Error Position → Prop
  | .ok (.hit pos) => pos < segment.size ∧ segment.readKey pos = .ok key
  | .ok (.miss pos) => segment.Window key pos pos
  | .error e => ∃ pos < segment.size, segment.readKey pos = .error e

/-- All slots are a window. -/
theorem window_all (segment : Segment) (key : Bytes) : segment.Window key 0 segment.size where
  ordered := Nat.zero_le _
  within := Nat.le_refl _
  below _ h := absurd h (Nat.succ_ne_zero _)
  above h := absurd h (Nat.lt_irrefl _)

theorem Window.shrink_below (h : segment.Window key low high) (hpos : pos < high)
    (hbelow : segment.Below key pos) : segment.Window key (pos + 1) high where
  ordered := hpos
  within := h.within
  below _ heq := Nat.succ.inj heq ▸ hbelow
  above := h.above

theorem Window.shrink_above (h : segment.Window key low high) (hlow : low ≤ pos) (hpos : pos < high)
    (habove : segment.Above key pos) : segment.Window key low pos where
  ordered := hlow
  within := Nat.le_of_lt (Nat.lt_of_lt_of_le hpos h.within)
  below := h.below
  above _ := habove

/-! ## The search -/

/-- **A search tells what it probed**, by the window it has come to. -/
theorem Window.searchBetween (h : segment.Window key low high) :
    segment.Probed key (segment.searchBetween key low high) := by
  fun_induction segment.searchBetween key low high with
  | case1 low high hlt mid e hread =>
    have hmid : mid < high := by omega
    exact ⟨mid, Nat.lt_of_lt_of_le hmid h.within, hread⟩
  | case2 low high hlt mid midKey hread hcmp ih =>
    have hmid : mid < high := by omega
    exact ih (h.shrink_below hmid ⟨midKey, hread, (Bytes.compare_eq_lt_iff _ _).mp hcmp⟩)
  | case3 low high hlt mid midKey hread hcmp ih =>
    have hmid : mid < high := by omega
    have hlow : low ≤ mid := by omega
    exact ih (h.shrink_above hlow hmid ⟨midKey, hread, (Bytes.compare_eq_gt_iff _ _).mp hcmp⟩)
  | case4 low high hlt mid midKey hread hcmp =>
    have hmid : mid < high := by omega
    obtain rfl := (Bytes.compare_eq_eq_iff _ _).mp hcmp
    exact ⟨Nat.lt_of_lt_of_le hmid h.within, hread⟩
  | case5 low high hge =>
    obtain rfl : low = high := Nat.le_antisymm h.ordered (Nat.not_lt.mp hge)
    exact h

theorem probed_search (segment : Segment) (key : Bytes) :
    segment.Probed key (segment.search key) := (segment.window_all key).searchBetween

/-- The slot that a search comes to is one of the index, or the one behind it. -/
theorem slot_le_size {position : Position} (h : segment.search key = .ok position) :
    position.slot ≤ segment.size := by
  have hprobed := segment.probed_search key
  rw [h] at hprobed
  cases position with
  | hit pos => exact Nat.le_of_lt hprobed.1
  | miss pos => exact hprobed.within

/-! ## What rests on a search -/

/-- **A look-up tells an entry of its key**, and no other. -/
theorem key_of_lookup {entry : Entry} (h : segment.lookup key = .ok (some entry)) :
    entry.key = key := by
  have hprobed := segment.probed_search key
  obtain ⟨position, hsearch, hentry⟩ := bind_eq_ok_iff.mp h
  rw [hsearch] at hprobed
  cases position with
  | hit pos =>
    -- both readers look at the same slot
    obtain ⟨other, hread, hsome⟩ := map_eq_ok_iff.mp hentry
    obtain rfl := Option.some.inj hsome
    exact Except.ok.inj ((readKey_of_readEntry hread).symm.trans hprobed.2)
  | miss pos => cases hentry

theorem boundary_le_size {bound : Option Bytes} {outermost slot : Nat}
    (hle : outermost ≤ segment.size) (h : segment.boundary outermost bound = .ok slot) :
    slot ≤ segment.size := by
  cases bound with
  | none => exact Except.ok.inj h ▸ hle
  | some key =>
    obtain ⟨position, hsearch, rfl⟩ := map_eq_ok_iff.mp h
    exact slot_le_size hsearch

/-- **A range stays within the index**, whatever its ends are. -/
theorem range_within {interval : Interval} {cursor : Cursor}
    (h : segment.range interval = .ok cursor) :
    cursor.segment = segment ∧ cursor.pos ≤ cursor.stop ∧ cursor.stop ≤ segment.size := by
  obtain ⟨⟨start, stop⟩, hslots, hcursor⟩ := bind_eq_ok_iff.mp h
  obtain ⟨first, hfirst, hrest⟩ := bind_eq_ok_iff.mp hslots
  obtain ⟨last, hlast, hends⟩ := bind_eq_ok_iff.mp hrest
  obtain ⟨rfl, rfl⟩ := Prod.mk.inj (Except.ok.inj hends)
  obtain rfl := Except.ok.inj hcursor
  have hfirst := boundary_le_size (Nat.zero_le _) hfirst
  have hlast := boundary_le_size (Nat.le_refl _) hlast
  exact ⟨rfl, Nat.le_max_right _ _, Nat.max_le.mpr ⟨hlast, hfirst⟩⟩

/-- **A search is right about any file** whose header can be read.  A hit is a slot of the index
with this very key.  A miss is in the index or at its end, behind a slot with a smaller key and in
front of one with a greater key.  An error is that of a slot whose offset or key cannot be read.  So
a look-up tells no entry of another key, and no range leaves the index. -/
theorem sound_on_any_file (segment : Segment) (key : Bytes) :
    (∀ pos, segment.search key = .ok (.hit pos) →
      pos < segment.size ∧ segment.readKey pos = .ok key) ∧
    (∀ pos, segment.search key = .ok (.miss pos) → pos ≤ segment.size ∧
      (∀ before, before + 1 = pos →
        ∃ smaller, segment.readKey before = .ok smaller ∧ smaller < key) ∧
      (pos < segment.size → ∃ greater, segment.readKey pos = .ok greater ∧ key < greater)) ∧
    (∀ e, segment.search key = .error e → ∃ pos < segment.size,
      IndexSlot.decode segment.image pos = .error e ∨
      ∃ offset, IndexSlot.decode segment.image pos = .ok offset ∧
        Record.decodeKey segment.image offset = .error e) ∧
    (∀ entry, segment.lookup key = .ok (some entry) → entry.key = key) ∧
    ∀ interval cursor, segment.range interval = .ok cursor →
      cursor.segment = segment ∧ cursor.pos ≤ cursor.stop ∧ cursor.stop ≤ segment.size := by
  have hprobed := segment.probed_search key
  refine ⟨fun pos h => ?_, fun pos h => ?_, fun e h => ?_, fun entry => key_of_lookup,
    fun interval cursor => range_within⟩
  · rwa [h] at hprobed
  · rw [h] at hprobed
    exact ⟨hprobed.within, hprobed.below, hprobed.above⟩
  · rw [h] at hprobed
    obtain ⟨pos, hpos, hread⟩ := hprobed
    exact ⟨pos, hpos, bind_eq_error_iff.mp hread⟩

/-! ### Keys out of order

A file with a header and two slots whose keys descend. -/

/-- The segment of the file. -/
def descendingSegment : Segment :=
  ⟨1, ["table"], Segment.encode [⟨[98], some [1]⟩, ⟨[97], none⟩], ⟨.v0, 2⟩, rfl⟩

theorem search_descendingSegment : descendingSegment.search [98] = .ok (.miss 2) := by
  have hread : descendingSegment.readKey 1 = .ok [97] := rfl
  have hsize : descendingSegment.size = 2 := rfl
  have hless : compare ([97] : Bytes) [98] = .lt := rfl
  simp [search, searchBetween, hsize, hread, hless]

/-- The key of the first slot is missed; what the miss says of the last slot is right all the
same. -/
theorem miss_descendingSegment :
    descendingSegment.search [98] = .ok (.miss 2) ∧
      ∃ smaller, descendingSegment.readKey 1 = .ok smaller ∧ smaller < [98] := by
  obtain ⟨-, hmiss, -⟩ := sound_on_any_file descendingSegment [98]
  exact ⟨search_descendingSegment, (hmiss 2 search_descendingSegment).2.1 1 rfl⟩

end LsmTree.Segment
