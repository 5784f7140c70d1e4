import LsmTree.Proofs.Format.Machine
import LsmTree.Proofs.Segment.Probes

/-!
# Proofs/Segment/Machine — searches and scans with integers of 64 bits

The search by halving and the range scan, written once more for a machine.  Neither looks whether a
sum or a difference has a place: a search counts on its window being one of the index, a scan on its
first slot not being behind its last.  Nothing of that is broken by what the file says, so there is
no fault, whatever the bytes of the file are, and every result is the one that the numbers without
limits have (`Machine.reads_any_file`).
-/

namespace LsmTree

namespace Machine

variable {α β : Type} {segment : Segment} {key : Bytes}

/-! ## Slots -/

/-- The number of entries that the header tells. -/
def slotCount (segment : Segment) : UInt64 := .ofNat segment.size

/-- The entry in a slot of the index. -/
def readEntry (segment : Segment) (pos : UInt64) : Machine Entry := do
  let offset ← indexSlot segment.image pos
  decode segment.image offset

/-- The key in a slot of the index. -/
def readKey (segment : Segment) (pos : UInt64) : Machine Bytes := do
  let offset ← indexSlot segment.image pos
  let (key, _) ← keyField segment.image offset
  return key

/-- The slots of the index lie in the file. -/
theorem indexEnd_le_size {pos : Nat} (hpos : pos ≤ segment.size) :
    Header.indexEnd pos ≤ segment.image.size :=
  Nat.le_trans (Nat.add_le_add_left (Nat.mul_le_mul_left _ hpos) _) segment.indexEnd_le_byteSize

theorem size_le_size {pos : Nat} (hpos : pos ≤ segment.size) : pos ≤ segment.image.size := by
  have hend := indexEnd_le_size hpos
  rw [Header.indexEnd, Word.size] at hend
  omega

theorem readEntry_eq (hfits : segment.image.size < Word.signBit) {pos : UInt64}
    (hpos : pos.toNat < segment.size) :
    readEntry segment pos = exact (segment.readEntry pos.toNat) :=
  bind_exact (indexSlot_eq hfits (indexEnd_le_size (Nat.le_of_lt hpos))) fun _ _ =>
    decode_eq hfits _

theorem readKey_eq (hfits : segment.image.size < Word.signBit) {pos : UInt64}
    (hpos : pos.toNat < segment.size) :
    readKey segment pos = exact (segment.readKey pos.toNat) := by
  refine bind_exact (indexSlot_eq hfits (indexEnd_le_size (Nat.le_of_lt hpos)))
    fun offset _ => ?_
  have hfield := keyField_eq hfits offset
  rw [Record.decodeKey, ← bind_pure_comp]
  exact bind_exact hfield fun _ _ => rfl

/-! ## Searches -/

/-- Where a machine finds a key: in a slot, or missing in front of one. -/
inductive Found where
  | hit (pos : UInt64)
  | miss (pos : UInt64)

namespace Found

/-- The first slot whose key is not below the one looked for. -/
def slot : Found → UInt64
  | hit pos => pos
  | miss pos => pos

/-- The same place without limits. -/
def position : Found → Position
  | hit pos => .hit pos.toNat
  | miss pos => .miss pos.toNat

end Found

/-- One round of a search: it ends, or goes on between two slots.  That the next slot after the
middle has a place rests on the window being one of the index. -/
def probe (segment : Segment) (key : Bytes) (low high : UInt64) :
    Machine (Found ⊕ UInt64 × UInt64) := do
  let width ← sub high low
  let mid ← add low (width / 2)
  let midKey ← readKey segment mid
  match compare midKey key with
  | .lt => return .inr (← add mid 1, high)
  | .gt => return .inr (low, mid)
  | .eq => return .inl (.hit mid)

/-- The slot in the middle is found without a fault. -/
theorem middle_spec {low high : UInt64} (h : low.toNat < high.toNat) :
    ∃ width mid, sub high low = .ok width ∧ add low (width / 2) = .ok mid ∧
      mid.toNat = low.toNat + (high.toNat - low.toNat) / 2 := by
  obtain ⟨width, hsub, hwidth⟩ := sub_spec (UInt64.le_iff_toNat_le.mpr (Nat.le_of_lt h))
  have hhalf : (width / 2).toNat = (high.toNat - low.toNat) / 2 := by
    rw [UInt64.toNat_div, hwidth]
    rfl
  obtain ⟨mid, hadd, hmid⟩ := @add_spec low (width / 2) (by
    have hhigh := high.toNat_lt
    have hsize : UInt64.size = 2 ^ 64 := rfl
    omega)
  exact ⟨width, mid, hsub, hadd, by rw [hmid, hhalf]⟩

/-- A computation that came to a result came to one at its first step. -/
theorem exists_of_bind_eq_ok {found : Machine α} {next : α → Machine β} {b : β}
    (h : (found >>= next).run = .ok (.ok b)) :
    ∃ a, found.run = .ok (.ok a) ∧ (next a).run = .ok (.ok b) := by
  obtain fault | e | a := found
  · cases h
  · cases h
  · exact ⟨a, rfl, h⟩

/-- **A round leaves fewer slots.** -/
theorem probe_shrinks {low high low' high' : UInt64} (h : low < high)
    (hprobe : (probe segment key low high).run = .ok (.ok (.inr (low', high')))) :
    high'.toNat - low'.toNat < high.toNat - low.toNat := by
  have hlt := UInt64.lt_iff_toNat_lt.mp h
  obtain ⟨width, mid, hsub, hadd, hmid⟩ := middle_spec hlt
  rw [probe, hsub, lift_ok_bind, hadd, lift_ok_bind] at hprobe
  obtain ⟨midKey, -, hround⟩ := exists_of_bind_eq_ok hprobe
  cases hcompare : compare midKey key with
  | lt =>
    obtain ⟨next, hnext, hpos⟩ := @add_spec mid 1 (by
      have hhigh := high.toNat_lt
      have hsize : UInt64.size = 2 ^ 64 := rfl
      have hone : (1 : UInt64).toNat = 1 := rfl
      omega)
    rw [hcompare, hnext] at hround
    cases hround
    have hone : (1 : UInt64).toNat = 1 := rfl
    omega
  | gt =>
    rw [hcompare] at hround
    cases hround
    omega
  | eq =>
    rw [hcompare] at hround
    cases hround

/-- Looks for a key among the slots from `low` on and before `high`. -/
def searchBetween (segment : Segment) (key : Bytes) (low high : UInt64) : Machine Found :=
  if _hlt : low < high then
    match _hprobe : (probe segment key low high).run with
    | .ok (.ok (.inr (low', high'))) => searchBetween segment key low' high'
    | .ok (.ok (.inl found)) => exact (.ok found)
    | .ok (.error e) => exact (.error e)
    | .error fault => ExceptT.mk (.error fault)
  else return .miss low
termination_by high.toNat - low.toNat
decreasing_by exact probe_shrinks _hlt _hprobe

/-- Looks for a key in the whole segment. -/
def search (segment : Segment) (key : Bytes) : Machine Found :=
  searchBetween segment key 0 (slotCount segment)

/-- The entry of a key, a tombstone included. -/
def lookup (segment : Segment) (key : Bytes) : Machine (Option Entry) := do
  match ← search segment key with
  | .hit pos => some <$> readEntry segment pos
  | .miss _ => return none

/-- A search is one round and, unless the round ends it, a search of what the round leaves. -/
theorem searchBetween_eq_bind {low high : UInt64} (hlt : low < high) :
    searchBetween segment key low high = probe segment key low high >>= fun
      | .inl found => exact (.ok found)
      | .inr (low', high') => searchBetween segment key low' high' := by
  rw [searchBetween, dif_pos hlt]
  split
  · rename_i hprobe
    rw [show probe segment key low high = exact (.ok (.inr (_, _))) from hprobe]
    rfl
  · rename_i hprobe
    rw [show probe segment key low high = exact (.ok (.inl _)) from hprobe]
    rfl
  · rename_i hprobe
    rw [show probe segment key low high = exact (.error _) from hprobe]
    rfl
  · rename_i hprobe
    rw [show probe segment key low high = ExceptT.mk (.error _) from hprobe]
    rfl

/-- **A search between two slots of the index comes to its end without a fault.** -/
theorem searchBetween_eq (hfits : segment.image.size < Word.signBit) (low high : UInt64)
    (hhigh : high.toNat ≤ segment.size) :
    Found.position <$> searchBetween segment key low high =
      exact (segment.searchBetween key low.toNat high.toNat) := by
  rw [Segment.searchBetween]
  by_cases hlt : low.toNat < high.toNat
  · obtain ⟨width, mid, hsub, hadd, hmid⟩ := middle_spec hlt
    have hread := @readKey_eq segment hfits mid (by omega)
    rw [if_pos hlt, searchBetween_eq_bind (UInt64.lt_iff_toNat_lt.mpr hlt), probe, hsub,
      lift_ok_bind, hadd, lift_ok_bind, hread, ← hmid]
    dsimp only
    cases segment.readKey mid.toNat with
    | error e => rfl
    | ok midKey =>
      rw [exact_ok_bind]
      dsimp only
      cases compare midKey key with
      | lt =>
        obtain ⟨next, hnext, hpos⟩ := @add_within segment.image hfits mid 1
          (size_le_size (by omega)) (by decide)
        have hpos : next.toNat = mid.toNat + 1 := hpos
        dsimp only
        rw [hnext, lift_ok_bind, ← hpos]
        exact searchBetween_eq hfits next high hhigh
      | gt => exact searchBetween_eq hfits low mid (by omega)
      | eq => rfl
  · rw [if_neg hlt, searchBetween, dif_neg (mt UInt64.lt_iff_toNat_lt.mp hlt)]
    rfl
termination_by high.toNat - low.toNat

theorem toNat_slotCount (hfits : segment.image.size < Word.signBit) :
    (slotCount segment).toNat = segment.size :=
  toNat_ofNat_of_le hfits (size_le_size (Nat.le_refl _))

/-- **A search comes to its end without a fault**, whatever the file says. -/
theorem search_eq (hfits : segment.image.size < Word.signBit) (key : Bytes) :
    Found.position <$> search segment key = exact (segment.search key) := by
  have hcount := toNat_slotCount hfits
  rw [search, searchBetween_eq hfits 0 _ (Nat.le_of_eq hcount), hcount]
  rfl

theorem lookup_eq (hfits : segment.image.size < Word.signBit) (key : Bytes) :
    lookup segment key = exact (segment.lookup key) := by
  refine bind_exact (search_eq hfits key) fun found hsearch => ?_
  cases found with
  | hit pos =>
    have hprobed := segment.probed_search key
    rw [hsearch] at hprobed
    dsimp only
    rw [readEntry_eq hfits hprobed.1, map_exact]
    rfl
  | miss pos => rfl

/-! ## Scans -/

/-- A segment and the slots still to be read: from `pos` on, before `stop`. -/
structure Range where
  segment : Segment
  pos : UInt64
  stop : UInt64

namespace Range

variable {r r' : Range} {item : Item}

/-- The same slots without limits. -/
def cursor (r : Range) : Segment.Cursor := ⟨r.segment, r.pos.toNat, r.stop.toNat⟩

/-- Reads the next slot; after an error there is none. -/
def next? (r : Range) : Except Fault (Option (Item × Range)) :=
  if r.pos < r.stop then do
    match ← (readEntry r.segment r.pos).run with
    | .error e => return some (.error e, { r with pos := r.stop })
    | .ok entry => return some (.ok entry, { r with pos := ← add r.pos 1 })
  else return none

/-- The number of slots that are left. -/
def sizeHint (r : Range) : Except Fault SizeHint := do
  let remaining ← sub r.stop r.pos
  return ⟨remaining.toNat, some remaining.toNat⟩

/-- What a step leaves: the slots behind the one that was read, or none. -/
theorem eq_of_next? (h : r.next? = .ok (some (item, r'))) :
    r.pos.toNat < r.stop.toNat ∧ r'.segment = r.segment ∧ r'.stop = r.stop ∧
      (r'.pos = r.stop ∨ r'.pos.toNat = r.pos.toNat + 1) := by
  unfold next? at h
  split at h
  · rename_i hlt
    refine ⟨UInt64.lt_iff_toNat_lt.mp hlt, ?_⟩
    obtain ⟨outcome, -, hstep⟩ := bind_eq_ok_iff.mp h
    cases outcome with
    | error e =>
      cases hstep
      exact ⟨rfl, rfl, .inl rfl⟩
    | ok entry =>
      obtain ⟨next, hadd, hrest⟩ := bind_eq_ok_iff.mp hstep
      cases hrest
      exact ⟨rfl, rfl, .inr (toNat_of_add hadd)⟩
  · cases h

theorem remaining_next?_lt (h : r.next? = .ok (some (item, r'))) :
    r'.stop.toNat - r'.pos.toNat < r.stop.toNat - r.pos.toNat := by
  obtain ⟨hlt, -, hstop, hpos | hpos⟩ := eq_of_next? h
  · rw [hstop, hpos]
    omega
  · rw [hstop, hpos]
    omega

/-- Every step with the hint given before it, up to and with the step that finds the end. -/
def steps (r : Range) : Except Fault (List (SizeHint × Option Item)) := do
  let hint ← r.sizeHint
  match _h : r.next? with
  | .error fault => .error fault
  | .ok none => return [(hint, none)]
  | .ok (some (item, rest)) => ((hint, some item) :: ·) <$> rest.steps
termination_by r.stop.toNat - r.pos.toNat
decreasing_by exact remaining_next?_lt _h

/-- The slots are slots of the index. -/
structure Within (r : Range) : Prop where
  ordered : r.pos.toNat ≤ r.stop.toNat
  within : r.stop.toNat ≤ r.segment.size

theorem Within.next? (hr : r.Within) (h : r.next? = .ok (some (item, r'))) : r'.Within := by
  obtain ⟨hlt, hsegment, hstop, hpos⟩ := eq_of_next? h
  refine ⟨?_, by rw [hstop, hsegment]; exact hr.within⟩
  rw [hstop]
  rcases hpos with hpos | hpos
  · exact Nat.le_of_eq (congrArg UInt64.toNat hpos)
  · omega

/-- **The number of slots that are left is told without a fault.** -/
theorem Within.sizeHint (hr : r.Within) : r.sizeHint = .ok (ItemStream.sizeHint r.cursor) := by
  obtain ⟨remaining, hsub, hremaining⟩ := sub_spec (UInt64.le_iff_toNat_le.mpr hr.ordered)
  rw [Range.sizeHint, hsub]
  change Except.ok (⟨remaining.toNat, some remaining.toNat⟩ : SizeHint) = _
  rw [hremaining]
  rfl

/-- **A step of a scan is made without a fault.** -/
theorem Within.next?_eq (hr : r.Within) (hfits : r.segment.image.size < Word.signBit) :
    Option.map (Prod.map id cursor) <$> r.next? = .ok (ItemStream.next? r.cursor) := by
  rw [cursor]
  by_cases hlt : r.pos.toNat < r.stop.toNat
  · have hpos : r.pos.toNat < r.segment.size := Nat.lt_of_lt_of_le hlt hr.within
    rw [Range.next?, if_pos (UInt64.lt_iff_toNat_lt.mpr hlt), readEntry_eq hfits hpos]
    cases hread : r.segment.readEntry r.pos.toNat with
    | error e =>
      rw [Segment.next?_cursor_error hlt hread]
      rfl
    | ok entry =>
      obtain ⟨next, hadd, hnext⟩ := @add_within r.segment.image hfits r.pos 1
        (size_le_size (Nat.le_of_lt hpos)) (by decide)
      have hnext : next.toNat = r.pos.toNat + 1 := hnext
      rw [Segment.next?_cursor_ok hlt hread, ← hnext, hadd]
      rfl
  · rw [Range.next?, if_neg (mt UInt64.lt_iff_toNat_lt.mp hlt),
      Segment.next?_cursor_end r.segment (Nat.not_lt.mp hlt)]
    rfl

/-- A scan is one step and, unless the step ends it, a scan of what the step leaves. -/
theorem steps_eq_bind (r : Range) :
    r.steps = r.sizeHint >>= fun hint => r.next? >>= fun
      | none => .ok [(hint, none)]
      | some (item, rest) => ((hint, some item) :: ·) <$> rest.steps := by
  rw [steps]
  refine congrArg (r.sizeHint >>= ·) (funext fun hint => ?_)
  split
  · rename_i hnext
    rw [hnext]
    rfl
  · rename_i hnext
    rw [hnext]
    rfl
  · rename_i item rest hnext
    rw [hnext]
    rfl

/-- **A scan comes to its end without a fault.** -/
theorem Within.steps_eq {r : Range} (hr : r.Within)
    (hfits : r.segment.image.size < Word.signBit) :
    r.steps = .ok (ItemStream.steps r.cursor) := by
  obtain ⟨found, hnext, hview⟩ := map_eq_ok_iff.mp (hr.next?_eq hfits)
  rw [steps_eq_bind, hr.sizeHint, hnext]
  match found, hnext with
  | none, _ => rw [ItemStream.steps_of_none hview.symm]; rfl
  | some (item, rest), hnext =>
    have hrest := (hr.next? hnext).steps_eq (by rw [(eq_of_next? hnext).2.1]; exact hfits)
    rw [ItemStream.steps_of_some hview.symm]
    change ((ItemStream.sizeHint r.cursor, some item) :: ·) <$> rest.steps = _
    rw [hrest]
    rfl
termination_by r.stop.toNat - r.pos.toNat
decreasing_by exact remaining_next?_lt hnext

end Range

/-- All slots of a segment. -/
def whole (segment : Segment) : Range := ⟨segment, 0, slotCount segment⟩

/-- The slot at an end of an interval; an open end is at the given slot. -/
def boundary (segment : Segment) (outermost : UInt64) : Option Bytes → Machine UInt64
  | none => return outermost
  | some key => Found.slot <$> search segment key

/-- The slots whose keys lie in an interval. -/
def range (segment : Segment) (interval : Interval) : Machine Range := do
  let start ← boundary segment 0 interval.lower
  let stop ← boundary segment (slotCount segment) interval.upper
  return ⟨segment, start, max stop start⟩

theorem boundary_eq (hfits : segment.image.size < Word.signBit) (outermost : UInt64)
    (bound : Option Bytes) :
    UInt64.toNat <$> boundary segment outermost bound =
      exact (segment.boundary outermost.toNat bound) := by
  cases bound with
  | none => rfl
  | some key =>
    rw [boundary, Segment.boundary, ← map_exact, ← search_eq hfits, Functor.map_map,
      Functor.map_map]
    refine congrArg (· <$> search segment key) (funext fun found => ?_)
    cases found <;> rfl

theorem toNat_max (a b : UInt64) : (max a b).toNat = max a.toNat b.toNat := by
  change (if a ≤ b then b else a).toNat = _
  split
  · rename_i h
    exact (Nat.max_eq_right (UInt64.le_iff_toNat_le.mp h)).symm
  · rename_i h
    exact (Nat.max_eq_left (Nat.le_of_not_le (mt UInt64.le_iff_toNat_le.mpr h))).symm

theorem range_eq (hfits : segment.image.size < Word.signBit) (interval : Interval) :
    Range.cursor <$> range segment interval = exact (segment.range interval) := by
  have hcount := toNat_slotCount hfits
  rw [range, Segment.range, Segment.slots, bind_assoc, map_bind]
  refine bind_exact (boundary_eq hfits 0 interval.lower) fun start _ => ?_
  have hstop := boundary_eq hfits (slotCount segment) interval.upper
  rw [hcount] at hstop
  rw [bind_assoc, map_bind]
  refine bind_exact hstop fun stop _ => ?_
  change exact (.ok (Segment.Cursor.mk segment start.toNat (max stop start).toNat)) = _
  rw [toNat_max]
  rfl

/-! ## What holds of every file -/

/-- Nothing goes wrong on a machine where the segment is read, and every reader tells what the reader
without limits tells. -/
structure Safe (segment : Segment) : Prop where
  entry : ∀ pos : UInt64, pos.toNat < segment.size →
    readEntry segment pos = exact (segment.readEntry pos.toNat)
  search : ∀ key, Found.position <$> search segment key = exact (segment.search key)
  lookup : ∀ key, lookup segment key = exact (segment.lookup key)
  range : ∀ interval, Range.cursor <$> range segment interval = exact (segment.range interval)
  rangeSteps : ∀ interval, (do (← Machine.range segment interval).steps) =
    exact (ItemStream.steps <$> segment.range interval)
  steps : (whole segment).steps = .ok (ItemStream.steps segment.cursor)
  items : List.filterMap (·.2) <$> (whole segment).steps = .ok segment.items

/-- The items of a segment are its slots in order: each of them if all can be read, else those up to
the first that cannot. -/
structure InOrder (segment : Segment) (items : List Item) : Prop where
  length_le : items.length ≤ segment.size
  getElem : ∀ (i : Nat) (h : i < items.length), items[i] = segment.readEntry i
  last : ∀ i e, items[i]? = some (.error e) → i + 1 = items.length
  all : (∀ e, .error e ∉ items) → items.length = segment.size

theorem within_of_range {interval : Interval} {r : Range}
    (h : segment.range interval = .ok r.cursor) : r.segment = segment ∧ r.Within := by
  obtain ⟨hsegment, hordered, hwithin⟩ := Segment.range_within h
  obtain rfl : r.segment = segment := hsegment
  exact ⟨rfl, hordered, hwithin⟩

theorem cursor_whole (hfits : segment.image.size < Word.signBit) :
    (whole segment).cursor = segment.cursor := by
  rw [Range.cursor, whole, Segment.cursor, toNat_slotCount hfits]
  rfl

/-- **A scan of the whole segment comes to its end without a fault.** -/
theorem steps_whole (hfits : segment.image.size < Word.signBit) :
    (whole segment).steps = .ok (ItemStream.steps segment.cursor) := by
  have hr : (whole segment).Within := ⟨Nat.zero_le _, Nat.le_of_eq (toNat_slotCount hfits)⟩
  rw [hr.steps_eq hfits, cursor_whole hfits]

theorem safe (hfits : segment.image.size < Word.signBit) : Safe segment where
  entry _ := readEntry_eq hfits
  search := search_eq hfits
  lookup := lookup_eq hfits
  range := range_eq hfits
  rangeSteps interval := by
    rw [← bind_pure_comp]
    refine bind_exact (range_eq hfits interval) fun r hrange => ?_
    obtain ⟨rfl, hr⟩ := within_of_range hrange
    rw [hr.steps_eq hfits]
    rfl
  steps := steps_whole hfits
  items := by
    rw [steps_whole hfits]
    exact congrArg Except.ok (ItemStream.filterMap_steps segment.cursor)

theorem inOrder_items (segment : Segment) : InOrder segment segment.items := by
  obtain ⟨count, hcount, hdrain, hreadable, hlast⟩ := segment.drain_cursor_eq 0 segment.size
  have hitems : segment.items = (List.range' 0 count).map segment.readEntry := hdrain
  have hlength : segment.items.length = count := by simp [hitems]
  have hslot : ∀ (i : Nat) (h : i < segment.items.length),
      segment.items[i] = segment.readEntry i := by simp [hitems]
  refine ⟨by omega, hslot, fun i e herror => ?_, fun hclean => ?_⟩
  · obtain ⟨hi, hread⟩ := List.getElem?_eq_some_iff.mp herror
    refine Nat.le_antisymm hi (Nat.le_of_not_lt fun hlt => ?_)
    obtain ⟨entry, hentry⟩ := hreadable i (hlength ▸ hlt)
    rw [Nat.zero_add, ← hslot i hi, hread] at hentry
    cases hentry
  · refine hlength.trans (Nat.le_antisymm hcount (Nat.le_of_not_lt fun hlt => ?_))
    obtain ⟨i, e, hend, hread⟩ := hlast hlt
    have hi : i < segment.items.length := by omega
    rw [Nat.zero_add, ← hslot i hi] at hread
    exact hclean e (hread ▸ List.getElem_mem hi)

/-- **Reading a file is safe, whatever its bytes are.**  A file is a segment exactly if its header is
there, says version zero and announces an index that lies in the file.  On a machine, the header is
then read, every search and every scan comes to its end without a sum, a difference or a product
that has no place in 64 bits and without bytes that are not there, and each tells what it tells
without limits; and the items of a scan are the slots in order, up to the first that cannot be
read. -/
theorem reads_any_file (image : Image) (hfits : image.size < Word.signBit) :
    (∀ count : Nat, (∃ header, Header.decode image = .ok header ∧ header.count = count) ↔
      Header.size ≤ image.size ∧ image.int? 0 = some 0 ∧
        image.int? Word.size = some (count : Int) ∧
          Header.size + Word.size * count ≤ image.size) ∧
    (fun header => ⟨header.1, header.2.toNat⟩) <$> readHeader image =
      exact (Header.decode image) ∧
    ∀ segment : Segment, segment.image = image → Safe segment ∧ InOrder segment segment.items := by
  refine ⟨fun count => ?_, readHeader_eq hfits, ?_⟩
  · constructor
    · rintro ⟨header, hdecode, rfl⟩
      obtain ⟨hversion, hcount, hend⟩ := Header.decode_eq_ok_iff.mp hdecode
      exact ⟨Nat.le_trans (Nat.le_add_right _ _) hend, hversion, hcount, hend⟩
    · rintro ⟨-, hversion, hcount, hend⟩
      exact ⟨⟨.v0, count⟩, Header.decode_eq_ok_iff.mpr ⟨hversion, hcount, hend⟩, rfl⟩
  · rintro segment rfl
    exact ⟨safe hfits, inOrder_items segment⟩

/-! ### A length that is too large

A file with one record, whose key is said to be as long as a signed number can say. -/

/-- The file. -/
def hugeKeyImage : Image :=
  (Header.encode ⟨.v0, 1⟩ ++ IndexSlot.encode 24 ++ Word.encode 9223372036854775807).toArray

/-- The segment in the file. -/
def hugeKeySegment : Segment := ⟨1, ["table"], hugeKeyImage, ⟨.v0, 1⟩, rfl⟩

theorem lookup_hugeKeySegment :
    hugeKeySegment.lookup [97] = .error (.corrupt (.invalidKeyLength 9223372036854775807)) := by
  have hread : hugeKeySegment.readKey 0 =
      .error (.corrupt (.invalidKeyLength 9223372036854775807)) := rfl
  have hsize : hugeKeySegment.size = 1 := rfl
  simp [Segment.lookup, Segment.search, Segment.searchBetween, hsize, hread, bind, Except.bind]

/-- The header is accepted.  The look-up ends with an error, not with a fault, and a scan yields the
error of the one slot. -/
theorem safe_hugeKeySegment :
    hugeKeyImage.size < Word.signBit ∧
      (∃ header, Header.decode hugeKeyImage = .ok header ∧ header.count = 1) ∧
      lookup hugeKeySegment [97] =
        exact (.error (.corrupt (.invalidKeyLength 9223372036854775807))) ∧
      hugeKeySegment.items.length ≤ 1 := by
  have hfits : hugeKeyImage.size < Word.signBit := by decide
  obtain ⟨hheader, -, hread⟩ := reads_any_file hugeKeyImage hfits
  obtain ⟨hsafe, horder⟩ := hread hugeKeySegment rfl
  refine ⟨hfits, (hheader 1).mpr ⟨by decide, rfl, rfl, by decide⟩, ?_, horder.length_le⟩
  rw [hsafe.lookup, lookup_hugeKeySegment]

end Machine

end LsmTree
