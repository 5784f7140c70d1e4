import LsmTree.Proofs.Items.Damage
import LsmTree.Proofs.SegmentSet

/-!
# Proofs/Segment/Damage — segments with slots that cannot be read

A damaged segment has as many slots as the whole one, and what can be read of them is what it was
(`Segment.Damaged`).  A search probes the same slots in both, so it comes to the same place or to a
slot that cannot be read; a look-up therefore finds the same entry or an error
(`Segment.Damaged.lookup`), and the items of an interval are the same up to the first error
(`Segment.Damaged.itemsIn`).
-/

namespace LsmTree

/-! ## Reading bytes fails on damage only -/

/-- Whatever goes wrong, the file is damaged. -/
def OnlyCorrupt {α : Type} (found : Except Error α) : Prop :=
  ∀ e, found = .error e → ∃ cause, e = .corrupt cause

namespace OnlyCorrupt

variable {α β : Type} {found : Except Error α}

theorem ok (a : α) : OnlyCorrupt (.ok a) := fun _ h => nomatch h

theorem corrupt (cause : Corruption) : OnlyCorrupt (α := α) (.error (.corrupt cause)) := by
  rintro _ ⟨⟩
  exact ⟨cause, rfl⟩

theorem bind {f : α → Except Error β} (h : OnlyCorrupt found) (hnext : ∀ a, OnlyCorrupt (f a)) :
    OnlyCorrupt (found >>= f) := by
  cases found with
  | error e =>
    obtain ⟨cause, rfl⟩ := h e rfl
    exact corrupt cause
  | ok a => exact hnext a

theorem map (f : α → β) (h : OnlyCorrupt found) : OnlyCorrupt (f <$> found) := by
  cases found with
  | error e =>
    obtain ⟨cause, rfl⟩ := h e rfl
    exact corrupt cause
  | ok a => exact ok (f a)

/-- A value that is known to be right unless it cannot be read. -/
theorem honest (h : OnlyCorrupt found) {told : Except Error α}
    (hfound : found = told ∨ ∃ e, found = .error e) : Honest found told := by
  rcases hfound with heq | ⟨e, rfl⟩
  · exact .inl heq
  · obtain ⟨cause, rfl⟩ := h e rfl
    exact .inr ⟨cause, rfl⟩

end OnlyCorrupt

theorem IndexSlot.onlyCorrupt_decode (image : Image) (pos : Nat) :
    OnlyCorrupt (IndexSlot.decode image pos) := by
  unfold IndexSlot.decode
  split
  · exact .corrupt _
  · split
    · exact .ok _
    · exact .corrupt _

namespace Record

theorem onlyCorrupt_keyField (image : Image) (offset : Nat) :
    OnlyCorrupt (keyField image offset) := by
  unfold keyField
  split
  · exact .corrupt _
  · split
    · split
      · exact .ok _
      · exact .corrupt _
    · exact .corrupt _

theorem onlyCorrupt_valueField (image : Image) (pos : Nat) :
    OnlyCorrupt (valueField image pos) := by
  unfold valueField
  split
  · exact .corrupt _
  · split
    · exact .ok _
    · split
      · split
        · exact .ok _
        · exact .corrupt _
      · exact .corrupt _

end Record

namespace Segment

variable {damaged whole : Segment} {es : List Entry}

theorem onlyCorrupt_readEntry (segment : Segment) (pos : Nat) :
    OnlyCorrupt (segment.readEntry pos) :=
  (IndexSlot.onlyCorrupt_decode _ _).bind fun _ =>
    (Record.onlyCorrupt_keyField _ _).bind fun _ =>
      (Record.onlyCorrupt_valueField _ _).bind fun _ => .ok _

theorem onlyCorrupt_readKey (segment : Segment) (pos : Nat) : OnlyCorrupt (segment.readKey pos) :=
  (IndexSlot.onlyCorrupt_decode _ _).bind fun _ => (Record.onlyCorrupt_keyField _ _).map _

/-! ## Damage -/

/-- The segment has the slots of the whole one.  Each of them still holds its entry or cannot be
read; its key alone may still be readable. -/
structure Damaged (damaged whole : Segment) : Prop where
  size_eq : damaged.size = whole.size
  slot : ∀ pos < whole.size, damaged.readEntry pos = whole.readEntry pos ∨
    (∃ e, damaged.readEntry pos = .error e) ∧
      (damaged.readKey pos = whole.readKey pos ∨ ∃ e, damaged.readKey pos = .error e)

theorem Damaged.refl (segment : Segment) : segment.Damaged segment := ⟨rfl, fun _ _ => .inl rfl⟩

theorem Damaged.readEntry (h : damaged.Damaged whole) {pos : Nat} (hpos : pos < whole.size) :
    Honest (damaged.readEntry pos) (whole.readEntry pos) :=
  (onlyCorrupt_readEntry damaged pos).honest ((h.slot pos hpos).imp_right And.left)

/-- The key of a slot is right, or it cannot be read. -/
theorem Damaged.readKey (h : damaged.Damaged whole) (hwhole : whole.Holds es) {pos : Nat}
    (hpos : pos < es.length) : Honest (damaged.readKey pos) (whole.readKey pos) := by
  refine (onlyCorrupt_readKey damaged pos).honest ?_
  rcases h.slot pos (hwhole.size_eq ▸ hpos) with hentry | ⟨-, hkey⟩
  · -- a slot whose entry can be read has the key of that entry
    rw [hwhole.read pos hpos] at hentry
    exact .inl ((readKey_of_readEntry hentry).trans (hwhole.readKey pos hpos).symm)
  · exact hkey

/-- **A search probes the same slots.** -/
theorem Damaged.searchBetween (h : damaged.Damaged whole) (hwhole : whole.Holds es) (key : Bytes)
    (low high : Nat) (hhigh : high ≤ es.length) :
    Honest (damaged.searchBetween key low high) (whole.searchBetween key low high) := by
  unfold Segment.searchBetween
  by_cases hlt : low < high
  · rw [if_pos hlt, if_pos hlt]
    have hmid : low + (high - low) / 2 < es.length := by omega
    rcases h.readKey hwhole hmid with hkey | ⟨cause, hkey⟩
    · simp only [hkey, hwhole.readKey _ hmid]
      cases compare es[low + (high - low) / 2].key key with
      | lt => exact h.searchBetween hwhole key _ _ hhigh
      | eq => exact .refl _
      | gt => exact h.searchBetween hwhole key _ _ (by omega)
    · simp only [hkey]
      exact .inr ⟨cause, rfl⟩
  · rw [if_neg hlt, if_neg hlt]
    exact .refl _
termination_by high - low

/-- **A search comes to the same place or to a slot that cannot be read.** -/
theorem Damaged.search (h : damaged.Damaged whole) (hwhole : whole.Holds es) (key : Bytes) :
    Honest (damaged.search key) (whole.search key) := by
  rw [Segment.search, Segment.search, h.size_eq]
  exact h.searchBetween hwhole key 0 whole.size (Nat.le_of_eq hwhole.size_eq)

/-- **A look-up finds the entry of the key or an error.** -/
theorem Damaged.lookup (h : damaged.Damaged whole) (hwhole : whole.Holds es) (key : Bytes) :
    Honest (damaged.lookup key) (whole.lookup key) := by
  refine (h.search hwhole key).bind fun position hposition => ?_
  cases position with
  | hit pos =>
    obtain ⟨hpos, -⟩ := (hwhole.search_hit_iff key pos).mp hposition
    exact (h.readEntry (hwhole.size_eq ▸ hpos)).map some
  | miss pos => exact .refl _

/-! ## Intervals -/

theorem Damaged.boundary (h : damaged.Damaged whole) (hwhole : whole.Holds es) (outermost : Nat) :
    ∀ bound, Honest (damaged.boundary outermost bound) (whole.boundary outermost bound)
  | none => .refl _
  | some key => (h.search hwhole key).map Position.slot

theorem Damaged.slots (h : damaged.Damaged whole) (hwhole : whole.Holds es)
    (lower upper : Option Bytes) :
    Honest (damaged.slots lower upper) (whole.slots lower upper) := by
  unfold Segment.slots
  rw [h.size_eq]
  exact (h.boundary hwhole 0 lower).bind fun _ _ =>
    (h.boundary hwhole whole.size upper).bind fun _ _ => .refl _

/-- Slots are read up to the first that cannot be. -/
theorem Damaged.drain_cursor (h : damaged.Damaged whole) (hwhole : whole.Holds es) (pos stop : Nat)
    (hstop : stop ≤ es.length) :
    Item.Tells (ItemStream.drain (⟨damaged, pos, stop⟩ : Cursor))
      ((es.drop pos).take (stop - pos)) := by
  rcases Nat.lt_or_ge pos stop with hlt | hge
  · have hpos : pos < es.length := Nat.lt_of_lt_of_le hlt hstop
    have hcount : stop - pos = (stop - (pos + 1)) + 1 := by omega
    have hentry := h.readEntry (hwhole.size_eq ▸ hpos)
    rw [hwhole.read pos hpos] at hentry
    rw [List.drop_eq_getElem_cons hpos, hcount, List.take_succ_cons]
    rcases hentry with hentry | ⟨cause, hentry⟩
    · rw [ItemStream.drain_of_some (next?_cursor_ok hlt hentry)]
      exact .entry _ (h.drain_cursor hwhole (pos + 1) stop hstop)
    · rw [ItemStream.drain_of_some (next?_cursor_error hlt hentry)]
      exact .lost cause _ _
  · rw [ItemStream.drain_of_none (next?_cursor_end damaged hge), Nat.sub_eq_zero_of_le hge,
      List.take_zero]
    exact .done
termination_by stop - pos

/-- **The items of an interval are its entries, up to the first error.** -/
theorem Damaged.itemsIn (h : damaged.Damaged whole) (hwhole : whole.Holds es)
    (interval : Interval) :
    Item.Tells (damaged.itemsIn interval)
      (es.filter fun entry => interval.contains entry.key) := by
  obtain ⟨start, stop, hslots, hle, hcontains⟩ := hwhole.slots interval
  rcases h.slots hwhole interval.lower interval.upper with hfound | ⟨cause, hfound⟩
  · have hrange : damaged.range interval = .ok ⟨damaged, start, max stop start⟩ := by
      simp [Segment.range, hfound, hslots, bind, Except.bind, pure, Except.pure]
    have hwidth : max stop start - start = stop - start := by omega
    have hdrain := h.drain_cursor hwhole start (max stop start) hle
    rw [hwidth, take_drop_eq_filter (fun entry => interval.contains entry.key) es start stop
      hcontains] at hdrain
    simpa only [Segment.itemsIn, hrange] using hdrain
  · have hrange : damaged.range interval = .error (.corrupt cause) := by
      simp [Segment.range, hfound, bind, Except.bind]
    simp only [Segment.itemsIn, hrange]
    exact .lost cause _ _

end Segment

/-! ## Sets -/

namespace SegmentSet

/-- Every segment of the set is a damaged one of the whole set, or still whole. -/
def Damaged (damaged whole : SegmentSet) : Prop :=
  List.Forall₂ Segment.Damaged damaged.segments whole.segments

/-- **A look-up finds the newest entry of the key or an error**: a segment that cannot be searched is
not passed over. -/
theorem lookupIn_damaged {damaged whole : List Segment} (key : Bytes)
    (h : List.Forall₂ Segment.Damaged damaged whole) (hwhole : ∀ s ∈ whole, s.Intact) :
    Honest (lookupIn key damaged) (lookupIn key whole) := by
  induction h with
  | nil => exact .refl _
  | @cons segment wholeSegment damaged whole hsegment _ ih =>
    have holds := (hwhole _ List.mem_cons_self).holds
    have hrest := ih fun s hs => hwhole s (List.mem_cons_of_mem _ hs)
    rcases hsegment.lookup holds key with hfound | ⟨cause, hfound⟩
    · simp only [lookupIn, hfound]
      split
      · exact .refl _
      · exact .refl _
      · exact hrest
    · simp only [lookupIn, hfound]
      exact .inr ⟨cause, rfl⟩

/-- The segments of the set tell the entries of the whole ones. -/
theorem itemsIn_damaged {damaged whole : List Segment} (interval : Interval)
    (h : List.Forall₂ Segment.Damaged damaged whole) (hwhole : ∀ s ∈ whole, s.Intact) :
    List.Forall₂ Item.Tells (damaged.map fun s => s.itemsIn interval)
      (whole.map fun s => s.entries.filter fun entry => interval.contains entry.key) := by
  induction h with
  | nil => exact .nil
  | cons hsegment _ ih =>
    have hrest := ih fun s hs => hwhole s (List.mem_cons_of_mem _ hs)
    exact .cons (hsegment.itemsIn (hwhole _ List.mem_cons_self).holds interval) hrest

end SegmentSet

end LsmTree
