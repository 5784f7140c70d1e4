import LsmTree.Items.Live
import LsmTree.Proofs.Segment.Probes

/-!
# Proofs/Segment/Hints — what a scan says beforehand, and what comes

A cursor counts the slots that it has left, but it ends with the first that it cannot read.  So its
upper hint always holds, while its lower one holds if and only if all slots left but the last can be
read (`Segment.Cursor.hintHolds_iff`), at every point of a scan (`Segment.hintHolds_range_iff`).
Without the tombstones nothing is promised from below, and the hint holds over any file.
-/

namespace LsmTree

namespace ItemStream

variable {σ : Type} [ItemStream σ] {s : σ}

/-- What a stream says about the number of items to come is so, from below and from above. -/
structure HintHolds (s : σ) : Prop where
  lower : (sizeHint s).lower ≤ (drain s).length
  upper : ∃ bound, (sizeHint s).upper = some bound ∧ (drain s).length ≤ bound

/-- What holds of a stream, and after a step if it did before, holds after any number of items. -/
theorem take_of_step {P : σ → Prop}
    (hstep : ∀ {s item t}, P s → next? s = some (item, t) → P t) (h : P s) (n : Nat) :
    P (take n s).2 := by
  induction n generalizing s with
  | zero => exact h
  | succ n ih =>
    match hnext : next? s with
    | none => simpa [take, hnext] using h
    | some (item, t) => simpa [take, hnext] using ih (hstep h hnext)

end ItemStream

/-- **Skipping keeps an upper hint**, since no item is new. -/
theorem Live.hintHolds {σ : Type} [ItemStream σ] {s : σ} {bound : Nat}
    (hupper : (ItemStream.sizeHint s).upper = some bound)
    (hle : (ItemStream.drain s).length ≤ bound) : ItemStream.HintHolds (Live.mk s) where
  lower := Nat.zero_le _
  upper := ⟨bound, hupper, by
    rw [Live.drain_eq]
    exact Nat.le_trans (List.length_filter_le _ _) hle⟩

namespace Segment

open ItemStream

variable {segment : Segment}

namespace Cursor

variable {cursor after : Cursor} {item : Item}

/-- All slots left but the last can be read. -/
def Unbroken (cursor : Cursor) : Prop :=
  ∀ pos, cursor.pos ≤ pos → pos + 1 < cursor.stop →
    ∃ entry, cursor.segment.readEntry pos = .ok entry

/-- The cursor reads the same segment as the other, further on and up to the same slot. -/
structure Behind (after cursor : Cursor) : Prop where
  segment_eq : after.segment = cursor.segment
  stop_eq : after.stop = cursor.stop
  pos_le : cursor.pos ≤ after.pos

/-- A step goes to the next slot, or to the end. -/
theorem behind_of_next? (h : ItemStream.next? cursor = some (item, after)) :
    after.Behind cursor := by
  obtain ⟨segment, pos, stop⟩ := cursor
  rcases Nat.lt_or_ge pos stop with hlt | hge
  · cases hread : segment.readEntry pos with
    | ok entry =>
      rw [next?_cursor_ok hlt hread] at h
      obtain ⟨-, rfl⟩ := Prod.mk.inj (Option.some.inj h)
      exact ⟨rfl, rfl, Nat.le_succ pos⟩
    | error e =>
      rw [next?_cursor_error hlt hread] at h
      obtain ⟨-, rfl⟩ := Prod.mk.inj (Option.some.inj h)
      exact ⟨rfl, rfl, Nat.le_of_lt hlt⟩
  · rw [next?_cursor_end segment hge] at h
    cases h

theorem Behind.trans {first second third : Cursor} (h : first.Behind second)
    (h' : second.Behind third) : first.Behind third where
  segment_eq := h.segment_eq.trans h'.segment_eq
  stop_eq := h.stop_eq.trans h'.stop_eq
  pos_le := Nat.le_trans h'.pos_le h.pos_le

/-- **After any number of items** a cursor is further on in the same slots. -/
theorem behind_take (cursor : Cursor) (n : Nat) : (take n cursor).2.Behind cursor :=
  take_of_step (fun h hnext => (behind_of_next? hnext).trans h) ⟨rfl, rfl, Nat.le_refl _⟩ n

theorem Unbroken.of_behind (h : cursor.Unbroken) (hbehind : after.Behind cursor) :
    after.Unbroken := by
  intro pos hpos hstop
  rw [hbehind.segment_eq]
  exact h pos (Nat.le_trans hbehind.pos_le hpos) (hbehind.stop_eq ▸ hstop)

/-- A cursor's upper hint holds, whatever is in its slots. -/
theorem length_drain_le_upper (cursor : Cursor) :
    ∃ bound, (sizeHint cursor).upper = some bound ∧ (drain cursor).length ≤ bound :=
  ⟨_, rfl, length_drain_le cursor⟩

/-- **A cursor's hint holds if and only if all slots left but the last can be read.**  A last slot
that cannot be read yields its error in place of its entry. -/
theorem hintHolds_iff (cursor : Cursor) : HintHolds cursor ↔ cursor.Unbroken := by
  obtain ⟨segment, pos, stop⟩ := cursor
  obtain ⟨count, hcount, hdrain, hreadable, hlast⟩ := segment.drain_cursor_eq pos stop
  have hlength : (drain (⟨segment, pos, stop⟩ : Cursor)).length = count := by simp [hdrain]
  constructor
  · intro h other hother hstop
    have hlower : stop - pos ≤ count := hlength ▸ h.lower
    obtain ⟨i, rfl⟩ := Nat.exists_eq_add_of_le hother
    have hi : pos + i + 1 < stop := hstop
    exact hreadable i (by omega)
  · intro h
    have hlower : stop - pos ≤ count := by
      by_contra hlt
      obtain ⟨i, e, rfl, herror⟩ := hlast (by omega)
      have hi : pos + i + 1 < stop := by omega
      obtain ⟨entry, hread⟩ := h (pos + i) (Nat.le_add_right _ _) hi
      cases hread.symm.trans herror
    exact ⟨hlength ▸ hlower, length_drain_le_upper _⟩

end Cursor

/-- A range without ends is the whole segment. -/
theorem range_whole (segment : Segment) : segment.range ⟨none, none⟩ = .ok segment.cursor := by
  simp [range, slots, boundary, cursor, pure, Except.pure, bind, Except.bind]

/-- **What a range says beforehand.**  The segment may be in any file whose header can be read, and
the range may have any ends that are found.  After any number of items the lower hint holds if and
only if each slot still to be read but the last of the range can be read; at no point does the hint
fail if and only if this is so of the whole range.  The upper hint always holds, and what is seen of
the range without its tombstones, beginning at any point of it, never promises too much or too
little. -/
theorem hintHolds_range_iff {interval : Interval} {cursor : Cursor}
    (h : segment.range interval = .ok cursor) :
    (∀ n, HintHolds (take n cursor).2 ↔ ∀ pos, (take n cursor).2.pos ≤ pos →
      pos + 1 < cursor.stop → ∃ entry, segment.readEntry pos = .ok entry) ∧
    ((∀ n, HintHolds (take n cursor).2) ↔ ∀ pos, cursor.pos ≤ pos →
      pos + 1 < cursor.stop → ∃ entry, segment.readEntry pos = .ok entry) ∧
    (∀ n, ∃ bound, (sizeHint (take n cursor).2).upper = some bound ∧
      (drain (take n cursor).2).length ≤ bound) ∧
    ∀ n m, HintHolds (take m (Live.mk (take n cursor).2)).2 := by
  obtain ⟨rfl, -, -⟩ := range_within h
  have hbehind := cursor.behind_take
  refine ⟨fun n => ?_, ⟨fun hall => ?_, fun hwhole n => ?_⟩, fun n => ?_, fun n m => ?_⟩
  · rw [Cursor.hintHolds_iff, Cursor.Unbroken, (hbehind n).segment_eq, (hbehind n).stop_eq]
  · exact (Cursor.hintHolds_iff cursor).mp (hall 0)
  · exact (Cursor.hintHolds_iff _).mpr (Cursor.Unbroken.of_behind hwhole (hbehind n))
  · exact Cursor.length_drain_le_upper _
  · obtain ⟨bound, hupper, hle⟩ :=
      Cursor.length_drain_le_upper (take m (Live.mk (take n cursor).2)).2.inner
    exact Live.hintHolds hupper hle

/-! ### A slot that cannot be read, and one behind it

Three entries in a file, whose second slot points nowhere. -/

/-- The file. -/
def brokenImage : Image :=
  (Segment.encode [⟨[97], some [49]⟩, ⟨[98], some [49]⟩, ⟨[99], some [49]⟩]).setIfInBounds 24 0

/-- The segment in the file. -/
def brokenSegment : Segment := ⟨1, ["table"], brokenImage, ⟨.v0, 3⟩, rfl⟩

theorem readEntry_brokenSegment :
    brokenSegment.readEntry 1 = .error (.corrupt (.invalidOffset 0)) := by
  decide

/-- The cursor behind the first entry. -/
theorem take_brokenSegment :
    take 1 brokenSegment.cursor = ([.ok ⟨[97], some [49]⟩], ⟨brokenSegment, 1, 3⟩) := by
  rfl

/-- **A scan says that two items are to come, and one comes**: the error of the second slot. -/
theorem hint_promises_too_much :
    ∃ cursor, brokenSegment.range ⟨none, none⟩ = .ok cursor ∧
      (take 1 cursor).1 = [.ok ⟨[97], some [49]⟩] ∧
      sizeHint (take 1 cursor).2 = ⟨2, some 2⟩ ∧
      drain (take 1 cursor).2 = [.error (.corrupt (.invalidOffset 0))] := by
  refine ⟨_, range_whole brokenSegment, ?_⟩
  rw [take_brokenSegment]
  refine ⟨rfl, rfl, ?_⟩
  rw [drain_of_some (next?_cursor_error (by decide) readEntry_brokenSegment),
    drain_of_none (next?_cursor_end _ (Nat.le_refl _))]

/-- The hint fails in front of the slot that cannot be read, and holds behind it. -/
theorem hintHolds_brokenSegment :
    ∃ cursor, brokenSegment.range ⟨none, none⟩ = .ok cursor ∧
      ¬HintHolds (take 1 cursor).2 ∧ HintHolds (take 2 cursor).2 := by
  obtain ⟨hpoint, -⟩ := hintHolds_range_iff (range_whole brokenSegment)
  refine ⟨_, range_whole brokenSegment, fun h => ?_, (hpoint 2).mpr fun pos hpos hstop => ?_⟩
  · have hpos : (take 1 brokenSegment.cursor).2.pos = 1 := rfl
    obtain ⟨entry, hread⟩ := (hpoint 1).mp h 1 (Nat.le_of_eq hpos) (by decide)
    cases readEntry_brokenSegment.symm.trans hread
  · have hend : (take 2 brokenSegment.cursor).2.pos = brokenSegment.cursor.stop := rfl
    omega

end Segment

end LsmTree
