import LsmTree.Items

/-!
# Items/Live — a stream without its tombstones

A reader sees live entries only.  `Live` wraps a stream and skips its tombstones; errors pass.  What
comes out is the stream's items filtered (`Live.drain_eq`).  How many tombstones will be
skipped is not known beforehand, so the lower size hint is zero.
-/

namespace LsmTree

/-- A stream of which only the live entries and the errors are seen. -/
structure Live (σ : Type) where
  inner : σ

namespace Live

variable {σ : Type} [ItemStream σ]

open ItemStream

/-- The item is seen by a reader: it is an error, or an entry that is no tombstone. -/
def visible : Item → Bool
  | .ok entry => !entry.isTombstone
  | .error _ => true

/-- The next item that is not a tombstone. -/
def next? (s : σ) : Option (Item × σ) :=
  match _h : ItemStream.next? s with
  | none => none
  | some (item, t) => if visible item then some (item, t) else next? t
termination_by remaining s
decreasing_by exact remaining_lt _h

theorem remaining_next?_lt {s t : σ} {item : Item} (h : next? s = some (item, t)) :
    remaining t < remaining s := by
  fun_induction next? s with
  | case1 s hs => cases h
  | case2 s other u hs hv =>
    obtain ⟨_, rfl⟩ := Prod.mk.inj (Option.some.inj h)
    exact remaining_lt hs
  | case3 s other u hs hv ih => exact Nat.lt_trans (ih h) (remaining_lt hs)

instance : ItemStream (Live σ) where
  next? s := (next? s.inner).map fun (item, t) => (item, ⟨t⟩)
  sizeHint s := ⟨0, (sizeHint s.inner).upper⟩
  remaining s := remaining s.inner
  remaining_lt {s item t} h := by
    obtain ⟨⟨other, u⟩, hnext, heq⟩ := Option.map_eq_some_iff.mp h
    obtain ⟨_, rfl⟩ := Prod.mk.inj heq
    exact remaining_next?_lt hnext

theorem next?_of_none {s : σ} (h : ItemStream.next? s = none) : next? s = none := by
  unfold next?
  split <;> simp_all

theorem next?_of_visible {s t : σ} {item : Item} (h : ItemStream.next? s = some (item, t))
    (hv : visible item) : next? s = some (item, t) := by
  unfold next?
  split <;> simp_all

theorem next?_of_hidden {s t : σ} {item : Item} (h : ItemStream.next? s = some (item, t))
    (hv : visible item = false) : next? s = next? t := by
  conv => lhs; unfold next?
  split <;> simp_all

/-- **The live items are the items without the tombstones**, in the same order. -/
theorem drain_eq (s : σ) : drain (Live.mk s) = (drain s).filter visible := by
  match h : ItemStream.next? s with
  | none =>
    rw [drain_of_none h, List.filter_nil]
    exact drain_of_none (by simp [ItemStream.next?, next?_of_none h])
  | some (item, t) =>
    have ih := drain_eq t
    rw [drain_of_some h]
    cases hv : visible item with
    | true =>
      rw [List.filter_cons_of_pos hv, ← ih]
      exact drain_of_some (by simp [ItemStream.next?, next?_of_visible h hv])
    | false =>
      rw [List.filter_cons_of_neg (by simp [hv]), ← ih]
      exact drain_congr (by simp [ItemStream.next?, next?_of_hidden h hv])
termination_by remaining s
decreasing_by exact remaining_lt h

end Live

end LsmTree
