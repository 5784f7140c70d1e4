import LsmTree.Bytes

/-!
# Interval — half-open key ranges

A scan covers the keys of a half-open interval `[lower, upper)`, either end of which may be open.
A caller states each end as a `Bound`; inclusive and exclusive bounds both become half-open ends,
because the key after `k` is `k` followed by a zero byte.
-/

namespace LsmTree

/-- One end of a range of keys, as a caller states it. -/
inductive Bound where
  /-- the range does not end on this side -/
  | unbounded
  /-- the range ends here and holds the key -/
  | included (key : Bytes)
  /-- the range ends here and does not hold the key -/
  | excluded (key : Bytes)
  deriving DecidableEq

namespace Bound

/-- The least key at or above a lower bound, if there is a bound. -/
def toLower : Bound → Option Bytes
  | unbounded => none
  | included key => some key
  | excluded key => some key.successor

/-- The least key that an upper bound leaves out, if there is a bound. -/
def toUpper : Bound → Option Bytes
  | unbounded => none
  | included key => some key.successor
  | excluded key => some key

/-- The key is not cut off by the bound as a lower end. -/
def AtMost (bound : Bound) (key : Bytes) : Prop :=
  match bound with
  | unbounded => True
  | included k => k ≤ key
  | excluded k => k < key

/-- The key is not cut off by the bound as an upper end. -/
def AtLeast (bound : Bound) (key : Bytes) : Prop :=
  match bound with
  | unbounded => True
  | included k => key ≤ k
  | excluded k => key < k

instance (bound : Bound) (key : Bytes) : Decidable (bound.AtMost key) :=
  match bound with
  | unbounded => inferInstanceAs (Decidable True)
  | included k => inferInstanceAs (Decidable (k ≤ key))
  | excluded k => inferInstanceAs (Decidable (k < key))

instance (bound : Bound) (key : Bytes) : Decidable (bound.AtLeast key) :=
  match bound with
  | unbounded => inferInstanceAs (Decidable True)
  | included k => inferInstanceAs (Decidable (key ≤ k))
  | excluded k => inferInstanceAs (Decidable (key < k))

end Bound

/-- The keys from `lower` on, up to but without `upper`; a missing end is open. -/
structure Interval where
  lower : Option Bytes := none
  upper : Option Bytes := none
  deriving DecidableEq

namespace Interval

/-- The interval between two bounds. -/
def between (start stop : Bound) : Interval := ⟨start.toLower, stop.toUpper⟩

/-- Decides whether a key lies in the interval. -/
def contains (range : Interval) (key : Bytes) : Bool :=
  range.lower.all (fun k => decide (k ≤ key)) && range.upper.all (fun k => decide (key < k))

theorem contains_iff (range : Interval) (key : Bytes) :
    range.contains key ↔ (∀ k ∈ range.lower, k ≤ key) ∧ (∀ k ∈ range.upper, key < k) := by
  cases hl : range.lower <;> cases hu : range.upper <;> simp [contains, hl, hu]

/-- **A key lies in `between start stop` exactly when neither bound cuts it off.** -/
theorem contains_between_iff (start stop : Bound) (key : Bytes) :
    (between start stop).contains key ↔ start.AtMost key ∧ stop.AtLeast key := by
  have above : ∀ k : Bytes, k.successor ≤ key ↔ k < key := fun k => by
    rw [← Std.not_lt, Bytes.lt_successor_iff, Std.not_le]
  rw [contains_iff]
  cases start <;> cases stop <;>
    simp [between, Bound.toLower, Bound.toUpper, Bound.AtMost, Bound.AtLeast, above,
      Bytes.lt_successor_iff]

end Interval

end LsmTree
