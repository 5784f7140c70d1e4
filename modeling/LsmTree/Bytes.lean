import Std.Data.TreeMap

/-!
# Bytes — strings of bytes in key order

Keys and values are strings of bytes.  Keys are ordered byte by byte, a proper prefix first; the
order `compare` computes is the one `<` speaks about (`Bytes.compare_eq_lt_iff`).  The least key
above `key` is `Bytes.successor key` (`Bytes.lt_successor_iff`).
-/

namespace LsmTree

/-- A string of bytes: a key, a value, or a piece of an encoded file. -/
abbrev Bytes := List UInt8

namespace Bytes

/-! ## The key order -/

/-- **The order that is computed is the order that is meant.** -/
theorem compare_eq_lt_iff (a b : Bytes) : compare a b = .lt ↔ a < b := by
  induction a generalizing b with
  | nil => cases b <;> simp [compare, List.compareLex]
  | cons x xs ih =>
    cases b with
    | nil => simp [compare, List.compareLex]
    | cons y ys =>
      rw [List.cons_lt_cons_iff, ← ih ys, List.compare_cons_cons, Ordering.then_eq_lt,
        Std.compare_eq_lt, Std.compare_eq_iff_eq]

theorem compare_eq_eq_iff (a b : Bytes) : compare a b = .eq ↔ a = b :=
  Std.compare_eq_iff_eq

theorem compare_eq_gt_iff (a b : Bytes) : compare a b = .gt ↔ b < a := by
  rw [← compare_eq_lt_iff, Std.OrientedCmp.gt_iff_lt]

/-! ## The next key -/

/-- The least byte string above `key`: the key with a zero byte appended. -/
def successor (key : Bytes) : Bytes := key ++ [0]

/-- **No key lies strictly between a key and its successor.** -/
theorem lt_successor_iff (a key : Bytes) : a < successor key ↔ a ≤ key := by
  induction key generalizing a with
  | nil =>
    cases a with
    | nil => simp [successor]
    | cons x xs =>
      have : ¬ x < 0 := by simp [UInt8.lt_iff_toNat_lt]
      simp [successor, List.cons_lt_cons_iff, this]
  | cons y ys ih =>
    cases a with
    | nil => simp [successor]
    | cons x xs =>
      have h : (xs < successor ys) ↔ (xs ≤ ys) := ih xs
      simp only [successor, List.cons_append] at h ⊢
      rw [List.cons_lt_cons_iff, List.cons_le_cons_iff, h]

end Bytes

end LsmTree
