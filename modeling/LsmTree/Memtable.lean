import Std.Data.TreeMap
import LsmTree.Entry
import LsmTree.Interval

/-!
# Memtable — entries in memory, in key order

New entries go into a memtable.  It holds the last entry written under each key, and counts the
bytes of everything that was ever inserted: a rewritten key is counted again, so the size says how
much was written.  It is a number of 64 bits, and counting goes on from zero where they overflow.
-/

namespace LsmTree

/-- Entries in key order and the bytes inserted so far. -/
structure Memtable where
  items : Std.TreeMap Bytes (Option Bytes) := {}
  byteSize : UInt64 := 0

namespace Memtable

/-- Writes an entry over the one of the same key. -/
def insert (table : Memtable) (entry : Entry) : Memtable :=
  ⟨table.items.insert entry.key entry.value, table.byteSize + .ofNat entry.byteSize⟩

/-- The memtable after a sequence of inserts. -/
def ofEntries (entries : List Entry) : Memtable := entries.foldl insert {}

/-- The entry of a key, a tombstone included. -/
def lookup (table : Memtable) (key : Bytes) : Option Entry := (table.items[key]?).map (⟨key, ·⟩)

/-- The entries in key order. -/
def entries (table : Memtable) : List Entry :=
  table.items.toList.map fun (key, value) => ⟨key, value⟩

/-- Where a scan ends: at the upper end, or at the lower one if that is not below it. -/
def stopOf (interval : Interval) : Option Bytes :=
  match interval.lower, interval.upper with
  | some lower, some upper => some (if upper ≤ lower then lower else upper)
  | _, upper => upper

/-- The entries whose keys lie in an interval: from the first at or above the lower end on, as long
as they are below the stop. -/
def entriesIn (table : Memtable) (interval : Interval) : List Entry :=
  (table.entries.dropWhile fun entry => interval.lower.any (entry.key < ·)).takeWhile fun entry =>
    (stopOf interval).all (entry.key < ·)

/-- The entries of an interval that lie behind a key. -/
def entriesBehind (table : Memtable) (interval : Interval) (key : Bytes) : List Entry :=
  (table.entriesIn interval).dropWhile (·.key ≤ key)

/-- The number of keys. -/
def size (table : Memtable) : Nat := table.items.size

/-- There is no entry. -/
def isEmpty (table : Memtable) : Bool := table.items.isEmpty

/-- **The entry inserted last is the one found.** -/
theorem lookup_insert (table : Memtable) (entry : Entry) (key : Bytes) :
    (table.insert entry).lookup key =
      if entry.key = key then some entry else table.lookup key := by
  unfold lookup insert
  rw [Std.TreeMap.getElem?_insert]
  simp only [Std.compare_eq_iff_eq]
  split
  · rename_i h
    simp [← h]
  · rfl

/-- The entries are in strictly ascending key order. -/
theorem pairwise_entries (table : Memtable) :
    table.entries.Pairwise (fun a b => a.key < b.key) := by
  unfold entries
  rw [List.pairwise_map]
  exact Std.TreeMap.ordered_keys_toList.imp fun h => (Bytes.compare_eq_lt_iff _ _).mp h

/-- **The entries are those that are found.** -/
theorem mem_entries_iff (table : Memtable) (entry : Entry) :
    entry ∈ table.entries ↔ table.lookup entry.key = some entry := by
  obtain ⟨key, value⟩ := entry
  unfold entries lookup
  simp only [List.mem_map, Option.map_eq_some_iff, Entry.mk.injEq, true_and]
  constructor
  · rintro ⟨⟨k, v⟩, hmem, rfl, rfl⟩
    exact ⟨v, Std.TreeMap.mem_toList_iff_getElem?_eq_some.mp hmem, rfl⟩
  · rintro ⟨v, hget, rfl⟩
    exact ⟨(key, v), Std.TreeMap.mem_toList_iff_getElem?_eq_some.mpr hget, rfl, rfl⟩

theorem entries_eq_nil_iff {table : Memtable} : table.entries = [] ↔ table.isEmpty = true := by
  rw [entries, List.map_eq_nil_iff, ← List.isEmpty_iff, Std.TreeMap.isEmpty_toList, isEmpty]

/-! ## Scans of an interval -/

/-- Where a test that once fails goes on failing, a list can be cut instead of searched. -/
theorem takeWhile_eq_filter {p : Entry → Bool} {es : List Entry}
    (h : es.Pairwise fun a b => p b → p a) : es.takeWhile p = es.filter p := by
  induction es with
  | nil => rfl
  | cons e rest ih =>
    obtain ⟨hlater, hrest⟩ := List.pairwise_cons.mp h
    cases he : p e with
    | true => rw [List.takeWhile_cons_of_pos he, List.filter_cons_of_pos he, ih hrest]
    | false =>
      rw [List.takeWhile_cons_of_neg (by simp [he]), List.filter_cons_of_neg (by simp [he])]
      refine (List.filter_eq_nil_iff.mpr fun other hother hp => ?_).symm
      simp [hlater other hother hp] at he

theorem dropWhile_eq_filter {p : Entry → Bool} {es : List Entry}
    (h : es.Pairwise fun a b => p b → p a) : es.dropWhile p = es.filter fun e => !p e := by
  induction es with
  | nil => rfl
  | cons e rest ih =>
    obtain ⟨hlater, hrest⟩ := List.pairwise_cons.mp h
    cases he : p e with
    | true =>
      rw [List.dropWhile_cons_of_pos he, List.filter_cons_of_neg (by simp [he]), ih hrest]
    | false =>
      rw [List.dropWhile_cons_of_neg (by simp [he]), List.filter_cons_of_pos (by simp [he])]
      refine congrArg _ (List.filter_eq_self.mpr fun other hother => ?_).symm
      have hnot : ¬p other = true := fun hp => by simp [hlater other hother hp] at he
      simpa using hnot

/-- Moving the upper end up to the lower one leaves an empty interval empty. -/
theorem contains_iff_stopOf (interval : Interval) (key : Bytes) :
    interval.contains key ↔ interval.lower.any (key < ·) = false ∧
      (stopOf interval).all (key < ·) = true := by
  obtain ⟨_ | lower, _ | upper⟩ := interval
  · simp [Interval.contains, stopOf]
  · simp [Interval.contains, stopOf]
  · simp [Interval.contains, stopOf]
  · by_cases hle : upper ≤ lower
    · simp only [Interval.contains, stopOf, if_pos hle]
      simp only [Option.all_some, Option.any_some, Bool.and_eq_true, decide_eq_true_eq,
        decide_eq_false_iff_not, Std.not_lt, and_congr_right_iff]
      -- no key at or above the lower end is below either stop
      intro hlower
      exact iff_of_false (Std.not_lt.mpr (Std.le_trans hle hlower)) (Std.not_lt.mpr hlower)
    · simp [Interval.contains, stopOf, hle]

/-- **A scan yields the entries whose keys lie in its interval**, inverted intervals included. -/
theorem entriesIn_eq_filter (table : Memtable) (interval : Interval) :
    table.entriesIn interval = table.entries.filter fun entry => interval.contains entry.key := by
  have hlower : table.entries.Pairwise fun a b =>
      interval.lower.any (b.key < ·) → interval.lower.any (a.key < ·) :=
    table.pairwise_entries.imp fun {a b} hlt => by
      cases interval.lower with
      | none => exact id
      | some lower => simpa using Std.lt_trans hlt
  have hupper : table.entries.Pairwise fun a b =>
      (stopOf interval).all (b.key < ·) → (stopOf interval).all (a.key < ·) :=
    table.pairwise_entries.imp fun {a b} hlt => by
      cases stopOf interval with
      | none => exact id
      | some stop => simpa using Std.lt_trans hlt
  rw [entriesIn, dropWhile_eq_filter hlower, takeWhile_eq_filter (hupper.filter _),
    List.filter_filter]
  refine List.filter_congr fun entry _ => Bool.eq_iff_iff.mpr ?_
  rw [contains_iff_stopOf, Bool.and_eq_true, Bool.not_eq_true', and_comm]

end Memtable

end LsmTree
