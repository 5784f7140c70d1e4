import LsmTree.Memtable
import LsmTree.Proofs.Contents
import Mathlib.Data.List.Induction

/-!
# Proofs/Memtable — what a memtable holds after a sequence of inserts

However often keys are inserted again, a memtable holds for every key the entry that was inserted
last (`Memtable.newest_ofEntries`).  Its size counts everything that was inserted, in 64 bits
(`Memtable.byteSize_ofEntries`), so as long as they do not overflow it is not less than what is held
(`Memtable.totalSize_entries_le`).
-/

namespace LsmTree

namespace Entry

/-- The bytes of user data in some entries. -/
def totalSize : List Entry → Nat
  | [] => 0
  | entry :: rest => entry.byteSize + totalSize rest

@[simp] theorem totalSize_nil : totalSize [] = 0 := rfl

@[simp] theorem totalSize_concat (es : List Entry) (entry : Entry) :
    totalSize (es ++ [entry]) = totalSize es + entry.byteSize := by
  induction es with
  | nil => simp [totalSize]
  | cons e rest ih => simp [totalSize, ih, Nat.add_assoc]

theorem totalSize_eq_of_perm {es fs : List Entry} (h : es.Perm fs) : totalSize es = totalSize fs := by
  induction h with
  | nil => rfl
  | cons e _ ih => exact congrArg (e.byteSize + ·) ih
  | swap e other rest => exact Nat.add_left_comm _ _ _
  | trans _ _ ih ih' => exact ih.trans ih'

/-- **Fewer entries are not larger.** -/
theorem totalSize_le_of_subperm {es fs : List Entry} (h : es.Subperm fs) :
    totalSize es ≤ totalSize fs := by
  obtain ⟨others, hperm, hsub⟩ := h
  rw [← totalSize_eq_of_perm hperm]
  clear hperm
  induction hsub with
  | slnil => exact Nat.le_refl _
  | cons e _ ih => exact Nat.le_trans ih (Nat.le_add_left _ _)
  | cons_cons e _ ih => exact Nat.add_le_add_left ih _

end Entry

namespace Memtable

variable {es : List Entry}

theorem first?_entries (table : Memtable) (key : Bytes) :
    Entry.first? key table.entries = table.lookup key := by
  cases hlookup : table.lookup key with
  | none =>
    refine Entry.first?_eq_none_iff.mpr fun entry hentry hkey => ?_
    rw [mem_entries_iff, hkey, hlookup] at hentry
    cases hentry
  | some entry =>
    have hkey : entry.key = key := by
      obtain ⟨value, -, rfl⟩ := Option.map_eq_some_iff.mp hlookup
      rfl
    refine (Entry.Ascending.first?_eq_some_iff table.pairwise_entries).mpr ⟨?_, hkey⟩
    rw [mem_entries_iff, hkey, hlookup]

@[simp] theorem entries_empty : ({} : Memtable).entries = [] := rfl

theorem size_eq_length (table : Memtable) : table.size = table.entries.length := by
  rw [size, entries, List.length_map, Std.TreeMap.length_toList]

/-! ## A sequence of inserts -/

theorem ofEntries_concat (es : List Entry) (entry : Entry) :
    ofEntries (es ++ [entry]) = (ofEntries es).insert entry := by
  rw [ofEntries, ofEntries, List.foldl_concat]

/-- **The entry inserted last under a key is its entry.** -/
theorem lookup_ofEntries (es : List Entry) (key : Bytes) :
    (ofEntries es).lookup key = Entry.first? key es.reverse := by
  induction es using List.reverseRecOn with
  | nil => rfl
  | append_singleton es entry ih =>
    rw [ofEntries_concat, lookup_insert, List.reverse_concat, Entry.first?_cons, ih]

/-- **The entries are the last one inserted under every key**, in key order. -/
theorem newest_ofEntries (es : List Entry) : Entry.Newest es.reverse (ofEntries es).entries where
  ascending := pairwise_entries _
  first?_eq key := by rw [first?_entries, lookup_ofEntries]

/-- **The size counts every insert**, also of a key that was there. -/
theorem byteSize_ofEntries (es : List Entry) :
    (ofEntries es).byteSize = .ofNat (Entry.totalSize es) := by
  induction es using List.reverseRecOn with
  | nil => rfl
  | append_singleton es entry ih =>
    rw [ofEntries_concat, Entry.totalSize_concat, UInt64.ofNat_add, ← ih]
    rfl

theorem toNat_byteSize_ofEntries (h : Entry.totalSize es < UInt64.size) :
    (ofEntries es).byteSize.toNat = Entry.totalSize es := by
  rw [byteSize_ofEntries, UInt64.toNat_ofNat_of_lt' h]

/-- **What is held is not larger than what was inserted.** -/
theorem totalSize_entries_le (es : List Entry) :
    Entry.totalSize (ofEntries es).entries ≤ Entry.totalSize es :=
  Entry.totalSize_le_of_subperm ((newest_ofEntries es).subperm.trans es.reverse_perm.subperm)

/-- Something inserted is something there, whatever its size. -/
theorem entries_ofEntries_eq_nil_iff : (ofEntries es).entries = [] ↔ es = [] := by
  refine ⟨fun h => ?_, by rintro rfl; rfl⟩
  have hnone : ∀ entry ∈ es.reverse, False := fun entry hentry => by
    have hfirst := (newest_ofEntries es).first?_eq entry.key
    rw [h, Entry.first?_nil, eq_comm, Entry.first?_eq_none_iff] at hfirst
    exact hfirst entry hentry rfl
  exact List.reverse_eq_nil_iff.mp (List.eq_nil_iff_forall_not_mem.mpr hnone)

theorem isEmpty_ofEntries : (ofEntries es).isEmpty = true ↔ es = [] :=
  entries_eq_nil_iff.symm.trans entries_ofEntries_eq_nil_iff

end Memtable

end LsmTree
