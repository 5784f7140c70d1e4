import LsmTree.Proofs.Store.Owned

/-!
# Proofs/Store/Flushed — how far the writing of memtables comes

Memtables are written oldest first, up to the first that cannot be.  Where the folder stores known
segments, those that were written are the newest segments now, and **the entries in memory and on
disk together are what they were** (`Store.Flushed.Lands.entries_eq`), however far it came.
-/

namespace LsmTree.Store

open FileSystem

variable {store : Store} {fs : FileSystem} {place : Place} {segments : List Segment}
  {tables newer : List Memtable} {flushed : Flushed}

/-! ## Stopping and going on -/

/-- **Writing stops where it stops in the first of two parts**, or goes on with the second. -/
theorem flushAll_append (store : Store) (fs : FileSystem) (tables newer : List Memtable) :
    store.flushAll fs (tables ++ newer) =
      let first := store.flushAll fs tables
      match first.result with
      | .error _ => { first with unwritten := first.unwritten ++ newer }
      | .ok () =>
        let rest := first.store.flushAll first.files newer
        { rest with written := first.written ++ rest.written } := by
  induction tables generalizing store fs with
  | nil => rfl
  | cons table others ih =>
    rcases hsave : store.flush table fs with ⟨e | saved, next, files⟩
    · simp [flushAll, hsave]
    · simp only [List.cons_append, flushAll, hsave, ih]
      cases (next.flushAll files others).result with
      | error e => rfl
      | ok _ => simp

/-! ## What is on disk afterwards -/

/-- The oldest memtables have become segments in front of the others, one for each that had
entries; the other memtables are left, and the first of these could not be written. -/
structure Flushed.Lands (flushed : Flushed) (store : Store) (fs : FileSystem) (place : Place)
    (segments : List Segment) (tables : List Memtable) : Prop where
  folder_eq : flushed.store.folder = store.folder
  within : flushed.files.Within fs
  keeps : Keeps flushed.files fs place
  stores : flushed.files.Stores store.folder place (flushed.written.reverse ++ segments)
  below : ∀ s ∈ flushed.written.reverse ++ segments, s.priority < flushed.store.counter.next
  parts : ∃ done, tables = done ++ flushed.unwritten ∧
    flushed.written.map Segment.entries =
      (done.filter fun table => !table.isEmpty).map Memtable.entries
  stopped : flushed.result.isOk = false →
    ∃ table newer, flushed.unwritten = table :: newer ∧ table.isEmpty = false

/-- A memtable without entries is passed over. -/
theorem flushAll_cons_empty {table : Memtable} (h : table.isEmpty = true) :
    store.flushAll fs (table :: newer) = store.flushAll fs newer := by
  have hsave : store.flush table fs = (.ok none, store, fs) := by
    rw [flush, Memtable.entries_eq_nil_iff.mpr h, save_nil]
  simp [flushAll, hsave]

theorem Flushed.Lands.cons_empty {table : Memtable}
    (h : flushed.Lands store fs place segments newer) (hempty : table.isEmpty = true) :
    flushed.Lands store fs place segments (table :: newer) where
  folder_eq := h.folder_eq
  within := h.within
  keeps := h.keeps
  stores := h.stores
  below := h.below
  parts := by
    obtain ⟨done, hdone, hwritten⟩ := h.parts
    refine ⟨table :: done, by rw [List.cons_append, ← hdone], ?_⟩
    rw [hwritten, List.filter_cons_of_neg (by simp [hempty])]
  stopped := h.stopped

/-- A memtable that was saved is the first of those that have become segments. -/
theorem Flushed.Lands.cons_saved {table : Memtable} {files : FileSystem}
    (htable : Segment.Table table.entries) (hbeside : Beside files fs place)
    (h : flushed.Lands store.advance files place (store.savedOf htable :: segments) newer)
    (hempty : table.isEmpty = false) :
    ({ flushed with written := store.savedOf htable :: flushed.written } : Flushed).Lands
      store fs place segments (table :: newer) := by
  have hfront : (store.savedOf htable :: flushed.written).reverse ++ segments =
      flushed.written.reverse ++ (store.savedOf htable :: segments) := by simp
  refine ⟨h.folder_eq, h.within.trans hbeside.within, h.keeps.trans hbeside.kept, ?_, ?_, ?_,
    h.stopped⟩
  · rw [hfront]
    exact h.stores
  · rw [hfront]
    exact h.below
  · obtain ⟨done, hdone, hwritten⟩ := h.parts
    refine ⟨table :: done, by rw [List.cons_append, ← hdone], ?_⟩
    rw [List.filter_cons_of_pos (by simp [hempty]), List.map_cons, List.map_cons, hwritten, savedOf,
      Segment.entries_ofTable]

/-- **Writing memtables lands.** -/
theorem flushAll_lands (h : fs.Stores store.folder place segments)
    (hsteady : fs.Steady store.folder place)
    (hbelow : ∀ s ∈ segments, s.priority < store.counter.next)
    (hroom : store.counter.next.toNat + (store.flushAll fs tables).taken < UInt64.size) :
    (store.flushAll fs tables).Lands store fs place segments tables := by
  induction tables generalizing store fs segments with
  | nil =>
    exact ⟨rfl, .refl fs, .refl fs place, h, hbelow, ⟨[], rfl, rfl⟩, fun hfails => by cases hfails⟩
  | cons table newer ih =>
    cases hempty : table.isEmpty with
    | true =>
      rw [flushAll_cons_empty hempty] at hroom ⊢
      exact (ih h hsteady hbelow hroom).cons_empty hempty
    | false =>
      have hsome : table.entries ≠ [] := mt Memtable.entries_eq_nil_iff.mp (by simp [hempty])
      rcases save_stores h hsteady hbelow table.pairwise_entries hsome with
        ⟨htable, files, hsave, hstores, hbeside⟩ | ⟨e, files, hsave, hstores, hwithin, hkept, -⟩
      · rw [taken_flushAll hsave, Option.toList_some, List.length_singleton] at hroom
        have hnext : store.counter.next.toNat + 1 < UInt64.size := by omega
        have hroom' : store.advance.counter.next.toNat +
            (store.advance.flushAll files newer).taken < UInt64.size := by
          rw [toNat_advance hnext]
          omega
        have hstores' : files.Stores store.advance.folder place
            (store.savedOf htable :: segments) := hstores
        have hrest := ih hstores' (hsteady.of_keeps hbeside.within hbeside.kept)
          (below_advance_cons hbelow hnext rfl) hroom'
        have hflush : store.flushAll fs (table :: newer) =
            { store.advance.flushAll files newer with
              written := store.savedOf htable :: (store.advance.flushAll files newer).written } := by
          simp [flushAll, flush, hsave]
        rw [hflush]
        exact hrest.cons_saved htable hbeside hempty
      · have hflush : store.flushAll fs (table :: newer) =
            ⟨.error e, [], table :: newer, store.advance, files⟩ := by
          simp [flushAll, flush, hsave]
        rw [hflush] at hroom ⊢
        exact ⟨rfl, hwithin, hkept.keeps, hstores, below_advance hbelow hroom, ⟨[], rfl, rfl⟩,
          fun _ => ⟨table, newer, rfl, hempty⟩⟩

/-! ## Memory and disk together -/

theorem flatMap_filter_nonempty (tables : List Memtable) :
    (tables.filter fun table => !table.isEmpty).flatMap Memtable.entries =
      tables.flatMap Memtable.entries := by
  induction tables with
  | nil => rfl
  | cons table newer ih =>
    cases hempty : table.isEmpty with
    | true =>
      rw [List.filter_cons_of_neg (by simp [hempty]), ih, List.flatMap_cons,
        Memtable.entries_eq_nil_iff.mpr hempty, List.nil_append]
    | false =>
      rw [List.filter_cons_of_pos (by simp [hempty]), List.flatMap_cons, List.flatMap_cons, ih]

/-- **Writing memtables moves entries from memory to disk** and leaves their order alone. -/
theorem Flushed.Lands.entries_eq (h : flushed.Lands store fs place segments tables) :
    flushed.unwritten.reverse.flatMap Memtable.entries ++
        (flushed.written.reverse ++ segments).flatMap Segment.entries =
      tables.reverse.flatMap Memtable.entries ++ segments.flatMap Segment.entries := by
  obtain ⟨done, hdone, hwritten⟩ := h.parts
  have hmoved : flushed.written.reverse.flatMap Segment.entries =
      done.reverse.flatMap Memtable.entries := by
    rw [← flatMap_filter_nonempty, List.filter_reverse, List.flatMap_def, List.map_reverse,
      hwritten, ← List.map_reverse, ← List.flatMap_def]
  rw [List.flatMap_append, hmoved]
  conv => rhs; rw [hdone]
  simp

end LsmTree.Store
