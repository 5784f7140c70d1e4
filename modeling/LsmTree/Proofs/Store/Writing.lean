import LsmTree.Proofs.Store.Owned
import LsmTree.Proofs.Store.Transfer
import Mathlib.Data.List.Forall2

/-!
# Proofs/Store/Writing — memtables that are written one after the other

Memtables with something in them are written save by save, each as a segment of its own, up to the
first save that fails (`Store.writing_flushAll`).  So what was written and what was not are the two
parts of the list, in its order, the segments have consecutive priorities, and the outcome is the
error of the save that failed.  This holds whatever is in the folder.
-/

namespace LsmTree.Store

variable {store : Store} {fs : FileSystem} {tables : List Memtable} {flushed : Flushed}

/-- Memtables are written one after the other, each as a segment, up to the first save that
fails. -/
inductive Writing : Store → FileSystem → List Memtable → Flushed → Prop
  | done {store : Store} {fs : FileSystem} : Writing store fs [] ⟨.ok (), [], [], store, fs⟩
  | failed {store after : Store} {fs files : FileSystem} {table : Memtable} {newer : List Memtable}
      {e : Error} : store.flush table fs = (.error e, after, files) →
      Writing store fs (table :: newer) ⟨.error e, [], table :: newer, after, files⟩
  | saved {store after : Store} {fs files : FileSystem} {table : Memtable} {newer : List Memtable}
      {s : Segment} {rest : Flushed} : store.flush table fs = (.ok (some s), after, files) →
      Writing after files newer rest →
      Writing store fs (table :: newer) { rest with written := s :: rest.written }

/-- **Memtables with something in them are written save by save.** -/
theorem writing_flushAll (store : Store) (fs : FileSystem)
    (hsome : ∀ table ∈ tables, table.isEmpty = false) :
    Writing store fs tables (store.flushAll fs tables) := by
  induction tables generalizing store fs with
  | nil => exact .done
  | cons table newer ih =>
    obtain ⟨htable, hnewer⟩ := List.forall_mem_cons.mp hsome
    rcases hsave : store.flush table fs with ⟨e | _ | s, after, files⟩
    · rw [flushAll, hsave]
      exact .failed hsave
    · have hempty := Memtable.entries_eq_nil_iff.mp (eq_nil_of_save hsave)
      cases htable.symm.trans hempty
    · rw [flushAll, hsave]
      exact .saved hsave (ih after files hnewer)

namespace Writing

/-- **What was written comes before what was not**, and each segment holds its memtable. -/
theorem parts (h : Writing store fs tables flushed) :
    ∃ done, tables = done ++ flushed.unwritten ∧
      List.Forall₂ (fun table s => s.Holds table.entries) done flushed.written := by
  induction h with
  | done => exact ⟨[], rfl, .nil⟩
  | failed _ => exact ⟨[], rfl, .nil⟩
  | saved hsave _ ih =>
    obtain ⟨done, rfl, hholds⟩ := ih
    exact ⟨_ :: done, rfl, .cons (holds_of_save (Memtable.pairwise_entries _) hsave) hholds⟩

/-- **All are written unless a save fails.** -/
theorem result_eq_ok_iff (h : Writing store fs tables flushed) :
    flushed.result = .ok () ↔ flushed.unwritten = [] := by
  induction h with
  | done => exact iff_of_true rfl rfl
  | failed _ => simp
  | saved _ _ ih => exact ih

/-- **The segments have consecutive priorities**, from the next one of the store on. -/
theorem priorities (h : Writing store fs tables flushed)
    (hroom : store.counter.next.toNat + flushed.taken < UInt64.size) :
    flushed.written.map (·.priority.toNat) =
      List.range' store.counter.next.toNat flushed.written.length := by
  induction h with
  | done => rfl
  | failed _ => rfl
  | @saved store _ _ _ _ _ s rest hsave _ ih =>
    obtain ⟨hpriority, rfl⟩ := priority_of_save hsave
    have htaken : ({ rest with written := s :: rest.written } : Flushed).taken = rest.taken + 1 :=
      Nat.add_right_comm _ _ _
    rw [htaken] at hroom
    have hnext := toNat_advance (show store.counter.next.toNat + 1 < UInt64.size by omega)
    rw [hnext] at ih
    rw [List.map_cons, hpriority, List.length_cons, List.range'_succ, ih (by omega)]

/-- What is not written ends with the newest memtable. -/
theorem unwritten_concat {older : List Memtable} {newest : Memtable}
    (h : Writing store fs (older ++ [newest]) flushed) :
    flushed.unwritten = [] ∨ ∃ between, flushed.unwritten = between ++ [newest] := by
  obtain ⟨done, hdone, -⟩ := h.parts
  rcases List.eq_nil_or_concat flushed.unwritten with hnone | ⟨between, last, hunwritten⟩
  · exact .inl hnone
  · rw [hunwritten, List.concat_eq_append, ← List.append_assoc] at hdone
    obtain ⟨-, hlast⟩ := List.append_inj' hdone rfl
    rw [hunwritten, List.concat_eq_append, hlast]
    exact .inr ⟨between, rfl⟩

end Writing

end LsmTree.Store
