import LsmTree.Proofs.Engine.Steps

/-!
# Proofs/Engine/Views — what a view sees of a later engine

A view shares with its engine the memtable that was active when it was taken, and nothing else that
can change.  A request leaves that memtable active, with the entry that it writes, or retires it as
it was (`Engine.answer_turns`); one that was retired before stays as it is (`Engine.retires_answer`).
So a view **follows** what is written while its memtable is active, and from then on it is
**settled** (`Snapshot.Follows.of_turns`, `Snapshot.Settled.of_retires`).
-/

namespace LsmTree

/-! ## The active memtable -/

/-- The memtable after a request: an entry is written if the answer says so. -/
def Memtable.after (table : Memtable) : Request → Reply → Memtable
  | .put entry, .done => table.insert entry
  | _, _ => table

/-- What a request writes into the newest memtable it writes to all contents. -/
theorem Memtable.ofEntries_after (table : Memtable) (request : Request) (reply : Reply)
    (older : List Entry) :
    Contents.ofEntries ((table.after request reply).entries ++ older) =
      (Contents.ofEntries (table.entries ++ older)).after request reply := by
  cases request with
  | put entry =>
    cases reply with
    | done => exact Engine.ofEntries_insert table entry older
    | _ => rfl
  | _ => rfl

namespace Engine

variable {engine after : Engine} {fs files : FileSystem}

/-- The active memtable has become the given one, or it was retired as it was. -/
def Turns (engine after : Engine) (table : Memtable) : Prop :=
  (after.retired = engine.retired ∧ after.active = table) ∨
    after.retired = engine.retired.push engine.active

theorem turns_flush (engine : Engine) (fs : FileSystem) :
    engine.Turns (engine.flush fs).2.1 engine.active := by
  unfold Engine.flush
  split_ifs
  · exact .inl ⟨rfl, rfl⟩
  · exact .inl ⟨rfl, rfl⟩
  · exact .inl ⟨rfl, rfl⟩
  · exact .inr rfl

theorem turns_makeRoom (engine : Engine) (fs : FileSystem) :
    engine.Turns (engine.makeRoom fs).2.1 engine.active := by
  unfold makeRoom
  split_ifs
  · exact .inl ⟨rfl, rfl⟩
  · exact .inl ⟨rfl, rfl⟩
  · have hflush := turns_flush engine fs
    split
    · rename_i heq
      rw [heq] at hflush
      simp only [awaitFlush]
      split <;> rename_i hawait <;> obtain ⟨-, rfl⟩ := Prod.mk.inj hawait <;> exact hflush
    · exact hflush

/-- **A write that goes well writes into the active memtable**, or into the one that replaces it. -/
theorem turns_put (engine : Engine) (entry : Entry) (fs : FileSystem) :
    engine.Turns (engine.put entry fs).2.1
      (engine.active.after (.put entry) (.ofOutcome (engine.put entry fs).1)) := by
  have hroom := turns_makeRoom engine fs
  unfold Engine.put
  rcases hmake : engine.makeRoom fs with ⟨e | _, roomy, later⟩ <;> rw [hmake] at hroom
  · exact hroom
  · dsimp only
    split_ifs
    · exact hroom
    · refine hroom.imp_left fun ⟨hretired, hactive⟩ => ⟨hretired, ?_⟩
      exact congrArg (·.insert entry) hactive

theorem turns_mergeSegments (engine : Engine) (fs : FileSystem) :
    engine.Turns (engine.mergeSegments fs).2.1 engine.active := by
  unfold mergeSegments
  split_ifs
  · exact .inl ⟨rfl, rfl⟩
  · split <;> exact .inl ⟨rfl, rfl⟩

theorem turns_compact (engine : Engine) (fs : FileSystem) :
    engine.Turns (engine.compact fs).2.1 engine.active := by
  unfold Engine.compact
  split_ifs
  · exact .inl ⟨rfl, rfl⟩
  · exact .inl ⟨rfl, rfl⟩
  · exact turns_mergeSegments engine fs

theorem turns_persist (engine : Engine) (fs : FileSystem) :
    engine.Turns (engine.persist fs).2.1 engine.active ∧
      (engine.persist fs).2.1.closed = engine.closed := by
  rcases hsealed : engine.store.flushAll fs engine.sealed.reverse with
    ⟨e | _, written, unwritten, store, first⟩
  · simp [persist, persistSealed, hsealed, Turns]
  · rcases hactive : store.flush engine.active first with ⟨e | saved, next, last⟩ <;>
      simp [persist, persistSealed, persistActive, hsealed, hactive, Turns, retireActive]

/-- **Closing retires the active memtable once it is written**, and the engine is closed in any
case. -/
theorem turns_close (engine : Engine) (fs : FileSystem) :
    engine.Turns (engine.close fs).2.1 engine.active ∧ (engine.close fs).2.1.closed = true := by
  unfold Engine.close
  split_ifs with hend
  · exact ⟨.inl ⟨rfl, rfl⟩, by simp_all⟩
  · exact turns_persist
      { engine with closed := true, flushResult := none, compactionResult := none } fs

theorem turns_of_tell {outcome : Outcome Engine Unit} {request : Request} {reply : Reply}
    (hturns : engine.Turns outcome.2.1 (engine.active.after request (.ofOutcome outcome.1)))
    (htell : tell outcome = (reply, after, files)) :
    engine.Turns after (engine.active.after request reply) := by
  obtain ⟨result, rfl, rfl⟩ := eq_of_tell htell
  exact hturns

/-- **What a request writes goes into the active memtable**, unless that is retired. -/
theorem answer_turns {request : Request} (hplain : request.Plain) {reply : Reply}
    (hanswer : engine.answer fs request = (reply, after, files)) :
    engine.Turns after (engine.active.after request reply) := by
  cases request with
  | put entry => exact turns_of_tell (turns_put engine entry fs) hanswer
  | flush => exact turns_of_tell (turns_flush engine fs) hanswer
  | compact => exact turns_of_tell (turns_compact engine fs) hanswer
  | mergeSegments => exact turns_of_tell (turns_mergeSegments engine fs) hanswer
  | close => exact turns_of_tell (turns_close engine fs).1 hanswer
  | awaitFlush | awaitCompaction =>
    obtain ⟨-, rfl, -⟩ := by simpa [answer, awaitFlush, awaitCompaction] using hanswer
    exact .inl ⟨rfl, rfl⟩
  | putAll entries | force flag on => exact hplain.elim
  | _ =>
    obtain ⟨-, rfl, -⟩ := by simpa [answer] using hanswer
    exact .inl ⟨rfl, rfl⟩

/-- The memtables that were retired before still are, and they have not changed. -/
def Retires (engine after : Engine) : Prop := ∃ more, after.retired = engine.retired ++ more

theorem Retires.refl (engine : Engine) : engine.Retires engine := ⟨#[], by simp⟩

theorem Retires.trans {last : Engine} (h : engine.Retires after) (h' : after.Retires last) :
    engine.Retires last := by
  obtain ⟨more, hmore⟩ := h
  obtain ⟨further, hfurther⟩ := h'
  exact ⟨more ++ further, by rw [hfurther, hmore, Array.append_assoc]⟩

theorem Turns.retires {table : Memtable} (h : engine.Turns after table) : engine.Retires after := by
  rcases h with ⟨hretired, -⟩ | hretired
  · exact ⟨#[], by simp [hretired]⟩
  · exact ⟨#[engine.active], by simp [hretired]⟩

theorem retires_putAll (engine : Engine) (fs : FileSystem) (entries : List Entry) :
    engine.Retires (engine.putAll fs entries).2.1 := by
  induction entries generalizing engine fs with
  | nil => exact .refl engine
  | cons entry rest ih =>
    have hput := (turns_put engine entry fs).retires
    unfold Engine.putAll
    rcases hfirst : engine.put entry fs with ⟨_ | _, next, files⟩ <;> rw [hfirst] at hput
    · exact hput
    · exact hput.trans (ih next files)

/-- **No request changes a memtable that was retired.** -/
theorem retires_answer {request : Request} {reply : Reply}
    (hanswer : engine.answer fs request = (reply, after, files)) : engine.Retires after := by
  cases request with
  | putAll entries =>
    have hafter : (engine.putAll fs entries).2.1 = after :=
      congrArg (fun outcome => outcome.2.1) hanswer
    exact hafter ▸ retires_putAll engine fs entries
  | force flag on =>
    obtain ⟨-, rfl, -⟩ : _ ∧ engine.force on flag = after ∧ _ := by simpa [answer] using hanswer
    cases flag <;> exact .refl engine
  | _ => exact (answer_turns (by trivial) hanswer).retires

/-- **An engine that is open after a request was open before**: it is never opened again. -/
theorem isOpen_before {request : Request} (hplain : request.Plain) {reply : Reply}
    (hanswer : engine.answer fs request = (reply, after, files)) (hopen : after.closed = false) :
    engine.closed = false ∧ request.KeepsOpen := by
  have hclose : request ≠ .close := by
    rintro rfl
    obtain ⟨result, hclose, -⟩ := eq_of_tell hanswer
    have hclosed := (turns_close engine fs).2
    rw [hclose] at hclosed
    exact absurd (hclosed.symm.trans hopen) (by simp)
  refine ⟨?_, ?_⟩
  · by_contra hclosed
    have hstill := (answer_closed (by simpa using hclosed) hplain hclose hanswer).2.2.2
    exact absurd (hstill.symm.trans hopen) (by simp)
  · cases request with
    | close => exact absurd rfl hclose
    | putAll entries | force flag on => exact hplain.elim
    | _ => trivial

end Engine

/-! ## Views -/

namespace Snapshot

variable {view : Snapshot} {engine after : Engine} {table : Memtable}

/-- The memtable that was active when the view was taken is active still. -/
def Follows (view : Snapshot) (engine : Engine) : Prop := engine.retired.size = view.generation

/-- The memtable that was active when the view was taken has been retired. -/
def Settled (view : Snapshot) (engine : Engine) : Prop := view.generation < engine.retired.size

theorem Settled.not_follows (h : view.Settled engine) : ¬ view.Follows engine :=
  fun hfollows => absurd hfollows (Nat.ne_of_gt h)

theorem Follows.activeIn_eq (h : view.Follows engine) : view.activeIn engine = engine.active := by
  simp [activeIn, ← h.symm]

theorem entries_eq (view : Snapshot) (engine : Engine) :
    view.entries engine = (view.activeIn engine).entries ++
      (view.sealed.flatMap Memtable.entries ++ view.segments.entries) := by
  simp [entries]

/-- **A settled view stays as it is.** -/
theorem Settled.of_retires (h : view.Settled engine) (hretires : engine.Retires after) :
    view.Settled after ∧ view.activeIn after = view.activeIn engine := by
  obtain ⟨more, hmore⟩ := hretires
  have hlt : view.generation < engine.retired.size := h
  refine ⟨?_, ?_⟩
  · rw [Settled, hmore, Array.size_append]
    exact Nat.lt_add_right _ hlt
  · rw [activeIn, activeIn, hmore, Array.getElem?_append_left hlt]
    simp [hlt]

/-- **A view that follows its engine has what is written**, or it is settled as it was. -/
theorem Follows.of_turns (h : view.Follows engine) {request : Request} {reply : Reply}
    (hturns : engine.Turns after (engine.active.after request reply)) :
    (view.Follows after ∧ Contents.ofEntries (view.entries after) =
        (Contents.ofEntries (view.entries engine)).after request reply) ∨
      view.Settled after ∧ view.entries after = view.entries engine := by
  have hsize : engine.retired.size = view.generation := h
  rcases hturns with ⟨hretired, hactive⟩ | hretired
  · have hafter : view.Follows after := by rwa [Follows, hretired]
    refine .inl ⟨hafter, ?_⟩
    rw [entries_eq, entries_eq, hafter.activeIn_eq, h.activeIn_eq, hactive]
    exact Memtable.ofEntries_after _ _ _ _
  · refine .inr ⟨by simp [Settled, hretired, hsize], ?_⟩
    rw [entries_eq, entries_eq, h.activeIn_eq]
    simp [activeIn, hretired, ← hsize]

end Snapshot

end LsmTree
