import LsmTree.Proofs.Engine.Open
import LsmTree.Proofs.Store.Flushed

/-!
# Proofs/Engine/Backed — what memory and disk hold together

A save that fails loses nothing: what was to be written stays in memory, in its order, and the next
flush or the next attempt to close writes it.  So in every state of a run **the memtables and the
segments of the folder together hold what was written** (`Engine.Backed.answer`), also after the
engine is closed.  Nothing is asked of the saves; only the segments that are there must be left
alone, so there are no compactions, and others change other files only.
-/

namespace LsmTree

/-- The request leaves the segments that are there alone, and the engine's switches. -/
def Request.KeepsSegments : Request → Prop
  | .compact | .mergeSegments | .putAll _ | .force _ _ => False
  | _ => True

namespace Engine

variable {engine after : Engine} {files later : FileSystem} {folder : Path} {place : Place}
  {stored : List Segment} {now : Contents} {result : Except Error Unit} {flushed : Store.Flushed}

/-- The memtables with entries, oldest first: what is only in memory. -/
def buffered (engine : Engine) : List Memtable :=
  engine.memtables.reverse.filter fun table => !table.isEmpty

/-- The engine is closed and there is nothing in it any more. -/
structure Ended (engine : Engine) : Prop where
  isClosed : engine.closed = true
  sealed_eq : engine.sealed = []
  active_eq : engine.active.isEmpty = true
  segments_eq : engine.segments = {}
  flushed : engine.flushResult = none
  compacted : engine.compactionResult = none

/-- The memtables and the segments of the folder together hold the contents. -/
structure Backed (engine : Engine) (files : FileSystem) (folder : Path) (place : Place)
    (stored : List Segment) (now : Contents) : Prop where
  folder_eq : engine.store.folder = folder
  stores : files.Stores folder place stored
  steady : files.Steady folder place
  below : ∀ s ∈ stored, s.priority < engine.store.counter.next
  /-- every sealed memtable is there because a save failed, and a failure takes a priority -/
  numbered : engine.sealed.length < engine.store.counter.next.toNat
  contents : .ofEntries (engine.memtables.flatMap Memtable.entries ++
    stored.flatMap Segment.entries) = now
  current : engine.closed = false → engine.segments.segments = stored
  idle : engine.flushing = false
  quiet : engine.closed = true → engine.flushResult = none ∧ engine.compactionResult = none
  ended : engine.closed = true → engine.buffered = [] → engine.Ended

/-- An open engine shows what is held. -/
theorem Backed.shows (h : engine.Backed files folder place stored now)
    (hopen : engine.closed = false) : engine.Shows now := by
  have hsegments := h.current hopen
  have hintact : engine.segments.Intact := fun s hs => h.stores.filed.intact s (hsegments ▸ hs)
  have hentries : Contents.ofEntries engine.entries = now := by
    rw [← h.contents, entries, SegmentSet.entries, hsegments]
  exact hentries ▸ Engine.shows hopen hintact.readable

/-! ## Writing what is in memory -/

/-- The memtables are the unwritten ones, with an empty one in front or without. -/
structure Keeps (engine : Engine) (flushed : Store.Flushed) : Prop where
  store_eq : engine.store = flushed.store
  memtables_eq : engine.memtables = flushed.unwritten.reverse ∨
    engine.memtables = {} :: flushed.unwritten.reverse

theorem Keeps.buffered_eq (h : engine.Keeps flushed) :
    engine.buffered = flushed.unwritten.filter fun table => !table.isEmpty := by
  rw [buffered]
  rcases h.memtables_eq with heq | heq <;> rw [heq]
  · rw [List.reverse_reverse]
  · have hempty : ({} : Memtable).isEmpty = true := rfl
    rw [List.reverse_cons, List.reverse_reverse, List.filter_append,
      List.filter_cons_of_neg (by simp [hempty]), List.filter_nil, List.append_nil]

theorem Keeps.entries_eq (h : engine.Keeps flushed) :
    engine.memtables.flatMap Memtable.entries =
      flushed.unwritten.reverse.flatMap Memtable.entries := by
  rcases h.memtables_eq with heq | heq <;> rw [heq]
  rw [List.flatMap_cons, Memtable.entries_empty, List.nil_append]

theorem Keeps.length_le (h : engine.Keeps flushed) :
    engine.sealed.length ≤ flushed.unwritten.length := by
  have hlength := congrArg List.length (show engine.memtables = engine.active :: engine.sealed from rfl)
  rcases h.memtables_eq with heq | heq <;>
    simp only [heq, List.length_cons, List.length_reverse] at hlength <;> omega

/-- **What is in memory lands on disk**, as far as it can be written. -/
theorem Backed.lands (h : engine.Backed files folder place stored now)
    (hcounted : engine.store.counter.next ≤
      (engine.store.flushAll files engine.memtables.reverse).store.counter.next) :
    (engine.store.flushAll files engine.memtables.reverse).Lands engine.store files place stored
        engine.memtables.reverse ∧
      (engine.store.flushAll files engine.memtables.reverse).unwritten.length <
        (engine.store.flushAll files engine.memtables.reverse).store.counter.next.toNat := by
  have hlength : engine.memtables.reverse.length ≤ engine.store.counter.next.toNat := by
    rw [List.length_reverse]
    exact h.numbered
  have hroom := Store.room_of_flushAll hlength hcounted
  have hlands := Store.flushAll_lands (h.folder_eq ▸ h.stores) (h.folder_eq ▸ h.steady) h.below
    hroom
  obtain ⟨done, hdone, -⟩ := hlands.parts
  refine ⟨hlands, ?_⟩
  rw [(Store.toNat_flushAll _ _ _).1, Nat.mod_eq_of_lt hroom]
  exact length_unwritten_lt hdone (Nat.lt_of_le_of_lt (Nat.zero_le _) h.numbered) hlength

/-- **An engine that keeps what is not written yet is backed** by what was written. -/
theorem Backed.of_lands (h : engine.Backed files folder place stored now)
    (hlands : flushed.Lands engine.store files place stored engine.memtables.reverse)
    (hnumbered : flushed.unwritten.length < flushed.store.counter.next.toNat)
    (hkeeps : after.Keeps flushed)
    (hcurrent : after.closed = false →
      after.segments.segments = flushed.written.reverse ++ stored)
    (hidle : after.flushing = false)
    (hquiet : after.closed = true → after.flushResult = none ∧ after.compactionResult = none)
    (hended : after.closed = true → after.buffered = [] → after.Ended) :
    after.Backed flushed.files folder place (flushed.written.reverse ++ stored) now where
  folder_eq := by rw [hkeeps.store_eq, hlands.folder_eq, h.folder_eq]
  stores := h.folder_eq ▸ hlands.stores
  steady := h.steady.of_keeps hlands.within hlands.keeps
  below := hkeeps.store_eq ▸ hlands.below
  numbered := by
    rw [hkeeps.store_eq]
    exact Nat.lt_of_le_of_lt hkeeps.length_le hnumbered
  contents := by
    rw [hkeeps.entries_eq, hlands.entries_eq, List.reverse_reverse, h.contents]
  current := hcurrent
  idle := hidle
  quiet := hquiet
  ended := hended

/-! ## Flushing -/

/-- **A flush keeps all that is held.** -/
theorem Backed.flush (h : engine.Backed files folder place stored now)
    (hflush : engine.flush files = (result, after, later))
    (hcounted : engine.store.counter.next ≤ after.store.counter.next) :
    after.closed = engine.closed ∧
      ∃ written, after.Backed later folder place (written ++ stored) now := by
  by_cases hself : engine.closed = true ∨ engine.active.isEmpty = true
  · rw [flush_eq_self (hself.imp_right fun hactive => ⟨h.idle, hactive⟩)] at hflush
    obtain ⟨-, rfl, rfl⟩ : _ ∧ engine = after ∧ files = later := by
      simpa [Prod.mk.injEq] using hflush
    exact ⟨rfl, [], h⟩
  · obtain ⟨hopen, hactive⟩ : engine.closed = false ∧ engine.active.isEmpty = false := by
      simpa using hself
    rw [flush_eq hopen h.idle hactive] at hflush
    obtain ⟨-, rfl, rfl⟩ : _ ∧ _ ∧ _ := by simpa [Prod.mk.injEq] using hflush
    obtain ⟨hlands, hnumbered⟩ := h.lands hcounted
    have hdescending := hlands.stores.filed.descending
    rw [← h.current hopen] at hdescending
    refine ⟨rfl, _, h.of_lands hlands hnumbered ⟨rfl, .inr rfl⟩ (fun _ => ?_) h.idle
      (fun hclosed => absurd (hopen.symm.trans hclosed) (by simp))
      fun hclosed => absurd (hopen.symm.trans hclosed) (by simp)⟩
    rw [← h.current hopen]
    exact SegmentSet.segments_foldl_insert hdescending

/-! ## Writing -/

/-- **An open engine makes room** and keeps all that is held. -/
theorem Backed.makeRoom (h : engine.Backed files folder place stored now)
    (hopen : engine.closed = false) (hroom : engine.makeRoom files = (result, after, later))
    (hcounted : engine.store.counter.next ≤ after.store.counter.next) :
    result = .ok () ∧ after.closed = false ∧
      ∃ written, after.Backed later folder place (written ++ stored) now := by
  unfold Engine.makeRoom at hroom
  split at hroom
  · obtain ⟨rfl, rfl, rfl⟩ : _ ∧ engine = after ∧ files = later := by
      simpa [Prod.mk.injEq] using hroom
    exact ⟨rfl, hopen, [], h⟩
  rw [if_neg (by simp [hopen])] at hroom
  have hok := flush_eq_ok h.idle files
  rcases hflush : engine.flush files with ⟨_ | _, flushed, flushedFiles⟩ <;> rw [hflush] at hok hroom
  · cases hok
  · obtain ⟨rfl, rfl, rfl⟩ : _ ∧ flushed = after ∧ flushedFiles = later := by
      simpa [Prod.mk.injEq] using hroom
    obtain ⟨hclosed, hbacked⟩ := h.flush hflush hcounted
    exact ⟨rfl, hclosed.trans hopen, hbacked⟩

/-- **A write that goes well is held, any other write changes nothing.** -/
theorem Backed.put (h : engine.Backed files folder place stored now) {entry : Entry}
    (hput : engine.put entry files = (result, after, later))
    (hcounted : engine.store.counter.next ≤ after.store.counter.next) :
    ∃ written, after.Backed later folder place (written ++ stored)
      (now.after (.put entry) (.ofOutcome result)) := by
  cases hclosed : engine.closed with
  | true =>
    rw [put_closed hclosed] at hput
    obtain ⟨rfl, rfl, rfl⟩ : _ ∧ engine = after ∧ files = later := by
      simpa [Prod.mk.injEq] using hput
    exact ⟨[], h⟩
  | false =>
    unfold Engine.put at hput
    rcases hroom : engine.makeRoom files with ⟨_ | _, roomy, roomyFiles⟩ <;> rw [hroom] at hput
    · obtain ⟨-, rfl, -⟩ : _ ∧ roomy = after ∧ _ := by simpa [Prod.mk.injEq] using hput
      cases (h.makeRoom hclosed hroom hcounted).1
    · dsimp only at hput
      split at hput
      · rename_i hroomy
        obtain ⟨-, rfl, -⟩ : _ ∧ roomy = after ∧ _ := by simpa [Prod.mk.injEq] using hput
        obtain ⟨-, hopen, -⟩ := h.makeRoom hclosed hroom hcounted
        exact absurd hroomy (by simp [hopen])
      · obtain ⟨rfl, rfl, rfl⟩ : _ ∧ _ ∧ roomyFiles = later := by
          simpa [Prod.mk.injEq] using hput
        obtain ⟨-, hopen, written, hbacked⟩ := h.makeRoom hclosed hroom hcounted
        refine ⟨written, hbacked.folder_eq, hbacked.stores, hbacked.steady, hbacked.below,
          hbacked.numbered, ?_, hbacked.current, hbacked.idle,
          fun hended => absurd (hopen.symm.trans hended) (by simp),
          fun hended => absurd (hopen.symm.trans hended) (by simp)⟩
        change _ = now.write entry
        rw [← hbacked.contents]
        simp only [memtables, List.flatMap_cons, List.append_assoc]
        exact ofEntries_insert _ _ _

/-! ## Closing -/

/-- **Closing writes all memtables**, and forgets the segments if that goes well. -/
theorem persist_spec (engine : Engine) (files : FileSystem) :
    ∃ after, engine.persist files =
        ((engine.store.flushAll files engine.memtables.reverse).result, after,
          (engine.store.flushAll files engine.memtables.reverse).files) ∧
      after.Keeps (engine.store.flushAll files engine.memtables.reverse) ∧
      after.closed = engine.closed ∧ after.flushing = engine.flushing ∧
      after.flushResult = engine.flushResult ∧ after.compactionResult = engine.compactionResult ∧
      ((engine.store.flushAll files engine.memtables.reverse).result.isOk →
        after.memtables = [{}] ∧ after.segments = {}) := by
  have hparts : engine.memtables.reverse = engine.sealed.reverse ++ [engine.active] := by
    simp [memtables]
  rw [hparts, Store.flushAll_append]
  rcases hfirst : engine.store.flushAll files engine.sealed.reverse with
    ⟨e | _, written, unwritten, store, first⟩
  · -- a sealed memtable could not be written
    refine ⟨{ engine with store, sealed := unwritten.reverse }, ?_, ⟨rfl, .inl ?_⟩, rfl, rfl, rfl, rfl,
      fun hok => by cases hok⟩
    · simp [persist, persistSealed, hfirst]
    · simp [memtables]
  · have hunwritten : unwritten = [] := by
      have hnone := @Store.unwritten_of_isOk engine.store files engine.sealed.reverse
      rw [hfirst] at hnone
      exact hnone rfl
    rcases hactive : store.flush engine.active first with ⟨e | saved, next, last⟩
    · refine ⟨{ engine with store := next, sealed := [] }, ?_, ⟨?_, .inl ?_⟩, rfl, rfl, rfl, rfl, ?_⟩
      · simp [persist, persistSealed, persistActive, hfirst, hactive, Store.flushAll, hunwritten]
      · simp [Store.flushAll, hactive]
      · simp [Store.flushAll, hactive, memtables]
      · simp [Store.flushAll, hactive, Except.isOk, Except.toBool]
    · refine ⟨{ engine.retireActive with store := next, sealed := [], segments := {} }, ?_, ⟨?_, .inr ?_⟩,
        rfl, rfl, rfl, rfl, fun _ => ⟨rfl, rfl⟩⟩
      · simp [persist, persistSealed, persistActive, hfirst, hactive, Store.flushAll, hunwritten,
          retireActive]
      · simp [Store.flushAll, hactive]
      · simp [Store.flushAll, hactive, memtables, retireActive]

theorem eq_ok_iff (result : Except Error Unit) : result = .ok () ↔ result.isOk = true := by
  cases result <;> simp [Except.isOk, Except.toBool]

/-- What could not be written has entries. -/
theorem Keeps.isOk_iff (h : after.Keeps flushed) {store : Store} {tables : List Memtable}
    (hflushed : flushed = store.flushAll files tables)
    (hlands : flushed.Lands store files place stored tables) :
    flushed.result.isOk = true ↔ after.buffered = [] := by
  rw [h.buffered_eq]
  constructor
  · intro hok
    subst hflushed
    rw [Store.unwritten_of_isOk hok, List.filter_nil]
  · intro hnone
    by_contra hfails
    obtain ⟨table, newer, hunwritten, hempty⟩ := hlands.stopped (by simpa using hfails)
    rw [hunwritten, List.filter_cons_of_pos (by simp [hempty])] at hnone
    cases hnone

/-- **Closing writes what is buffered, oldest first**, as far as it can be written; the rest stays
in its order, and closing has failed if there is any. -/
theorem Backed.close (h : engine.Backed files folder place stored now)
    (hclose : engine.close files = (result, after, later))
    (hcounted : engine.store.counter.next ≤ after.store.counter.next) :
    after.closed = true ∧ (result = .ok () ↔ after.buffered = []) ∧
      ∃ (done : List Memtable) (written : List Segment), engine.buffered = done ++ after.buffered ∧
        written.map Segment.entries = done.map Memtable.entries ∧
        after.Backed later folder place (written.reverse ++ stored) now := by
  unfold Engine.close at hclose
  split at hclose
  · rename_i hnothing
    obtain ⟨rfl, rfl, rfl⟩ : _ ∧ engine = after ∧ files = later := by
      simpa [Prod.mk.injEq] using hclose
    obtain ⟨⟨hclosed, hsealed⟩, hactive⟩ := by simpa using hnothing
    have hbuffered : engine.buffered = [] := by
      simp [buffered, memtables, hsealed, hactive]
    exact ⟨hclosed, iff_of_true rfl hbuffered, [], [], rfl, rfl, h⟩
  · obtain ⟨ended, hpersist, hkeeps, hclosed, hflushing, hflush, hcompaction, hended⟩ :=
      persist_spec
        { engine with closed := true, flushResult := none, compactionResult := none } files
    rw [hpersist] at hclose
    obtain ⟨rfl, rfl, rfl⟩ : _ ∧ ended = after ∧ _ := by simpa [Prod.mk.injEq] using hclose
    have hcounted' := hcounted
    rw [hkeeps.store_eq] at hcounted'
    obtain ⟨hlands, hnumbered⟩ := h.lands hcounted'
    have hall := hkeeps.isOk_iff rfl hlands
    obtain ⟨done, hdone, hwritten⟩ := hlands.parts
    refine ⟨hclosed, (eq_ok_iff _).trans hall, done.filter (!·.isEmpty), _, ?_, hwritten,
      h.of_lands hlands hnumbered hkeeps (fun hopen => ?_) (hflushing.trans h.idle)
        (fun _ => ⟨hflush, hcompaction⟩) fun _ hnone => ?_⟩
    · rw [hkeeps.buffered_eq, ← List.filter_append]
      exact congrArg (List.filter _) hdone
    · exact absurd (hclosed.symm.trans hopen) (by simp)
    · obtain ⟨hmemtables, hsegments⟩ := hended (hall.mpr hnone)
      obtain ⟨hactive, hsealed⟩ := List.cons.inj hmemtables
      exact ⟨hclosed, hsealed, by rw [hactive]; rfl, hsegments, hflush, hcompaction⟩

/-! ## Waiting -/

/-- A closed engine has nothing to tell any more. -/
theorem Backed.awaitFlush (h : engine.Backed files folder place stored now) :
    engine.awaitFlush.2.Backed files folder place stored now :=
  { h with
    quiet := fun hclosed => ⟨rfl, (h.quiet hclosed).2⟩
    ended := fun hclosed hnone => { h.ended hclosed hnone with flushed := rfl } }

theorem Backed.awaitCompaction (h : engine.Backed files folder place stored now) :
    engine.awaitCompaction.2.Backed files folder place stored now :=
  { h with
    quiet := fun hclosed => ⟨(h.quiet hclosed).1, rfl⟩
    ended := fun hclosed hnone => { h.ended hclosed hnone with compacted := rfl } }

/-! ## Every request -/

/-- **Every request leaves the engine backed**, for contents that change by the entry that was
written and by nothing else. -/
theorem Backed.answer (h : engine.Backed files folder place stored now) {request : Request}
    (hkeeps : request.KeepsSegments) {reply : Reply}
    (hanswer : engine.answer files request = (reply, after, later))
    (hcounted : engine.store.counter.next ≤ after.store.counter.next) :
    ∃ written, after.Backed later folder place (written ++ stored) (now.after request reply) := by
  cases request with
  | put entry =>
    obtain ⟨result, hput, rfl⟩ := eq_of_tell hanswer
    exact h.put hput hcounted
  | flush =>
    obtain ⟨result, hflush, rfl⟩ := eq_of_tell hanswer
    exact (h.flush hflush hcounted).2
  | close =>
    obtain ⟨result, hclose, rfl⟩ := eq_of_tell hanswer
    obtain ⟨-, -, done, written, -, -, hbacked⟩ := h.close hclose hcounted
    exact ⟨_, hbacked⟩
  | awaitFlush =>
    obtain ⟨-, rfl, rfl⟩ : _ ∧ _ ∧ files = later := by simpa [Engine.answer] using hanswer
    exact ⟨[], h.awaitFlush⟩
  | awaitCompaction =>
    obtain ⟨-, rfl, rfl⟩ : _ ∧ _ ∧ files = later := by simpa [Engine.answer] using hanswer
    exact ⟨[], h.awaitCompaction⟩
  | compact | mergeSegments | putAll entries | force flag on => exact hkeeps.elim
  | _ =>
    obtain ⟨-, rfl, rfl⟩ := by simpa [Engine.answer] using hanswer
    exact ⟨[], h⟩

/-! ## Runs -/

/-- What an engine and its files can become by requests that leave the segments alone, while others
change other files, and with the contents that were written by then.  Saves may fail at will, and a
closed engine may be closed again. -/
inductive RunsBeside (opened : Engine) (files : FileSystem) (folder : Path) (place : Place)
    (loaded : Contents) : Engine → FileSystem → Contents → Prop
  | start : RunsBeside opened files folder place loaded opened files loaded
  | step {engine after : Engine} {before later : FileSystem} {now : Contents} {request : Request}
      {reply : Reply} (h : RunsBeside opened files folder place loaded engine before now)
      (hkeeps : request.KeepsSegments) (hanswer : engine.answer before request = (reply, after, later))
      (hcounted : engine.store.counter.next ≤ after.store.counter.next) :
      RunsBeside opened files folder place loaded after later (now.after request reply)
  | outside {engine : Engine} {before later : FileSystem} {now : Contents}
      (h : RunsBeside opened files folder place loaded engine before now)
      (hspares : FileSystem.Spares later before folder place) :
      RunsBeside opened files folder place loaded engine later now

variable {settings : Settings} {fs : FileSystem} {opened : Engine} {loaded : Contents}

/-- Others may change other files. -/
theorem Backed.outside (h : engine.Backed files folder place stored now)
    (hspares : FileSystem.Spares later files folder place) :
    engine.Backed later folder place stored now :=
  { h with stores := h.stores.of_spares hspares, steady := hspares.steady }

/-- **In every state of a run the engine is backed** by the segments that its folder stores. -/
theorem RunsBeside.backed (h : RunsBeside opened files folder place loaded engine later now)
    (hstart : opened.Backed files folder place stored loaded) :
    ∃ stored, engine.Backed later folder place stored now := by
  induction h with
  | start => exact ⟨stored, hstart⟩
  | step _ hkeeps hanswer hcounted ih =>
    obtain ⟨stored, hbacked⟩ := ih
    obtain ⟨written, hafter⟩ := hbacked.answer hkeeps hanswer hcounted
    exact ⟨written ++ stored, hafter⟩
  | outside _ hspares ih =>
    obtain ⟨stored, hbacked⟩ := ih
    exact ⟨stored, hbacked.outside hspares⟩

/-- An engine that was just opened is backed by what it found. -/
theorem backed_of_load (hsettings : settings.folder = .ok folder)
    (hsteady : fs.Steady folder place) (h : fs.WellFormed place)
    (hload : load settings fs = (.ok opened, files)) :
    Segment.Filed folder opened.segments.segments ∧ fs.Mirrors place opened.segments.segments ∧
      opened.Backed files folder place opened.segments.segments
        (.ofSegments opened.segments.segments) := by
  obtain ⟨hengine, hstore, hpositive, howns, hcleared, hstores⟩ :=
    spec_of_load hsettings hsteady.directory h hload
  obtain ⟨hmirrors, hsound⟩ := sound_of_load hsettings hsteady.directory h hload
  have hopen : opened.closed = false := hsound.isOpen
  refine ⟨hstores.filed, hmirrors, hstore, hstores,
    hsteady.of_keeps hcleared.within hcleared.keeps, howns.below,
    hsound.numbered, hsound.contents, fun _ => rfl, by rw [hengine], fun hclosed => ?_,
    fun hclosed => ?_⟩
  · exact absurd (hopen.symm.trans hclosed) (by simp)
  · exact absurd (hopen.symm.trans hclosed) (by simp)

end Engine

end LsmTree
