import LsmTree.Proofs.Engine.Acknowledged
import LsmTree.Proofs.Store.Opening
import LsmTree.Proofs.Store.Writing

/-!
# Proofs/Engine/FlushHistory — what is sealed and what is told of the last flush

A flush is started by a request to flush, and by a write once the active memtable has reached the
threshold, unless there is nothing in the active memtable.  It writes the sealed memtables, oldest
first, up to the first save that fails.  So memtables are sealed between two requests if the flush
that was started last failed, and only then; and waiting tells that failure, once.  Nothing is asked
of the folder, where others may do what they like between two requests
(`Engine.sealed_iff_last_flush_failed`).
-/

namespace LsmTree.Engine

variable {settings : Settings} {opened engine after : Engine} {fs files later : FileSystem}
  {request : Request} {reply : Reply}

/-! ## Flushes that are started -/

/-- The request starts a flush. -/
def Starts (engine : Engine) : Request → Bool
  | .flush => !engine.active.isEmpty
  | .put _ => !engine.active.isEmpty && engine.settings.threshold ≤ engine.active.byteSize
  | _ => false

/-- How far a flush comes: the sealed memtables are to be written, oldest first, and behind them the
active one. -/
def drained (engine : Engine) (fs : FileSystem) : Store.Flushed :=
  engine.store.flushAll fs (engine.sealed.reverse ++ [engine.active])

/-- How the flush that was started last ended, and whether somebody has waited for it since. -/
structure LastFlush where
  result : Except Error Unit
  asked : Bool := false

/-- What is known of the last flush after a request. -/
def lastAfter (engine : Engine) (fs : FileSystem) (request : Request) (last : Option LastFlush) :
    Option LastFlush :=
  if engine.Starts request then some { result := (engine.drained fs).result }
  else
    match request with
    | .awaitFlush => last.map ({ · with asked := true })
    | _ => last

/-- An engine answers requests that leave it open, and the counter does not start over.  Between two
of them others change the files as they like. -/
inductive FlushRuns (opened : Engine) (files : FileSystem) :
    Engine → FileSystem → Option LastFlush → Prop
  | start : FlushRuns opened files opened files none
  | step {engine after : Engine} {fs later : FileSystem} {last : Option LastFlush}
      {request : Request} {reply : Reply} : FlushRuns opened files engine fs last →
      request.KeepsOpen → engine.answer fs request = (reply, after, later) →
      engine.store.counter.next ≤ after.store.counter.next →
      FlushRuns opened files after later (engine.lastAfter fs request last)
  | outside {engine : Engine} {fs later : FileSystem} {last : Option LastFlush} :
      FlushRuns opened files engine fs last → FlushRuns opened files engine later last

/-- What a flush does: it writes the sealed memtables and behind them the active one, save by save.
The segments that it makes hold these memtables and have consecutive priorities, from the next one of
the store on.  What is sealed afterwards is what is not written, newest first, with the memtable that
was active among it if there is anything. -/
structure Drains (engine : Engine) (fs : FileSystem) (after : Engine) (later : FileSystem)
    (flushed : Store.Flushed) : Prop where
  writing : Store.Writing engine.store fs (engine.sealed.reverse ++ [engine.active]) flushed
  holds : ∃ done, engine.sealed.reverse ++ [engine.active] = done ++ flushed.unwritten ∧
    List.Forall₂ (fun table s => s.Holds table.entries) done flushed.written
  priorities : flushed.written.map (·.priority.toNat) =
    List.range' engine.store.counter.next.toNat flushed.written.length
  store_eq : after.store = flushed.store
  files_eq : later = flushed.files
  segments_eq : after.segments = flushed.written.foldl .insert engine.segments
  sealed_eq : after.sealed = flushed.unwritten.reverse
  rotated : after.sealed = [] ∨ ∃ older, after.sealed = engine.active :: older
  result_iff : flushed.result = .ok () ↔ after.sealed = []
  told : after.flushResult = some flushed.result

/-- The engine is open and no flush is under way, every sealed memtable has something in it, and what
is sealed and kept to be told agrees with what is known of the last flush. -/
structure Tracks (engine : Engine) (last : Option LastFlush) : Prop where
  isOpen : engine.closed = false
  idle : engine.flushing = false
  /-- every sealed memtable is there because a flush failed, and a failure takes a priority -/
  numbered : engine.sealed.length < engine.store.counter.next.toNat
  filled : ∀ table ∈ engine.sealed, table.isEmpty = false
  sealed_iff : engine.sealed ≠ [] ↔ ∃ flush ∈ last, flush.result ≠ .ok ()
  told : engine.flushResult = last.bind fun flush => if flush.asked then none else some flush.result

/-! ## Requests that start no flush -/

/-- Nothing that has to do with flushes has changed. -/
structure SameFlush (engine after : Engine) : Prop where
  closed_eq : after.closed = engine.closed
  flushing_eq : after.flushing = engine.flushing
  sealed_eq : after.sealed = engine.sealed
  flushResult_eq : after.flushResult = engine.flushResult

theorem SameFlush.refl (engine : Engine) : engine.SameFlush engine := ⟨rfl, rfl, rfl, rfl⟩

theorem sameFlush_mergeSegments (engine : Engine) (fs : FileSystem) :
    engine.SameFlush (engine.mergeSegments fs).2.1 := by
  unfold mergeSegments
  split
  · exact .refl engine
  · split <;> exact ⟨rfl, rfl, rfl, rfl⟩

theorem sameFlush_compact (engine : Engine) (fs : FileSystem) :
    engine.SameFlush (engine.compact fs).2.1 := by
  unfold Engine.compact
  split_ifs
  · exact .refl engine
  · exact .refl engine
  · obtain ⟨hclosed, hflushing, hsealed, hresult⟩ := sameFlush_mergeSegments engine fs
    exact ⟨hclosed, hflushing, hsealed, hresult⟩

/-- **A write that starts no flush** only writes. -/
theorem put_of_not_starts (hopen : engine.closed = false) (hidle : engine.flushing = false)
    {entry : Entry} (hnot : engine.Starts (.put entry) = false) (fs : FileSystem) :
    engine.put entry fs = (.ok (), { engine with active := engine.active.insert entry }, fs) := by
  rw [put_eq hopen hidle]
  split_ifs with hfull
  · have hempty : engine.active.isEmpty = true := by simpa [Starts, hfull] using hnot
    rw [flush_eq_self (.inr ⟨hidle, hempty⟩)]
  · rfl

/-- **A request that starts no flush** changes nothing that has to do with flushes, but that a result
that is told is not kept. -/
theorem sameFlush_of_not_starts (hopen : engine.closed = false) (hidle : engine.flushing = false)
    (hkeeps : request.KeepsOpen) (hnot : engine.Starts request = false)
    (hanswer : engine.answer fs request = (reply, after, later)) :
    SameFlush (match request with | .awaitFlush => engine.awaitFlush.2 | _ => engine) after := by
  cases request with
  | put entry =>
    obtain ⟨result, hput, -⟩ := eq_of_tell hanswer
    rw [put_of_not_starts hopen hidle hnot] at hput
    obtain ⟨-, rfl, -⟩ : _ ∧ _ ∧ _ := by simpa [Prod.mk.injEq] using hput
    exact ⟨rfl, rfl, rfl, rfl⟩
  | flush =>
    obtain ⟨result, hflush, -⟩ := eq_of_tell hanswer
    have hempty : engine.active.isEmpty = true := by simpa [Starts] using hnot
    rw [flush_eq_self (.inr ⟨hidle, hempty⟩)] at hflush
    obtain ⟨-, rfl, -⟩ : _ ∧ engine = after ∧ _ := by simpa [Prod.mk.injEq] using hflush
    exact .refl engine
  | compact =>
    obtain ⟨result, hcompact, -⟩ := eq_of_tell hanswer
    have hsame := sameFlush_compact engine fs
    rwa [hcompact] at hsame
  | mergeSegments =>
    obtain ⟨result, hmerge, -⟩ := eq_of_tell hanswer
    have hsame := sameFlush_mergeSegments engine fs
    rwa [hmerge] at hsame
  | close | putAll | force => cases hkeeps
  | _ =>
    obtain ⟨-, rfl, -⟩ : _ ∧ _ ∧ _ := by simpa [answer, Prod.mk.injEq] using hanswer
    exact ⟨rfl, rfl, rfl, rfl⟩

/-! ## Requests that start one -/

/-- **A flush that is started drains the memtables**, and a write puts its entry into a new one. -/
theorem exists_of_starts (hopen : engine.closed = false) (hidle : engine.flushing = false)
    (hstarts : engine.Starts request = true)
    (hanswer : engine.answer fs request = (reply, after, later)) :
    engine.active.isEmpty = false ∧ later = (engine.drained fs).files ∧
      ∃ table, after = { engine.afterFlush (engine.drained fs) with active := table } := by
  have hflush (hactive : engine.active.isEmpty = false) : engine.flush fs =
      (.ok (), engine.afterFlush (engine.drained fs), (engine.drained fs).files) := by
    rw [flush_eq hopen hidle hactive, memtables, List.reverse_cons, drained]
  cases request with
  | put entry =>
    obtain ⟨hactive, hfull⟩ : engine.active.isEmpty = false ∧ _ := by simpa [Starts] using hstarts
    obtain ⟨result, hput, -⟩ := eq_of_tell hanswer
    rw [put_eq hopen hidle, if_pos hfull, hflush hactive] at hput
    obtain ⟨-, rfl, rfl⟩ : _ ∧ _ ∧ _ := by simpa [Prod.mk.injEq] using hput
    exact ⟨hactive, rfl, _, rfl⟩
  | flush =>
    have hactive : engine.active.isEmpty = false := by simpa [Starts] using hstarts
    obtain ⟨result, hdone, -⟩ := eq_of_tell hanswer
    rw [hflush hactive] at hdone
    obtain ⟨-, rfl, rfl⟩ : _ ∧ _ ∧ _ := by simpa [Prod.mk.injEq] using hdone
    exact ⟨hactive, rfl, _, rfl⟩
  | _ => cases hstarts

namespace Tracks

variable {last : Option LastFlush}

/-- All that a flush is to write has something in it. -/
theorem filled_drained (h : engine.Tracks last) (hactive : engine.active.isEmpty = false) :
    ∀ table ∈ engine.sealed.reverse ++ [engine.active], table.isEmpty = false := by
  simpa [or_imp, forall_and] using ⟨h.filled, hactive⟩

/-- The counter has gone past as many priorities as there are memtables to be written. -/
theorem length_le_next (h : engine.Tracks last) :
    (engine.sealed.reverse ++ [engine.active]).length ≤ engine.store.counter.next.toNat := by
  rw [List.length_append, List.length_reverse, List.length_singleton]
  exact h.numbered

/-- A flush that did not start the counter over had priorities to take. -/
theorem room_of_drained (h : engine.Tracks last)
    (hcounted : engine.store.counter.next ≤ (engine.drained fs).store.counter.next) :
    engine.store.counter.next.toNat + (engine.drained fs).taken < UInt64.size :=
  Store.room_of_flushAll h.length_le_next hcounted

/-- **A flush leaves what it could not write**, and that is something if and only if it failed. -/
theorem drains (h : engine.Tracks last) (hactive : engine.active.isEmpty = false) {table : Memtable}
    (hafter : after = { engine.afterFlush (engine.drained fs) with active := table })
    (hcounted : engine.store.counter.next ≤ after.store.counter.next) :
    engine.Drains fs after (engine.drained fs).files (engine.drained fs) := by
  subst hafter
  have hwriting : Store.Writing engine.store fs (engine.sealed.reverse ++ [engine.active])
      (engine.drained fs) := Store.writing_flushAll engine.store fs (h.filled_drained hactive)
  refine ⟨hwriting, hwriting.parts, hwriting.priorities (h.room_of_drained hcounted), rfl, rfl, rfl,
    rfl, ?_, hwriting.result_eq_ok_iff.trans List.reverse_eq_nil_iff.symm, rfl⟩
  change (engine.drained fs).unwritten.reverse = [] ∨
    ∃ older, (engine.drained fs).unwritten.reverse = engine.active :: older
  refine hwriting.unwritten_concat.imp List.reverse_eq_nil_iff.mpr ?_
  rintro ⟨between, hunwritten⟩
  exact ⟨between.reverse, by simp [hunwritten]⟩

/-- **After a flush it is this flush that is known of.** -/
theorem of_drained (h : engine.Tracks last) (hactive : engine.active.isEmpty = false)
    {table : Memtable}
    (hafter : after = { engine.afterFlush (engine.drained fs) with active := table })
    (hcounted : engine.store.counter.next ≤ after.store.counter.next) :
    after.Tracks (some { result := (engine.drained fs).result }) := by
  have hdrains := h.drains hactive hafter hcounted
  obtain ⟨done, hdone, -⟩ := hdrains.holds
  subst hafter
  refine ⟨h.isOpen, h.idle, ?_, fun table htable => h.filled_drained hactive table ?_, ?_,
    hdrains.told⟩
  · have hnext : (engine.drained fs).store.counter.next.toNat =
        engine.store.counter.next.toNat + (engine.drained fs).taken :=
      (Store.toNat_flushAll _ _ _).1.trans (Nat.mod_eq_of_lt (h.room_of_drained hcounted))
    rw [hdrains.sealed_eq, List.length_reverse]
    exact Nat.lt_of_lt_of_eq (length_unwritten_lt hdone
      (Nat.lt_of_le_of_lt (Nat.zero_le _) h.numbered) h.length_le_next) hnext.symm
  · rw [hdone]
    rw [hdrains.sealed_eq, List.mem_reverse] at htable
    exact List.mem_append_right _ htable
  · exact (not_congr hdrains.result_iff).symm.trans (by simp)

/-- What has nothing to do with flushes may change. -/
theorem of_same (h : engine.Tracks last) (hsame : engine.SameFlush after)
    (hcounted : engine.store.counter.next ≤ after.store.counter.next) : after.Tracks last where
  isOpen := hsame.closed_eq.trans h.isOpen
  idle := hsame.flushing_eq.trans h.idle
  numbered := by
    rw [hsame.sealed_eq]
    exact Nat.lt_of_lt_of_le h.numbered (UInt64.le_iff_toNat_le.mp hcounted)
  filled := hsame.sealed_eq ▸ h.filled
  sealed_iff := hsame.sealed_eq ▸ h.sealed_iff
  told := hsame.flushResult_eq.trans h.told

/-- **A result is told once.** -/
theorem awaitFlush (h : engine.Tracks last) :
    engine.awaitFlush.2.Tracks (last.map ({ · with asked := true })) where
  isOpen := h.isOpen
  idle := h.idle
  numbered := h.numbered
  filled := h.filled
  sealed_iff := by
    refine h.sealed_iff.trans ?_
    cases last <;> simp
  told := by cases last <;> rfl

/-- **Every request keeps track of the last flush.** -/
theorem answer (h : engine.Tracks last) (hkeeps : request.KeepsOpen)
    (hanswer : engine.answer fs request = (reply, after, later))
    (hcounted : engine.store.counter.next ≤ after.store.counter.next) :
    after.Tracks (engine.lastAfter fs request last) := by
  unfold lastAfter
  split
  · rename_i hstarts
    obtain ⟨hactive, -, table, hafter⟩ := exists_of_starts h.isOpen h.idle hstarts hanswer
    exact h.of_drained hactive hafter hcounted
  · rename_i hnot
    have hsame := sameFlush_of_not_starts h.isOpen h.idle hkeeps (by simpa using hnot) hanswer
    cases request with
    | awaitFlush => exact h.awaitFlush.of_same hsame hcounted
    | _ => exact h.of_same hsame hcounted

/-- **Waiting tells a failure that nobody has waited for.** -/
theorem awaitFlush_eq_error_iff (h : engine.Tracks last) {e : Error} :
    engine.awaitFlush.1 = .error e ↔ last = some { result := .error e } := by
  rw [Engine.awaitFlush, h.told]
  rcases last with _ | ⟨_ | _, _ | _⟩ <;> simp

end Tracks

/-- An engine that was opened has started no flush. -/
theorem tracks_of_load (hload : load settings fs = (.ok opened, files)) : opened.Tracks none := by
  unfold load at hload
  split at hload
  · cases hload
  split at hload
  · cases hload
  rename_i store set opening hstore
  obtain ⟨rfl, rfl⟩ : _ ∧ opening = files := by simpa using hload
  obtain ⟨-, hcounter, -⟩ := Store.opened_of_load hstore
  have hpositive := (Counter.spec_after hcounter).1
  exact ⟨rfl, rfl, UInt64.lt_iff_toNat_lt.mp hpositive, by simp, by simp, rfl⟩

theorem FlushRuns.tracks {last : Option LastFlush} (h : FlushRuns opened files engine later last)
    (hopened : opened.Tracks none) : engine.Tracks last := by
  induction h with
  | start => exact hopened
  | step _ hkeeps hanswer hcounted ih => exact ih.answer hkeeps hanswer hcounted
  | outside _ ih => exact ih

/-- **What is sealed and what is told are those of the last flush.**  Between the requests of a run
memtables are sealed if the flush that was started last failed, and only then.  A request that starts
a flush drains the memtables, oldest first, up to the first save that fails; no other request changes
what is sealed, and a flush of an empty memtable changes nothing at all.  Waiting tells an error if
the flush that was started last failed with it and nobody has waited since, and only then. -/
theorem sealed_iff_last_flush_failed {last : Option LastFlush}
    (hload : load settings fs = (.ok opened, files))
    (hruns : FlushRuns opened files engine later last) :
    (engine.sealed ≠ [] ↔ ∃ flush ∈ last, flush.result ≠ .ok ()) ∧
    (∀ request reply after latest, engine.Starts request = true →
      engine.answer later request = (reply, after, latest) →
      engine.store.counter.next ≤ after.store.counter.next →
        engine.Drains later after latest (engine.drained later)) ∧
    (∀ request reply after latest, request.KeepsOpen → engine.Starts request = false →
      engine.answer later request = (reply, after, latest) → after.sealed = engine.sealed) ∧
    (engine.active.isEmpty = true → engine.flush later = (.ok (), engine, later)) ∧
    ∀ e, engine.awaitFlush.1 = .error e ↔ last = some { result := .error e } := by
  have htracks := hruns.tracks (tracks_of_load hload)
  refine ⟨htracks.sealed_iff, fun request reply after latest hstarts hanswer hcounted => ?_,
    fun request reply after latest hkeeps hnot hanswer => ?_,
    fun hempty => flush_eq_self (.inr ⟨htracks.idle, hempty⟩) later,
    fun e => htracks.awaitFlush_eq_error_iff⟩
  · obtain ⟨hactive, rfl, table, hafter⟩ :=
      exists_of_starts htracks.isOpen htracks.idle hstarts hanswer
    exact htracks.drains hactive hafter hcounted
  · have hsame := sameFlush_of_not_starts htracks.isOpen htracks.idle hkeeps hnot hanswer
    rw [hsame.sealed_eq]
    split <;> rfl

/-- A directory is in the way of the first segment: the memtable stays sealed, and the failure is told
to the first that waits. -/
theorem failure_is_told_once :
    ∃ files engine last, load storeSettings obstructedFiles = (.ok emptyEngine, files) ∧
      FlushRuns emptyEngine files engine files last ∧ engine.sealed ≠ [] ∧
      engine.awaitFlush.1 = .error (.io .isADirectory) ∧
      engine.awaitFlush.2.awaitFlush.1 = .ok () := by
  obtain ⟨files, hload, -, -, hfails⟩ := flush_obstructed
  have hdrained : writtenEngine.drained files =
      ⟨.error (.io .isADirectory), [], [writtenTable], emptyEngine.store.advance, files⟩ := by
    change emptyEngine.store.flushAll files [writtenTable] = _
    rw [Store.flushAll, hfails]
  have hflush : writtenEngine.answer files .flush =
      (.done, writtenEngine.afterFlush (writtenEngine.drained files), files) := by
    have hdone := @flush_eq writtenEngine rfl rfl (by decide) files
    change writtenEngine.flush files = (.ok (), writtenEngine.afterFlush (writtenEngine.drained files),
      (writtenEngine.drained files).files) at hdone
    rw [answer, hdone, hdrained]
    rfl
  have hput : (Request.put ⟨[97], some [49]⟩).KeepsOpen := trivial
  have hwritten : FlushRuns emptyEngine files writtenEngine files none :=
    FlushRuns.start.step hput rfl (UInt64.le_refl _)
  have hcounted : writtenEngine.store.counter.next ≤
      (writtenEngine.afterFlush (writtenEngine.drained files)).store.counter.next := by
    rw [hdrained]
    change emptyEngine.store.counter.next ≤ emptyEngine.store.advance.counter.next
    decide
  have hkeeps : Request.flush.KeepsOpen := trivial
  have hruns := hwritten.step hkeeps hflush hcounted
  have hlast : writtenEngine.lastAfter files .flush none =
      some { result := .error (.io .isADirectory) } := by
    unfold lastAfter
    rw [if_pos (by decide), hdrained]
  rw [hlast] at hruns
  obtain ⟨hsealed, -, -, -, hwait⟩ := sealed_iff_last_flush_failed hload hruns
  exact ⟨files, _, _, hload, hruns, hsealed.mpr ⟨_, rfl, by simp⟩, (hwait _).mpr rfl, rfl⟩

end LsmTree.Engine
