import LsmTree.Proofs.Engine.Acknowledged
import LsmTree.Proofs.Session.Events

/-!
# Proofs/Session/Closing — failed saves lose nothing, and closing can be tried again

Until closing goes well, what was written is held by the memtables and the segments of the folder
together.  Closing writes the memtables, oldest first; those that it cannot write stay, and closing
again goes on with them.  Once it goes well the folder has everything, and **nothing that is done
through any handle changes the folder or the engine again** (`Session.closes_without_loss`).
-/

namespace LsmTree

/-! ## A closed engine -/

/-- What a request is told once the engine is closed and there is nothing in it any more. -/
def Request.afterEnd : Request → Reply
  | .put _ | .putAll (_ :: _) | .lookup _ | .contains _ | .count | .isEmpty | .items | .range _ _
  | .compact => .failed .closed
  | .flush | .awaitFlush | .awaitCompaction | .mergeSegments | .close | .force _ _ => .done
  | .putAll [] | .countSegments => .number 0
  | .segments => .scans []

namespace Engine

variable {engine : Engine} {request : Request}

/-- **An engine that has ended stays as it is**, and no request touches a file. -/
theorem Ended.answer (h : engine.Ended) (hforce : ∀ flag on, request ≠ .force flag on)
    (files : FileSystem) : engine.answer files request = (request.afterEnd, engine, files) := by
  have hclosed := h.isClosed
  have hsnapshot : ∀ interval, engine.snapshot interval = .error .closed := fun interval => by
    simp [snapshot, hclosed]
  cases request with
  | put entry =>
    rw [Engine.answer, put_closed hclosed]
    rfl
  | putAll entries =>
    cases entries with
    | nil => rfl
    | cons entry rest =>
      simp only [Engine.answer, putAll, put_closed hclosed]
      rfl
  | lookup key => simp [Engine.answer, lookup, hclosed, Request.afterEnd, Reply.ofExcept]
  | contains key =>
    simp [Engine.answer, contains, lookup, hclosed, Request.afterEnd, Reply.ofExcept, Functor.map,
      Except.map]
  | count =>
    simp [Engine.answer, count, items, hsnapshot, Request.afterEnd, Reply.ofExcept, Functor.map,
      Except.map, bind, Except.bind]
  | isEmpty =>
    simp [Engine.answer, isEmpty, hsnapshot, Request.afterEnd, Reply.ofExcept, bind, Except.bind]
  | items =>
    simp [Engine.answer, items, hsnapshot, Request.afterEnd, Reply.ofExcept, Functor.map,
      Except.map]
  | range start stop =>
    simp [Engine.answer, range, hsnapshot, Request.afterEnd, Reply.ofExcept, Functor.map,
      Except.map]
  | flush =>
    rw [Engine.answer, flush_eq_self (.inl hclosed)]
    rfl
  | awaitFlush =>
    have hsame : ({ engine with flushResult := none } : Engine) = engine := by rw [← h.flushed]
    simp [Engine.answer, awaitFlush, h.flushed, hsame]
    rfl
  | compact =>
    simp [Engine.answer, compact, hclosed, tell, Request.afterEnd, Reply.ofOutcome, Reply.ofExcept]
  | awaitCompaction =>
    have hsame : ({ engine with compactionResult := none } : Engine) = engine := by
      rw [← h.compacted]
    simp [Engine.answer, awaitCompaction, h.compacted, hsame]
    rfl
  | mergeSegments =>
    simp only [Engine.answer, mergeSegments, hclosed, if_true]
    rfl
  | close =>
    simp [Engine.answer, close, hclosed, h.sealed_eq, h.active_eq, tell]
    rfl
  | countSegments =>
    simp only [Engine.answer, countSegments, h.segments_eq]
    rfl
  | segments =>
    simp only [Engine.answer, h.segments_eq]
    rfl
  | force flag on => exact absurd rfl (hforce flag on)

end Engine

namespace Session

variable {start session after later : Session} {engine : Engine} {files : FileSystem}

/-! ## After the end -/

/-- The event is one that the users of the handles cause, and none sets a switch by hand. -/
def Event.Own : Event → Prop
  | .outside _ | .request _ (.force _ _) _ => False
  | _ => True

/-- What happens to a session through its handles. -/
abbrev Uses (start : Session) (events : List Event) (later : Session) : Prop :=
  Runs (fun _ event _ => event.Own) start events later

/-- The files and the engine are the given ones, and whatever is asked through a handle changes
nothing: reads and writes are refused, and there is nothing left to flush or to close. -/
structure Over (session : Session) (engine : Engine) (files : FileSystem) : Prop where
  solo : session.Solo engine
  files_eq : session.files = files
  answers : ∀ name index, session.handles.lookup name = some index →
    ∀ request : Request, (∀ flag on, request ≠ .force flag on) →
      session.request name request = some (request.afterEnd, session)
  holds : ∀ name index, session.handles.lookup name = some index →
    ∀ view lower upper, session.hold name view lower upper = some (.error .closed, session)

theorem over_of_ended (h : session.Solo engine) (hended : engine.Ended) :
    session.Over engine session.files := by
  have hget : ∀ name index, session.handles.lookup name = some index →
      index = 0 ∧ session.engines[index]? = some engine := by
    intro name index hlookup
    obtain rfl := h.index_eq hlookup
    exact ⟨rfl, by simp [h.engines_eq]⟩
  refine ⟨h, rfl, fun name index hlookup request hforce => ?_,
    fun name index hlookup view lower upper => ?_⟩
  · obtain ⟨rfl, hengine⟩ := hget name index hlookup
    have hsame : session.engines.setIfInBounds 0 engine = session.engines := by simp [h.engines_eq]
    simp [Session.request, hlookup, hengine, hended.answer hforce, hsame]
  · obtain ⟨rfl, hengine⟩ := hget name index hlookup
    simp [Session.hold, hlookup, hengine, Engine.snapshot, hended.isClosed]

/-- **Nothing that is done through a handle changes an engine that has ended.** -/
theorem Event.Moves.ended {event : Event} {later : Engine} {fs : FileSystem}
    (h : event.Moves engine fs later files) (hended : engine.Ended) (hown : event.Own) :
    later = engine ∧ files = fs := by
  cases h with
  | @answers name r reply _ _ hanswer =>
    have hforce : ∀ flag on, r ≠ .force flag on := by
      rintro flag on rfl
      exact hown
    rw [hended.answer hforce] at hanswer
    obtain ⟨-, rfl, rfl⟩ : _ ∧ engine = later ∧ fs = files := by simpa using hanswer
    exact ⟨rfl, rfl⟩
  | closes hanswer =>
    rw [hended.answer (by simp)] at hanswer
    obtain ⟨-, rfl, rfl⟩ : _ ∧ engine = later ∧ fs = files := by simpa using hanswer
    exact ⟨rfl, rfl⟩
  | outside => exact hown.elim
  | rests => exact ⟨rfl, rfl⟩

theorem over_of_uses {events : List Event} (h : Uses start events later)
    (hsolo : start.Solo engine) (hended : engine.Ended) :
    later.Over engine start.files := by
  have hkept : later.Solo engine ∧ later.files = start.files := by
    induction h with
    | start => exact ⟨hsolo, rfl⟩
    | step _ hown hstep ih =>
      obtain ⟨next, hnext, hmoves⟩ := ih.1.step hstep
      obtain ⟨rfl, hfiles⟩ := hmoves.ended hended hown
      exact ⟨hnext, hfiles.trans ih.2⟩
  exact hkept.2 ▸ over_of_ended hkept.1 hended

/-! ## All runs -/

/-- **Failed saves lose nothing.**  Whatever others do, they leave the segments alone, put no link
under the name of an unfinished file, and none that a save replaces on the way to the folder; a
directory under a name of the store makes a save fail.  In every state of a run the memtables and
the segments of the folder together hold what was written.  While the engine is closed nothing but
closing changes what is buffered or the files.  Closing writes what is buffered, oldest
first, as far as it can be written, and keeps the rest; it goes well if and only if there is no
rest.  Then the folder opens with what was written, and nothing that is done through handles changes
anything again. -/
theorem closes_without_loss {settings : Settings} {opened : Engine} {fs : FileSystem}
    {folder : Path} {place : Place} (hsettings : settings.folder = .ok folder)
    (hsteady : fs.Steady folder place) (h : fs.WellFormed place)
    (hload : Engine.load settings fs = (.ok opened, files)) :
    ∃ segments, Segment.Filed folder segments ∧ fs.Mirrors place segments ∧
      ∀ engine before now,
        Engine.RunsBeside opened files folder place (.ofSegments segments) engine before now →
        ∃ stored, before.Stores folder place stored ∧
          .ofEntries (engine.memtables.flatMap Memtable.entries ++
            stored.flatMap Segment.entries) = now ∧
          (engine.closed = true → ∀ request reply after later, request.Plain →
            request ≠ .close → engine.answer before request = (reply, after, later) →
            later = before ∧ after.buffered = engine.buffered ∧ after.closed = true) ∧
          ∀ result closed closedFiles, engine.close before = (result, closed, closedFiles) →
            engine.store.counter.next ≤ closed.store.counter.next →
            closed.closed = true ∧
              (∃ (done : List Memtable) (written : List Segment),
                engine.buffered = done ++ closed.buffered ∧
                written.map Segment.entries = done.map Memtable.entries ∧
                closedFiles.Stores folder place (written.reverse ++ stored)) ∧
              (result = .ok () ↔ closed.buffered = []) ∧
              (result = .ok () → Engine.Opens settings closedFiles now ∧
                ∀ session : Session, session.Solo closed → session.files = closedFiles →
                  ∀ events later, Uses session events later → later.Over closed closedFiles) := by
  obtain ⟨hfiled, hmirrors, hstart⟩ := Engine.backed_of_load hsettings hsteady h hload
  refine ⟨_, hfiled, hmirrors, fun engine before now hruns => ?_⟩
  obtain ⟨stored, hbacked⟩ := hruns.backed hstart
  refine ⟨stored, hbacked.stores, hbacked.contents,
    fun hclosed request reply after later hplain hother hanswer => ?_,
    fun result closed closedFiles hclose hcounted => ?_⟩
  · obtain ⟨hfiles, hmemtables, -, hstill⟩ := Engine.answer_closed hclosed hplain hother hanswer
    exact ⟨hfiles, by rw [Engine.buffered, hmemtables, Engine.buffered], hstill⟩
  obtain ⟨hclosed, hresult, done, written, hbuffered, hwritten, hafter⟩ :=
    hbacked.close hclose hcounted
  refine ⟨hclosed, ⟨done, written, hbuffered, hwritten, hafter.stores⟩, hresult, fun hok => ?_⟩
  have hended := hafter.ended hclosed (hresult.mp hok)
  refine ⟨(Engine.opens_iff hsettings hafter.stores (Store.room_of_below hafter.below)).mpr ?_,
    fun session hsolo hfiles events later huses =>
      hfiles ▸ over_of_uses huses hsolo hended⟩
  rw [← hafter.contents, Engine.memtables, hended.sealed_eq, List.flatMap_singleton,
    Memtable.entries_eq_nil_iff.mpr hended.active_eq, List.nil_append]
  rfl

/-- The engine with the value in its memtable, once closing it has failed. -/
def closingEngine : Engine :=
  { Engine.writtenEngine with store := Engine.emptyEngine.store.advance, closed := true }

/-- The next save has another name, and nothing is in its way. -/
theorem flush_closing {files : FileSystem} (h : files.Stores ["", "store"] ["store"] [])
    (hwithin : files.Within Engine.obstructedFiles) :
    ∃ saved later, closingEngine.store.flush Engine.writtenTable files =
      (.ok saved, closingEngine.store.advance, later) := by
  obtain ⟨_, later, hsave, -⟩ := @Store.save_free closingEngine.store files
    Engine.writtenTable.entries ["store"] [] h (Engine.linkFree_obstructedFiles.of_within hwithin)
    (by simp) Engine.writtenTable.pairwise_entries (by decide) (by decide) fun file hfile hnode => by
      obtain rfl := Engine.directory_obstructedFiles (hwithin _ _ rfl hnode)
      revert hfile
      decide
  exact ⟨_, later, hsave⟩

/-- A value that could not be written at first is there once the engine is closed again. -/
theorem closes_after_failure :
    ∃ files ended endFiles, ∃ m : Contents,
      Engine.load Engine.storeSettings Engine.obstructedFiles = (.ok .emptyEngine, files) ∧
      Engine.emptyEngine.answer files (.put ⟨[97], some [49]⟩) =
        (.done, Engine.writtenEngine, files) ∧
      Engine.writtenEngine.close files = (.error (.io .isADirectory), closingEngine, files) ∧
      closingEngine.buffered = [Engine.writtenTable] ∧
      closingEngine.close files = (.ok (), ended, endFiles) ∧
      Engine.Opens Engine.storeSettings endFiles (m.write ⟨[97], some [49]⟩) ∧
      ∀ session : Session, session.Solo ended → session.files = endFiles →
        ∀ events later, Uses session events later → later.Over ended endFiles := by
  obtain ⟨files, hload, hstores, hwithin, hfirst⟩ := Engine.flush_obstructed
  obtain ⟨saved, later, hsecond⟩ := flush_closing hstores hwithin
  obtain ⟨segments, -, -, hruns⟩ := closes_without_loss Engine.folder_storeSettings
    (Engine.linkFree_obstructedFiles.steady Engine.stores_obstructedFiles.directory)
    Engine.stores_obstructedFiles.wellFormed hload
  -- the value is written, and closing fails
  have hput : Engine.emptyEngine.answer files (.put ⟨[97], some [49]⟩) =
      (.done, Engine.writtenEngine, files) := rfl
  have hfirst' : Engine.writtenEngine.store.flush Engine.writtenEngine.active files = _ := hfirst
  have hfails := @Engine.close_eq Engine.writtenEngine (.inl rfl) rfl files
  rw [hfirst'] at hfails
  have hanswer : Engine.writtenEngine.answer files .close =
      (.failed (.io .isADirectory), closingEngine, files) := by
    rw [Engine.answer, hfails]
    rfl
  have hkeeps : (Request.put ⟨[97], some [49]⟩).KeepsSegments := trivial
  have hkeeps' : Request.close.KeepsSegments := trivial
  have hstart : Engine.RunsBeside .emptyEngine files ["", "store"] ["store"] (.ofSegments segments)
    .emptyEngine files _ := .start
  have hrun := (hstart.step hkeeps hput (UInt64.le_refl _)).step hkeeps' hanswer (by decide)
  -- closing again goes well
  have hsecond' : closingEngine.store.flush closingEngine.active files = _ := hsecond
  have hclose := @Engine.close_eq closingEngine (.inr (by decide)) rfl files
  rw [hsecond'] at hclose
  have hcounted : closingEngine.store.counter.next ≤ closingEngine.store.advance.counter.next := by
    decide
  obtain ⟨stored, -, -, -, hcloses⟩ := hruns _ _ _ hrun
  obtain ⟨-, -, -, hdone⟩ := hcloses _ _ _ hclose hcounted
  obtain ⟨hopens, hover⟩ := hdone rfl
  exact ⟨files, _, later, _, hload, hput, hfails, rfl, hclose, hopens, hover⟩

end Session

end LsmTree
