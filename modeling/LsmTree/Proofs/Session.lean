import LsmTree.Proofs.Engine.Open
import LsmTree.Session

/-!
# Proofs/Session — reads over a whole run

A run opens an engine, asks it for one thing after the other through any of its handles, clones
handles, and is interrupted by others who change the files in whatever way.  Flushes and compactions
may fail at any step of theirs.  Still **every read tells what was written**: the entries of the
segments that were there at first, overwritten by each entry that was written since
(`Session.shows_of_reaches`).
-/

namespace LsmTree.Session

/-! ## Runs -/

/-- What a request takes for granted: no unfinished file in the folder of an engine is a link, and
no counter passes the greatest priority, where it would start over. -/
structure Fair (session after : Session) : Prop where
  unlinked : ∀ engine ∈ session.engines, session.files.Unlinked engine.store.folder
  counted : ∀ (i : Nat) (engine later : Engine), session.engines[i]? = some engine →
    after.engines[i]? = some later → engine.store.counter.next ≤ later.store.counter.next

/-- What a session can become, and the contents that were written by then.  The files may be changed
at will between requests; a segment that is open keeps the image it has. -/
inductive Reaches (start : Session) (loaded : Contents) : Session → Contents → Prop
  | start : Reaches start loaded start loaded
  | request {session after : Session} {m : Contents} {name : String} {r : Request} {reply : Reply}
      (h : Reaches start loaded session m) (hopen : r.KeepsOpen)
      (hrequest : session.request name r = some (reply, after)) (hfair : session.Fair after) :
      Reaches start loaded after (m.after r reply)
  | clone {session after : Session} {m : Contents} {name copy : String}
      (h : Reaches start loaded session m) (hclone : session.clone name copy = some after) :
      Reaches start loaded after m
  | outside {session : Session} {m : Contents} (h : Reaches start loaded session m)
      (files : FileSystem) : Reaches start loaded { session with files } m

/-! ## One engine behind all handles -/

variable {session after start : Session} {engine : Engine} {handle name copy : String}
  {m loaded : Contents}

/-- The engine is the session's only one, and all handles lead to it. -/
structure Solo (session : Session) (engine : Engine) : Prop where
  engines_eq : session.engines = #[engine]
  handles_eq : ∀ pair ∈ session.handles, pair.2 = 0

theorem Solo.index_eq (h : session.Solo engine) {index : Nat}
    (hlookup : session.handles.lookup name = some index) : index = 0 := by
  obtain ⟨before, behind, heq, -⟩ := List.lookup_eq_some_iff.mp hlookup
  exact h.handles_eq (name, index) (by simp [heq])

/-- **A request through a handle is one to the engine.** -/
theorem Solo.request (h : session.Solo engine) {r : Request} {reply : Reply}
    (hrequest : session.request name r = some (reply, after)) :
    ∃ later, after.Solo later ∧ engine.answer session.files r = (reply, later, after.files) ∧
      after.handles = session.handles ∧ after.snapshots = session.snapshots := by
  unfold Session.request at hrequest
  obtain ⟨index, hlookup, hrequest⟩ := Option.bind_eq_some_iff.mp hrequest
  obtain rfl := h.index_eq hlookup
  obtain ⟨found, hfound, hrequest⟩ := Option.bind_eq_some_iff.mp hrequest
  obtain rfl : engine = found := by simpa [h.engines_eq] using hfound
  rcases hanswer : engine.answer session.files r with ⟨told, later, files⟩
  rw [hanswer] at hrequest
  obtain ⟨rfl, rfl⟩ : _ ∧ _ := by simpa using hrequest
  exact ⟨later, ⟨by simp [h.engines_eq], h.handles_eq⟩, rfl, rfl, rfl⟩

theorem lookup_filter_ne {α : Type} {name other : String} (hne : other ≠ name)
    (names : List (String × α)) :
    (names.filter (·.1 ≠ name)).lookup other = names.lookup other := by
  induction names with
  | nil => rfl
  | cons pair rest ih =>
    by_cases hpair : pair.1 = name
    · have hother : (other == pair.1) = false := beq_eq_false_iff_ne.mpr (hpair ▸ hne)
      rw [List.filter_cons_of_neg (by simpa using hpair), ih, List.lookup_cons, hother]
    · rw [List.filter_cons_of_pos (by simpa using hpair), List.lookup_cons, ih, List.lookup_cons]

theorem lookup_assign {α : Type} (name other : String) (value : α) (names : List (String × α)) :
    (assign name value names).lookup other =
      if other = name then some value else names.lookup other := by
  rw [assign, List.lookup_cons]
  by_cases hname : other = name
  · simp [hname]
  · rw [beq_eq_false_iff_ne.mpr hname, if_neg hname]
    exact lookup_filter_ne hname names

/-- Nothing is dropped while a handle leads to the only engine. -/
theorem release_of_lookup (hlookup : session.handles.lookup handle = some 0) :
    session.release 0 = session := by
  obtain ⟨before, behind, heq, -⟩ := List.lookup_eq_some_iff.mp hlookup
  exact if_pos (List.any_eq_true.mpr ⟨(handle, 0), by simp [heq], by simp⟩)

/-- **A handle more** leads to the engine as well, and that is all. -/
theorem Solo.clone (h : session.Solo engine) (hclone : session.clone name copy = some after) :
    after.Solo engine ∧ after = { session with handles := assign copy 0 session.handles } := by
  unfold Session.clone at hclone
  obtain ⟨index, hlookup, hclone⟩ := Option.bind_eq_some_iff.mp hclone
  obtain rfl := h.index_eq hlookup
  let shared := { session with handles := assign copy 0 session.handles }
  have hcopy : shared.handles.lookup copy = some 0 := by simp [shared, lookup_assign]
  have hshared : shared.Solo engine := by
    refine ⟨h.engines_eq, fun pair hpair => ?_⟩
    rcases List.mem_cons.mp hpair with rfl | hpair
    · rfl
    · exact h.handles_eq pair (List.mem_filter.mp hpair).1
  dsimp only at hclone
  split at hclone
  · obtain rfl : shared = after := by simpa [shared] using hclone
    exact ⟨hshared, rfl⟩
  · rename_i previous hprevious
    obtain rfl := h.index_eq hprevious
    obtain rfl : shared.release 0 = after := by simpa [shared] using hclone
    rw [release_of_lookup hcopy]
    exact ⟨hshared, rfl⟩

/-- A handle leads to the session's only engine, as all handles do, and the engine is sound. -/
structure Single (session : Session) (handle : String) (m : Contents) : Prop where
  engine : ∃ engine : Engine, session.Solo engine ∧ engine.Sound m
  handle_eq : session.handles.lookup handle = some 0

theorem Single.request (h : session.Single handle m) {r : Request} (hopen : r.KeepsOpen)
    {reply : Reply} (hrequest : session.request name r = some (reply, after))
    (hfair : session.Fair after) : after.Single handle (m.after r reply) := by
  obtain ⟨engine, hsolo, hsound⟩ := h.engine
  obtain ⟨later, hlater, hanswer, hhandles, -⟩ := hsolo.request hrequest
  refine ⟨⟨later, hlater, ?_⟩, hhandles ▸ h.handle_eq⟩
  exact hsound.answer hopen (hfair.unlinked engine (by simp [hsolo.engines_eq])) hanswer
    (hfair.counted 0 engine later (by simp [hsolo.engines_eq]) (by simp [hlater.engines_eq]))

theorem Single.clone (h : session.Single handle m) (hclone : session.clone name copy = some after) :
    after.Single handle m := by
  obtain ⟨engine, hsolo, hsound⟩ := h.engine
  obtain ⟨hafter, rfl⟩ := hsolo.clone hclone
  refine ⟨⟨engine, hafter, hsound⟩, ?_⟩
  change (assign copy 0 session.handles).lookup handle = some 0
  rw [lookup_assign, h.handle_eq, ite_self]

/-- **In every state of a run the engine is sound for what was written.** -/
theorem single_of_reaches (hstart : start.Single handle loaded)
    (h : Reaches start loaded session m) : session.Single handle m := by
  induction h with
  | start => exact hstart
  | request _ hopen hrequest hfair ih => exact ih.request hopen hrequest hfair
  | clone _ hclone ih => exact ih.clone hclone
  | outside _ files ih =>
    obtain ⟨engine, hsolo, hsound⟩ := ih.engine
    exact ⟨⟨engine, ⟨hsolo.engines_eq, hsolo.handles_eq⟩, hsound⟩, ih.handle_eq⟩

/-! ## Opening -/

/-- The session with one engine and one handle to it. -/
def ofEngine (files : FileSystem) (handle : String) (engine : Engine) : Session :=
  { files, engines := #[engine], handles := [(handle, 0)] }

theorem openEngine_of_load {settings : Settings} {engine : Engine} {fs files : FileSystem}
    (h : Engine.load settings fs = (.ok engine, files)) (handle : String) :
    ({ files := fs } : Session).openEngine handle settings =
      (.ok (), ofEngine files handle engine) := by
  have hdrop : ({ files := fs } : Session).drop handle = { files := fs } := rfl
  rw [openEngine, hdrop]
  dsimp only
  rw [h]
  rfl

theorem request_ofEngine {engine later : Engine} {files afterwards : FileSystem} {r : Request}
    {reply : Reply} (h : engine.answer files r = (reply, later, afterwards)) (handle : String) :
    (ofEngine files handle engine).request handle r =
      some (reply, ofEngine afterwards handle later) := by
  simp [request, ofEngine, h]

theorem single_of_openEngine {settings : Settings} {fs : FileSystem} {folder : Path} {place : Place}
    (hsettings : settings.folder = .ok folder) (hfolder : fs.directoryAt folder = .ok place)
    (h : fs.WellFormed place)
    (hopen : ({ files := fs } : Session).openEngine handle settings = (.ok (), start)) :
    ∃ segments, Segment.Filed folder segments ∧ fs.Mirrors place segments ∧
      start.Single handle (.ofSegments segments) := by
  have hdrop : ({ files := fs } : Session).drop handle = { files := fs } := rfl
  unfold openEngine at hopen
  rw [hdrop] at hopen
  dsimp only at hopen
  rcases hload : Engine.load settings fs with ⟨e | engine, files⟩ <;> rw [hload] at hopen
  · cases hopen
  · obtain rfl := (Prod.mk.inj hopen).2
    obtain ⟨-, hstore, -, howns, -⟩ := Engine.spec_of_load hsettings hfolder h hload
    obtain ⟨hmirrors, hsound⟩ := Engine.sound_of_load hsettings hfolder h hload
    have hsolo : Solo { files, engines := #[engine], handles := assign handle 0 [] } engine :=
      ⟨rfl, by simp [assign]⟩
    exact ⟨engine.segments.segments, hstore ▸ howns.filed, hmirrors, ⟨engine, hsolo, hsound⟩,
      by simp [lookup_assign]⟩

/-- **Every read tells what was written.**  Whatever a folder of whole segments mirrors, an engine
that is opened on it shows that at first, and then in every state of a run, through every handle,
what was there overwritten by what was written since. -/
theorem shows_of_reaches {settings : Settings} {fs : FileSystem} {folder : Path} {place : Place}
    (hsettings : settings.folder = .ok folder) (hfolder : fs.directoryAt folder = .ok place)
    (h : fs.WellFormed place)
    (hopen : ({ files := fs } : Session).openEngine handle settings = (.ok (), start)) :
    ∃ segments, Segment.Filed folder segments ∧ fs.Mirrors place segments ∧
      ∀ session m, Reaches start (.ofSegments segments) session m →
        (session.engineOf? handle).isSome ∧
          ∀ name engine, session.engineOf? name = some engine → engine.Shows m := by
  obtain ⟨segments, hfiled, hmirrors, hstart⟩ := single_of_openEngine hsettings hfolder h hopen
  refine ⟨segments, hfiled, hmirrors, fun session m hreaches => ?_⟩
  have hsingle := single_of_reaches hstart hreaches
  obtain ⟨engine, hsolo, hsound⟩ := hsingle.engine
  refine ⟨by simp [engineOf?, hsingle.handle_eq, hsolo.engines_eq], fun name found hfound => ?_⟩
  obtain ⟨index, hlookup, hget⟩ := Option.bind_eq_some_iff.mp hfound
  obtain rfl := hsolo.index_eq hlookup
  obtain rfl : engine = found := by simpa [hsolo.engines_eq] using hget
  exact hsound.shows

/-- What the only engine answers is the session's next step. -/
theorem Reaches.answer {later : Engine} {files afterwards : FileSystem} {r : Request} {reply : Reply}
    (h : Reaches start loaded (ofEngine files handle engine) m) (hopen : r.KeepsOpen)
    (hanswer : engine.answer files r = (reply, later, afterwards))
    (hlinks : files.Unlinked engine.store.folder)
    (hcounted : engine.store.counter.next ≤ later.store.counter.next) :
    Reaches start loaded (ofEngine afterwards handle later) (m.after r reply) := by
  refine h.request hopen (request_ofEngine hanswer handle) ⟨fun other hother => ?_,
    fun i found next hfound hnext => ?_⟩
  · obtain rfl : other = engine := by simpa [ofEngine] using hother
    exact hlinks
  · cases i with
    | zero =>
      obtain rfl : engine = found := by simpa [ofEngine] using hfound
      obtain rfl : later = next := by simpa [ofEngine] using hnext
      exact hcounted
    | succ i => simp [ofEngine] at hfound

/-! ### A flush that fails, one that does not, and a compaction -/

/-- The folder once a directory has the name of the next unfinished file. -/
def obstruct (files : FileSystem) : FileSystem :=
  files.put (["store"] ++ [(StoreFile.unfinished 2).name]) .directory

/-- The engine when its flush has failed, and the failure waits to be told. -/
def refusedEngine : Engine :=
  { Engine.fillingEngine.retireActive with
    store := Engine.fillingEngine.store.advance
    sealed := [Engine.fillingEngine.active]
    flushResult := some (.error (.io .isADirectory)) }

/-- The engine with another value, to be flushed behind the first. -/
def retryingEngine : Engine :=
  { refusedEngine with
    active := ({} : Memtable).insert ⟨[97], some [49]⟩
    flushResult := none }

/-- The engine when both values have become segments. -/
def flushedEngine : Engine :=
  { retryingEngine.retireActive with
    store := retryingEngine.store.advance.advance
    segments := (retryingEngine.segments.insert (retryingEngine.store.savedByte 98 50)).insert
      (retryingEngine.store.advance.savedByte 97 49)
    sealed := []
    flushResult := some (.ok ()) }

theorem segments_flushedEngine : flushedEngine.segments.segments =
    [retryingEngine.store.advance.savedByte 97 49, retryingEngine.store.savedByte 98 50,
      Engine.valueSegment 1 99 51] := by
  have hfirst : (retryingEngine.segments.insert (retryingEngine.store.savedByte 98 50)).segments =
      [retryingEngine.store.savedByte 98 50, Engine.valueSegment 1 99 51] :=
    SegmentSet.segments_insert (by decide)
  exact hfirst ▸ SegmentSet.segments_insert (by rw [hfirst]; decide)

theorem entries_flushedEngine : flushedEngine.segments.entries =
    [⟨[97], some [49]⟩, ⟨[98], some [50]⟩, ⟨[99], some [51]⟩] := by
  simp [SegmentSet.entries, segments_flushedEngine]

/-- The folder opens, and then the name is free for the directory. -/
theorem stores_obstruct :
    ∃ loaded, Engine.load Engine.storeSettings Engine.seededFiles = (.ok .seededEngine, loaded) ∧
      loaded.Plain ["store"] ∧ loaded.Unlinked ["", "store"] ∧
      (obstruct loaded).Stores ["", "store"] ["store"] [Engine.valueSegment 1 99 51] := by
  obtain ⟨loaded, hload, hcleared⟩ := Engine.load_seededFiles
  obtain ⟨-, -, -, -, -, hstores⟩ := Engine.spec_of_load Engine.folder_storeSettings
    Engine.stores_seededFiles.directory Engine.stores_seededFiles.wellFormed hload
  have hplain := Engine.plain_seededFiles.of_within hcleared.within
  have hfree : loaded.node? (["store"] ++ [(StoreFile.unfinished 2).name]) = none := by
    by_contra hthere
    obtain ⟨node, hnode⟩ := Option.ne_none_iff_exists'.mp hthere
    have hbefore := (hcleared.of_some hnode).2
    simp [Engine.seededFiles, FileSystem.node?_put, FileSystem.node?_ofFolder,
      StoreFile.name_inj] at hbefore
  exact ⟨loaded, hload, hplain, hplain.linkFree.unlinked hstores.directory,
    hstores.put_directory (StoreFile.utf8ByteSize_name_le _) hfree⟩

/-- The first flush fails. -/
theorem flush_fillingEngine {files : FileSystem}
    (hfolder : files.directoryAt ["", "store"] = .ok ["store"])
    (hdirectory : files.node? (["store"] ++ [(StoreFile.unfinished 2).name]) = some .directory) :
    Engine.fillingEngine.answer files .flush = (.done, refusedEngine, files) := by
  have hfails : Engine.fillingEngine.store.save Engine.fillingEngine.active.entries files =
      (.error (.io .isADirectory), Engine.fillingEngine.store.advance, files) :=
    Store.save_directory hfolder hdirectory (by decide)
  have hflush := @Engine.flush_eq_of_error Engine.fillingEngine _ _ rfl rfl (by decide) _ _ rfl _ _
    hfails
  rw [Engine.answer, hflush]
  rfl

/-- The second flush writes both values, and the three segments are merged. -/
theorem compact_flushedEngine {files : FileSystem}
    (hstores : files.Stores ["", "store"] ["store"] [Engine.valueSegment 1 99 51])
    (hlinks : files.LinkFree ["store"])
    (honly : ∀ file : StoreFile, files.node? (["store"] ++ [file.name]) = some .directory →
      file = .unfinished 2) :
    ∃ (flushedFiles mergedFiles : FileSystem) (set : SegmentSet),
      retryingEngine.answer files .flush = (.done, flushedEngine, flushedFiles) ∧
      flushedFiles.Unlinked ["", "store"] ∧
      flushedEngine.answer flushedFiles .compact =
        (.done, flushedEngine.afterMerge set, mergedFiles) ∧ set.size = 1 := by
  obtain ⟨between, flushedFiles, hfirst, hsecond, hflushed, hwithin⟩ := @Store.save_twice
    retryingEngine.store files ["store"] _ _ _ hstores hlinks (by decide) (by decide)
    (fun file hfile hnode => by
      obtain rfl := honly _ hnode
      revert hfile
      decide)
    (Store.table_byte 98 50) (Store.table_byte 97 49) (by simp) (by simp)
  have hflush := @Engine.flush_eq_of_saves retryingEngine _ _ rfl rfl Engine.fillingEngine.active rfl
    (by decide) _ _ _ _ _ hfirst hsecond
  have hflushed' : flushedFiles.Stores flushedEngine.store.folder ["store"]
      flushedEngine.segments.segments := segments_flushedEngine ▸ hflushed
  have htable : Segment.Table flushedEngine.segments.entries := by
    rw [entries_flushedEngine]
    exact ⟨by simp only [Entry.Ascending]; decide, by decide⟩
  obtain ⟨set, mergedFiles, hcompact, hsize, -⟩ := @Engine.compact_ascending flushedEngine
    flushedFiles ["store"] rfl (by decide) hflushed' (hlinks.of_within hwithin)
    (by simp [segments_flushedEngine]; decide)
    (fun file hfile hnode => by
      obtain rfl := honly _ (hwithin _ _ rfl hnode)
      revert hfile
      decide)
    htable (by simp [entries_flushedEngine]) (by simp [entries_flushedEngine]; decide)
  refine ⟨flushedFiles, mergedFiles, set, ?_, (hlinks.of_within hwithin).unlinked hflushed.directory,
    ?_, hsize⟩
  · rw [Engine.answer, hflush]
    rfl
  · rw [Engine.answer, hcompact]
    rfl

/-- A value that a segment holds, one whose flush failed at first, and one that was written later are
all found when the three segments have been merged. -/
theorem shows_written_value :
    ∃ loaded refused told retrying flushed merged engine,
      ({ files := Engine.seededFiles } : Session).openEngine "db" Engine.storeSettings =
        (.ok (), ofEngine loaded "db" .seededEngine) ∧
      (ofEngine loaded "db" .seededEngine).request "db" (.put ⟨[98], some [50]⟩) =
        some (.done, ofEngine loaded "db" .fillingEngine) ∧
      (ofEngine (obstruct loaded) "db" .fillingEngine).request "db" .flush = some (.done, refused) ∧
      refused.request "db" .awaitFlush = some (.failed (.io .isADirectory), told) ∧
      told.request "db" (.put ⟨[97], some [49]⟩) = some (.done, retrying) ∧
      retrying.request "db" .flush = some (.done, flushed) ∧
      flushed.request "db" .compact = some (.done, merged) ∧
      merged.engineOf? "db" = some engine ∧ engine.countSegments = 1 ∧
      engine.lookup [97] = .ok (some ⟨[97], some [49]⟩) ∧
      engine.lookup [98] = .ok (some ⟨[98], some [50]⟩) ∧
      engine.lookup [99] = .ok (some ⟨[99], some [51]⟩) := by
  obtain ⟨loaded, hload, hplain, hunlinked, hstores⟩ := stores_obstruct
  have hlinks : (obstruct loaded).LinkFree ["store"] := hplain.linkFree.put_directory _
  have hobstructed := hlinks.unlinked hstores.directory
  obtain ⟨flushedFiles, mergedFiles, set, hflush, hflushed, hcompact, hsize⟩ :=
    compact_flushedEngine hstores hlinks fun file => hplain.eq_of_directory
  -- every answer, in a run
  have hput : Engine.seededEngine.answer loaded (.put ⟨[98], some [50]⟩) =
      (.done, .fillingEngine, loaded) := rfl
  have hrefused := flush_fillingEngine hstores.directory (FileSystem.node?_put_self _ _ (by simp))
  have htold : refusedEngine.answer (obstruct loaded) .awaitFlush =
      (.failed (.io .isADirectory), { refusedEngine with flushResult := none }, obstruct loaded) := rfl
  have hput' : ({ refusedEngine with flushResult := none } : Engine).answer (obstruct loaded)
      (.put ⟨[97], some [49]⟩) = (.done, retryingEngine, obstruct loaded) := rfl
  have hopen := openEngine_of_load hload "db"
  obtain ⟨segments, hfiled, hmirrors, hruns⟩ := shows_of_reaches Engine.folder_storeSettings
    Engine.stores_seededFiles.directory Engine.stores_seededFiles.wellFormed hopen
  obtain rfl := Engine.stores_seededFiles.unique hfiled hmirrors
  have hkeeps : ∀ entry, (Request.put entry).KeepsOpen := fun _ => trivial
  have hkeeps' : Request.flush.KeepsOpen ∧ Request.awaitFlush.KeepsOpen ∧ Request.compact.KeepsOpen :=
    ⟨trivial, trivial, trivial⟩
  have hcounted : flushedEngine.store.counter.next ≤ flushedEngine.store.advance.counter.next := by
    decide
  have hfilled : Reaches (ofEngine loaded "db" .seededEngine)
      (.ofSegments [Engine.valueSegment 1 99 51]) (ofEngine loaded "db" .fillingEngine)
      Engine.filled :=
    Reaches.start.answer (hkeeps _) hput hunlinked (UInt64.le_refl _)
  have hrun := (((((hfilled.outside (obstruct loaded)).answer hkeeps'.1 hrefused hobstructed
    (by decide)).answer hkeeps'.2.1 htold hobstructed (UInt64.le_refl _)).answer (hkeeps _) hput'
    hobstructed (UInt64.le_refl _)).answer hkeeps'.1 hflush hobstructed (by decide)).answer
    hkeeps'.2.2 hcompact hflushed hcounted
  have hshows := (hruns _ _ hrun).2 "db" (flushedEngine.afterMerge set) rfl
  refine ⟨loaded, _, _, _, _, _, flushedEngine.afterMerge set, hopen, request_ofEngine hput "db",
    request_ofEngine hrefused "db", request_ofEngine htold "db", request_ofEngine hput' "db",
    request_ofEngine hflush "db", request_ofEngine hcompact "db", rfl, hsize, hshows.lookup [97],
    hshows.lookup [98], ?_⟩
  have hseed : Contents.ofSegments [Engine.valueSegment 1 99 51] [99] = some [51] := by
    rw [Contents.ofSegments, List.flatMap_singleton, Engine.entries_valueSegment]
    rfl
  rw [hshows.lookup [99]]
  simp [Contents.live?, Contents.after, Contents.write, Engine.filled, hseed]

end LsmTree.Session
