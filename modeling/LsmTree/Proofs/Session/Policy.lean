import LsmTree.Proofs.Engine.Policy
import LsmTree.Proofs.Session.Events
import LsmTree.Proofs.Store.Commute

/-!
# Proofs/Session/Policy — the policy makes no difference

Take any sequence of things that happen: engines that are opened, requests, handles, views, changes
that others make to the files.  Under one policy it takes the session just where it takes it under the
other, with the same things told on the way: `oncePerFlush` never forbids a compaction that would do
anything (`Session.under_iff`).
-/

namespace LsmTree.Session

/-! ## Sessions that differ in the policies of their engines -/

/-- The session with another policy of all engines. -/
def withPolicy (session : Session) (policy : CompactionPolicy) : Session :=
  { session with engines := session.engines.map (·.withPolicy policy) }

/-- An engine that was compacted since the last flush has one segment at most. -/
def Gated (session : Session) : Prop := ∀ engine ∈ session.engines, engine.Gated

variable {session after : Session} {policy : CompactionPolicy}

@[simp] theorem files_withPolicy (session : Session) :
    (session.withPolicy policy).files = session.files := rfl

@[simp] theorem handles_withPolicy (session : Session) :
    (session.withPolicy policy).handles = session.handles := rfl

@[simp] theorem snapshots_withPolicy (session : Session) :
    (session.withPolicy policy).snapshots = session.snapshots := rfl

@[simp] theorem iterators_withPolicy (session : Session) :
    (session.withPolicy policy).iterators = session.iterators := rfl

theorem getElem?_withPolicy (session : Session) (index : Nat) :
    (session.withPolicy policy).engines[index]? =
      session.engines[index]?.map (·.withPolicy policy) := by
  simp [withPolicy]

/-- An engine changes along with the engine of the other policy. -/
theorem setIfInBounds_withPolicy (session : Session) (index : Nat) (engine : Engine)
    (files : FileSystem) :
    withPolicy { session with files, engines := session.engines.setIfInBounds index engine } policy =
      { session.withPolicy policy with
        files
        engines := (session.withPolicy policy).engines.setIfInBounds index
          (engine.withPolicy policy) } := by
  simp [withPolicy, Array.map_setIfInBounds]

theorem Gated.setIfInBounds (h : session.Gated) {engine : Engine} (hengine : engine.Gated)
    (index : Nat) (files : FileSystem) :
    Gated { session with files, engines := session.engines.setIfInBounds index engine } := by
  intro other hother
  rcases Array.mem_or_eq_of_mem_setIfInBounds hother with hmem | rfl
  · exact h other hmem
  · exact hengine

theorem Gated.congr (h : session.Gated) (hengines : after.engines = session.engines) :
    after.Gated := fun engine hengine => h engine (hengines ▸ hengine)

/-! ## Handles -/

theorem release_withPolicy (session : Session) (index : Nat) :
    (session.withPolicy policy).release index = (session.release index).withPolicy policy := by
  unfold release
  rw [handles_withPolicy, getElem?_withPolicy]
  split_ifs
  · rfl
  · cases hengine : session.engines[index]? with
    | none => rfl
    | some engine =>
      simp only [Option.map_some, Engine.close_withPolicy, Engine.under]
      exact (setIfInBounds_withPolicy session index _ _).symm

theorem Gated.release (h : session.Gated) (index : Nat) : (session.release index).Gated := by
  unfold Session.release
  split
  · exact h
  split
  · exact h
  · rename_i engine hengine
    have hclosed := (h engine (Array.mem_of_getElem? hengine)).close session.files
    exact h.setIfInBounds hclosed index _

theorem drop_withPolicy (session : Session) (handle : String) :
    (session.withPolicy policy).drop handle = (session.drop handle).withPolicy policy := by
  unfold drop
  rw [handles_withPolicy]
  cases session.handles.lookup handle with
  | none => rfl
  | some index =>
    exact release_withPolicy
      { session with handles := session.handles.filter (·.1 ≠ handle) } index

theorem Gated.drop (h : session.Gated) (handle : String) : (session.drop handle).Gated := by
  unfold Session.drop
  split
  · exact h
  · have hfewer : Gated { session with handles := session.handles.filter (·.1 ≠ handle) } :=
      h.congr rfl
    exact hfewer.release _

/-- **An engine is opened in the same way.** -/
theorem openEngine_withPolicy (session : Session) (handle : String) (settings : Settings) :
    (session.withPolicy policy).openEngine handle { settings with policy } =
      ((session.openEngine handle settings).1,
        (session.openEngine handle settings).2.withPolicy policy) := by
  have hload := @Engine.load_withPolicy policy settings (session.drop handle).files
  unfold openEngine
  dsimp only
  rw [drop_withPolicy, files_withPolicy, hload]
  rcases Engine.load settings (session.drop handle).files with ⟨_ | engine, files⟩
  · rfl
  · simp [withPolicy, Array.map_push, Functor.map, Except.map]

theorem Gated.openEngine (h : session.Gated) (handle : String) (settings : Settings) :
    (session.openEngine handle settings).2.Gated := by
  have hdrop := h.drop handle
  unfold Session.openEngine
  dsimp only
  split
  · exact hdrop.congr rfl
  · rename_i engine files hload
    intro other hother
    rcases Array.mem_push.mp hother with hmem | rfl
    · exact hdrop other hmem
    · exact Engine.gated_of_load hload

/-! ## Events -/

/-- **A request is answered in the same way.** -/
theorem request_withPolicy (h : session.Gated) {name : String} {r : Request} {reply : Reply}
    (hrequest : session.request name r = some (reply, after)) :
    (session.withPolicy policy).request name r = some (reply, after.withPolicy policy) ∧
      after.Gated := by
  unfold Session.request at hrequest
  obtain ⟨index, hlookup, hrequest⟩ := Option.bind_eq_some_iff.mp hrequest
  obtain ⟨engine, hget, hrequest⟩ := Option.bind_eq_some_iff.mp hrequest
  have hengine := h engine (Array.mem_of_getElem? hget)
  have hkeeps := hengine.answer session.files r
  have hsame := @Engine.answer_withPolicy engine policy hengine session.files r
  rcases hanswer : engine.answer session.files r with ⟨told, later, files⟩
  rw [hanswer] at hrequest hkeeps hsame
  obtain ⟨rfl, rfl⟩ : told = reply ∧ _ = after := by simpa using hrequest
  have hget' : (session.withPolicy policy).engines[index]? = some (engine.withPolicy policy) := by
    rw [getElem?_withPolicy, hget, Option.map_some]
  refine ⟨?_, h.setIfInBounds hkeeps index files⟩
  rw [setIfInBounds_withPolicy]
  simp [Session.request, hlookup, hget', hsame, Engine.under]

/-- An iterator goes on in the same way. -/
theorem take_withPolicy (session : Session) (iterator : String) (n : Nat) :
    (session.withPolicy policy).take iterator n =
      (session.take iterator n).map fun (items, after) => (items, after.withPolicy policy) := by
  unfold take
  rw [iterators_withPolicy]
  cases session.iterators.lookup iterator with
  | none => rfl
  | some held =>
    simp only [Option.bind_eq_bind, Option.bind_some, getElem?_withPolicy]
    cases session.engines[held.engine]? <;> rfl

theorem clone_withPolicy (session : Session) (handle copy : String) :
    (session.withPolicy policy).clone handle copy =
      (session.clone handle copy).map (·.withPolicy policy) := by
  unfold clone
  rw [handles_withPolicy]
  cases session.handles.lookup handle with
  | none => rfl
  | some index =>
    cases session.handles.lookup copy with
    | none => rfl
    | some previous =>
      exact congrArg some (release_withPolicy
        { session with handles := assign copy index session.handles } previous)

theorem Gated.clone (h : session.Gated) {handle copy : String}
    (hclone : session.clone handle copy = some after) : after.Gated := by
  unfold Session.clone at hclone
  obtain ⟨index, -, hclone⟩ := Option.bind_eq_some_iff.mp hclone
  have hshared : Gated { session with handles := assign copy index session.handles } := h.congr rfl
  dsimp only at hclone
  split at hclone
  · obtain rfl := Option.some.inj hclone
    exact hshared
  · obtain rfl := Option.some.inj hclone
    exact hshared.release _

theorem hold_withPolicy (session : Session) (handle name : String) (start stop : Bound) :
    (session.withPolicy policy).hold handle name start stop =
      (session.hold handle name start stop).map fun (result, after) =>
        (result, after.withPolicy policy) := by
  unfold hold
  rw [handles_withPolicy]
  cases session.handles.lookup handle with
  | none => rfl
  | some index =>
    simp only [Option.bind_eq_bind, Option.bind_some, getElem?_withPolicy]
    cases session.engines[index]? with
    | none => rfl
    | some engine =>
      simp only [Option.map_some, Option.bind_some]
      have hsnapshot : (engine.withPolicy policy).snapshot (.between start stop) =
          engine.snapshot (.between start stop) := rfl
      rw [hsnapshot]
      cases engine.snapshot (.between start stop) <;> rfl

/-- **An event happens in the same way**, whatever the policy. -/
theorem Step.withPolicy {event : Event} (h : session.Gated) (hstep : session.Step after event) :
    (session.withPolicy policy).Step (after.withPolicy policy) event ∧ after.Gated := by
  cases event with
  | request name r reply => exact request_withPolicy h hstep
  | clone name copy =>
    refine ⟨?_, h.clone hstep⟩
    exact (clone_withPolicy session name copy).trans (congrArg _ hstep)
  | drop name =>
    obtain rfl : session.drop name = after := hstep
    exact ⟨drop_withPolicy session name, h.drop name⟩
  | hold name view start stop result =>
    refine ⟨(hold_withPolicy session name view start stop).trans (congrArg _ hstep), ?_⟩
    rcases hold_spec hstep with ⟨-, -, rfl⟩ | ⟨-, -, -, -, -, -, -, rfl⟩
    · exact h
    · exact h.congr rfl
  | iterate view iterator =>
    obtain ⟨held, hheld, rfl⟩ := iterate_spec hstep
    refine ⟨?_, h.congr rfl⟩
    change (session.withPolicy policy).iterate view iterator = _
    rw [Session.iterate, snapshots_withPolicy, hheld]
    rfl
  | take iterator n items =>
    refine ⟨(take_withPolicy session iterator n).trans (congrArg _ hstep), ?_⟩
    obtain ⟨-, -, -, -, -, -, rfl⟩ := take_spec hstep
    exact h.congr rfl
  | outside files =>
    obtain rfl : { session with files } = after := hstep
    exact ⟨rfl, h.congr rfl⟩

/-! ## Runs -/

/-- One thing that happens: an engine is opened, or an event. -/
inductive Act where
  | opens (handle : String) (settings : Settings) (result : Except Error Unit)
  | event (event : Event)

/-- The act takes one session to the other.  Engines get the given policy, whatever their settings
ask for. -/
def Acts (policy : CompactionPolicy) (session after : Session) : Act → Prop
  | .opens handle settings result =>
    session.openEngine handle { settings with policy } = (result, after)
  | .event event => session.Step after event

/-- The acts happen one after the other, and what they told is what is told. -/
inductive Under (policy : CompactionPolicy) : Session → List Act → Session → Prop
  | done (session : Session) : Under policy session [] session
  | act {session between after : Session} {act : Act} {acts : List Act}
      (hact : session.Acts policy between act) (h : Under policy between acts after) :
      Under policy session (act :: acts) after

variable {other : CompactionPolicy} {start : Session} {act : Act} {acts : List Act}

/-- What is told fixes what becomes of the session. -/
theorem Step.unique {later : Session} {event : Event} (h : session.Step after event)
    (h' : session.Step later event) : after = later := by
  cases event with
  | request | hold | take => exact (Prod.mk.inj (Option.some.inj (h.symm.trans h'))).2
  | clone | iterate => exact Option.some.inj (h.symm.trans h')
  | drop | outside => exact h.symm.trans h'

theorem Acts.unique {later : Session} (h : session.Acts policy after act)
    (h' : session.Acts policy later act) : after = later := by
  cases act with
  | opens handle settings result => exact (Prod.mk.inj (h.symm.trans h')).2
  | event event => exact Step.unique h h'

theorem Under.unique (h : Under policy start acts session) (h' : Under policy start acts after) :
    session = after := by
  induction h with
  | done =>
    cases h'
    rfl
  | act hact _ ih =>
    cases h' with
    | act hact' h' =>
      obtain rfl := hact.unique hact'
      exact ih h'

/-- **An act happens in the same way**, whatever the policy. -/
theorem Acts.withPolicy (h : session.Gated) (hact : session.Acts policy after act) :
    (session.withPolicy other).Acts other (after.withPolicy other) act ∧ after.Gated := by
  cases act with
  | opens handle settings result =>
    have hopen : session.openEngine handle { settings with policy } = (result, after) := hact
    have hsame := @openEngine_withPolicy other session handle { settings with policy }
    have hgated := h.openEngine handle { settings with policy }
    rw [hopen] at hsame hgated
    exact ⟨hsame, hgated⟩
  | event event => exact Step.withPolicy h hact

/-- **A run goes the same way**, whatever the policy, and keeps the gate. -/
theorem Under.withPolicy (hstart : start.Gated) (h : Under policy start acts session) :
    Under other (start.withPolicy other) acts (session.withPolicy other) ∧ session.Gated := by
  induction h with
  | done session => exact ⟨.done _, hstart⟩
  | act hact _ ih =>
    obtain ⟨hsame, hbetween⟩ := Acts.withPolicy hstart hact
    obtain ⟨hrest, hafter⟩ := ih hbetween
    exact ⟨.act hsame hrest, hafter⟩

/-- **The policy makes no difference.**  Where some acts take a session without engines under one
policy, there they take it under any other, but for the policies of its engines; and every engine that
was compacted since the last flush has one segment at most. -/
theorem under_iff {fs : FileSystem} (h : Under policy { files := fs } acts session)
    (other : CompactionPolicy) :
    (∀ after, Under other { files := fs } acts after ↔ after = session.withPolicy other) ∧
      ∀ engine ∈ session.engines, engine.freshlyCompacted = true → engine.countSegments ≤ 1 := by
  have hstart : Gated { files := fs } := fun engine hengine => by simp at hengine
  have hempty : ({ files := fs } : Session).withPolicy other = { files := fs } := by
    simp [Session.withPolicy]
  obtain ⟨hsame, hgated⟩ := @Under.withPolicy _ _ other _ _ hstart h
  rw [hempty] at hsame
  refine ⟨fun after => ⟨fun hafter => hafter.unique hsame, ?_⟩, fun engine hengine hfresh =>
    Nat.le_of_lt_succ (hgated engine hengine hfresh)⟩
  rintro rfl
  exact hsame

/-! ## Two compactions in a row

Two segments with one value of one key.  They are merged, and then a second compaction is asked for,
which the policy forbids. -/

theorem descending_pair : [Engine.valueSegment 2 97 49, Engine.valueSegment 1 97 49].Pairwise
    (fun a b => b.priority < a.priority) := by
  simp [Engine.valueSegment]

/-- The set of the two. -/
def pairSet : SegmentSet := ⟨_, descending_pair.imp UInt64.le_of_lt⟩

theorem stores_pairSet : Store.pairFiles.Stores ["", "store"] ["store"] pairSet.segments where
  filed := ⟨by simp [pairSet, Engine.valueSegment, Segment.intact_ofTable],
    by simp [pairSet, Engine.valueSegment], descending_pair⟩
  directory := (FileSystem.directoryAt_blank _ _).trans Store.stores_pairFiles.directory
  mirrors name image priority hname := by
    rw [Store.stores_pairFiles.mirrors name image priority hname]
    simp [pairSet, Engine.valueSegment, Store.blockedInputs, Store.singleSegment]
  short := Store.stores_pairFiles.short

/-- The engine on the folder. -/
def pairEngine : Engine :=
  { settings := Engine.storeSettings, store := ⟨["", "store"], ⟨3⟩⟩, segments := pairSet }

theorem lists_pairSet : pairSet.contents.Lists [⟨[97], some [49]⟩] := by
  have hcontents : pairSet.contents = Store.blockedInputs.contents := by
    simp [SegmentSet.contents, Contents.ofSegments, pairSet, Engine.valueSegment, Store.blockedInputs,
      Store.singleSegment]
  exact hcontents ▸ Store.lists_blockedInputs

/-- The two segments are merged, and that is remembered. -/
theorem compact_pairEngine :
    ∃ loaded merged later, Engine.load Engine.storeSettings Store.pairFiles =
        (.ok pairEngine, loaded) ∧
      pairEngine.compact loaded = (.ok (), merged, later) ∧ merged.freshlyCompacted = true ∧
      merged.settings = Engine.storeSettings ∧ merged.closed = false := by
  obtain ⟨loaded, hload, hcleared⟩ := Engine.load_of_stores Engine.folder_storeSettings pairSet
    stores_pairSet
  have hopen : Engine.load Engine.storeSettings Store.pairFiles = (.ok pairEngine, loaded) := hload
  obtain ⟨-, -, -, howns, -, hstores⟩ := Engine.spec_of_load Engine.folder_storeSettings
    stores_pairSet.directory stores_pairSet.wellFormed hopen
  have hintact : pairSet.Intact := stores_pairSet.filed.intact
  obtain ⟨live, hentries, hlive⟩ := hintact.liveEntries
  obtain rfl := hlive.unique lists_pairSet
  obtain ⟨output, later, hcompact, -⟩ := @Store.compact_plain pairEngine.store loaded ["store"]
    pairSet [] _ hstores (Store.plain_pairFiles.of_within hcleared.within) howns.below (by decide)
    hentries hlive.ascending (Store.table_byte 97 49).fits
  have hstarted := @Engine.compact_of_compact pairEngine _ _ rfl (by decide) _ _ hcompact
  exact ⟨loaded, _, later, hopen, hstarted, rfl, rfl, rfl⟩

/-- The second compaction does nothing under either policy, since only one segment is left. -/
theorem under_compacted_twice :
    ∃ session : Session,
      (∃ engine ∈ session.engines, engine.freshlyCompacted = true ∧ engine.countSegments ≤ 1) ∧
      ∀ policy, Under policy { files := Store.pairFiles }
        [.opens "db" Engine.storeSettings (.ok ()), .event (.request "db" .compact .done),
          .event (.request "db" .compact .done)] (session.withPolicy policy) := by
  obtain ⟨loaded, merged, later, hload, hcompact, hfresh, hsettings, hclosed⟩ := compact_pairEngine
  have hagain : merged.compact later = (.ok (), merged, later) := by
    rw [Engine.compact, if_neg (by simp [hclosed]), if_pos]
    simp [Engine.compactionAllowed, hfresh, hsettings, Engine.storeSettings]
  have hfirst : pairEngine.answer loaded .compact = (.done, merged, later) := by
    rw [Engine.answer, hcompact]
    rfl
  have hsecond : merged.answer later .compact = (.done, merged, later) := by
    rw [Engine.answer, hagain]
    rfl
  have hmerged : merged ∈ (ofEngine later "db" merged).engines := Array.mem_singleton.mpr rfl
  have hrun : Under .oncePerFlush { files := Store.pairFiles }
      [.opens "db" Engine.storeSettings (.ok ()), .event (.request "db" .compact .done),
        .event (.request "db" .compact .done)] (ofEngine later "db" merged) :=
    .act (openEngine_of_load hload "db") (.act (request_ofEngine hfirst "db")
      (.act (request_ofEngine hsecond "db") (.done _)))
  have hboth := under_iff hrun
  exact ⟨_, ⟨merged, hmerged, hfresh, (hboth .always).2 merged hmerged hfresh⟩,
    fun policy => ((hboth policy).1 _).mpr rfl⟩

end LsmTree.Session
