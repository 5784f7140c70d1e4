import LsmTree.Proofs.Engine.Readers
import LsmTree.Proofs.Engine.Views
import LsmTree.Proofs.Session.Events

/-!
# Proofs/Session/Views — a view that is held

A scan of a view that is held tells what was written by then, as long as the memtable that was
active when the view was taken is active still.  Once that memtable is retired, **every scan of the
view tells what was written before**, whatever happens to the engine and to the files.  An iterator
that is started then reads on in the memtables and segments at every step, and tells the same items
piece by piece, since nothing that it reads changes any more (`Session.scans_of_hold`).
-/

namespace LsmTree.Session

variable {session after held later started reading : Session} {engine next : Engine}
  {view : Snapshot} {reader : Reader} {event : Event} {events : List Event} {name handle iterator : String}
  {lower upper : Bound} {m now : Contents}

/-! ## Runs with a view -/

/-- A request is plain and finds what it takes for granted. -/
def Allows (session : Session) (event : Event) (after : Session) : Prop :=
  match event with
  | .request _ r _ => r.Plain ∧ session.Fair after
  | _ => True

/-- A request is plain. -/
def Event.Plain : Event → Prop
  | .request _ r _ => r.Plain
  | _ => True

/-- No other view is held under the name. -/
def Event.Spares (name : String) : Event → Prop
  | .hold _ other _ _ _ => other ≠ name
  | _ => True

/-- No other iterator is started under the name. -/
def Event.Leaves (iterator : String) : Event → Prop
  | .iterate _ other => other ≠ iterator
  | _ => True

/-- The number of items that an event asks an iterator for. -/
def Event.asked (iterator : String) : Event → Nat
  | .take other n _ => if other = iterator then n else 0
  | _ => 0

/-- The items that an event takes from an iterator. -/
def Event.told (iterator : String) : Event → List Item
  | .take other _ items => if other = iterator then items else []
  | _ => []

/-- The number of items that events ask an iterator for. -/
def asked (iterator : String) (events : List Event) : Nat :=
  events.foldl (fun n event => n + event.asked iterator) 0

/-- The items that events take from an iterator. -/
def told (iterator : String) (events : List Event) : List Item :=
  events.flatMap (Event.told iterator)

/-- The contents after some events. -/
def written (m : Contents) (events : List Event) : Contents := events.foldl Event.write m

theorem written_concat (m : Contents) (events : List Event) (event : Event) :
    written m (events ++ [event]) = event.write (written m events) := by
  simp [written]

/-- The memtable that was active when the view was taken is active still. -/
def Follows (session : Session) (name : String) : Prop :=
  ∃ held engine, session.snapshots.lookup name = some held ∧
    session.engines[held.engine]? = some engine ∧ held.snapshot.Follows engine

/-- A scan of the view lists the contents between the bounds. -/
def Scans (session : Session) (name : String) (lower upper : Bound) (m : Contents) : Prop :=
  ∃ live, m.Lists live ∧ session.scan name =
    some ((live.filter fun entry => (Interval.between lower upper).contains entry.key).map .ok)

/-- What happens while the view is held under the name. -/
abbrev Keeping (name : String) : Session → List Event → Session → Prop :=
  Runs fun _ event _ => event.Plain ∧ event.Spares name

/-- From now on, whatever happens, every scan of the view lists the contents between the bounds.  An
iterator over it can be started at any time.  Whatever happens between its steps, it has told as many
of the items of the scan as it was asked for, in their order, and it goes on with the next ones. -/
def Stable (session : Session) (name : String) (lower upper : Bound) (m : Contents) : Prop :=
  ∀ events later, Runs (fun _ event _ => event.Spares name) session events later →
    ¬ later.Follows name ∧ later.Scans name lower upper m ∧
      ∀ iterator, ∃ items started, later.scan name = some items ∧
        later.iterate name iterator = some started ∧
        ∀ takes reading, Runs (fun _ event _ => event.Leaves iterator) started takes reading →
          told iterator takes = items.take (asked iterator takes) ∧
            ∀ n, ∃ after, reading.take iterator n =
              some ((items.drop (asked iterator takes)).take n, after)

/-! ## What is held -/

theorem release_spec (session : Session) (index : Nat) :
    ∃ files engines, session.release index = { session with files, engines } := by
  unfold release
  split
  · exact ⟨_, _, rfl⟩
  · split <;> exact ⟨_, _, rfl⟩

theorem drop_spec (session : Session) (name : String) :
    ∃ files engines handles, session.drop name = { session with files, engines, handles } := by
  unfold Session.drop
  split
  · exact ⟨_, _, _, rfl⟩
  · rename_i index _
    obtain ⟨files, engines, hrelease⟩ :=
      release_spec { session with handles := session.handles.filter (·.1 ≠ name) } index
    exact ⟨files, engines, _, hrelease⟩

theorem clone_spec {copy : String} (hclone : session.clone name copy = some after) :
    ∃ files engines handles, after = { session with files, engines, handles } := by
  unfold Session.clone at hclone
  obtain ⟨index, -, hclone⟩ := Option.bind_eq_some_iff.mp hclone
  dsimp only at hclone
  split at hclone
  · exact ⟨_, _, _, (Option.some.inj hclone).symm⟩
  · rename_i previous _
    obtain ⟨files, engines, hrelease⟩ :=
      release_spec { session with handles := assign copy index session.handles } previous
    exact ⟨files, engines, _, (Option.some.inj hclone).symm.trans hrelease⟩

theorem request_spec {r : Request} {reply : Reply}
    (hrequest : session.request name r = some (reply, after)) :
    ∃ files engines, after = { session with files, engines } := by
  unfold Session.request at hrequest
  obtain ⟨index, -, hrequest⟩ := Option.bind_eq_some_iff.mp hrequest
  obtain ⟨engine, -, hrequest⟩ := Option.bind_eq_some_iff.mp hrequest
  exact ⟨_, _, (Prod.mk.inj (Option.some.inj hrequest)).2.symm⟩

/-- **A view stays under its name** until another takes its place. -/
theorem Step.lookup_view (hstep : session.Step after event) (hspares : event.Spares name) :
    after.snapshots.lookup name = session.snapshots.lookup name := by
  cases event with
  | request handle r reply =>
    obtain ⟨_, _, rfl⟩ := request_spec hstep
    rfl
  | clone handle copy =>
    obtain ⟨_, _, _, rfl⟩ := clone_spec hstep
    rfl
  | drop handle =>
    obtain ⟨_, _, _, hdrop⟩ := drop_spec session handle
    obtain rfl : session.drop handle = after := hstep
    rw [hdrop]
  | hold handle other start stop result =>
    rcases hold_spec hstep with ⟨-, -, rfl⟩ | ⟨_, _, _, -, -, -, -, rfl⟩
    · rfl
    · exact (lookup_assign _ _ _ _).trans (if_neg (Ne.symm hspares))
  | iterate other iterator =>
    obtain ⟨_, -, rfl⟩ := iterate_spec hstep
    rfl
  | take iterator n items =>
    obtain ⟨_, _, _, -, -, -, rfl⟩ := take_spec hstep
    rfl
  | outside files =>
    obtain rfl : { session with files } = after := hstep
    rfl

/-- **An iterator stays as it is** unless it is asked for items. -/
theorem Step.lookup_iterator (hstep : session.Step after event) (hleaves : event.Leaves iterator) :
    (after.iterators.lookup iterator = session.iterators.lookup iterator ∧
        event.asked iterator = 0 ∧ event.told iterator = []) ∨
      ∃ n items, event = .take iterator n items := by
  cases event with
  | request handle r reply =>
    obtain ⟨_, _, rfl⟩ := request_spec hstep
    exact .inl ⟨rfl, rfl, rfl⟩
  | clone handle copy =>
    obtain ⟨_, _, _, rfl⟩ := clone_spec hstep
    exact .inl ⟨rfl, rfl, rfl⟩
  | drop handle =>
    obtain ⟨_, _, _, hdrop⟩ := drop_spec session handle
    obtain rfl : session.drop handle = after := hstep
    exact .inl ⟨by rw [hdrop], rfl, rfl⟩
  | hold handle name start stop result =>
    rcases hold_spec hstep with ⟨-, -, rfl⟩ | ⟨_, _, _, -, -, -, -, rfl⟩
    all_goals exact .inl ⟨rfl, rfl, rfl⟩
  | iterate name other =>
    obtain ⟨_, -, rfl⟩ := iterate_spec hstep
    exact .inl ⟨(lookup_assign _ _ _ _).trans (if_neg (Ne.symm hleaves)), rfl, rfl⟩
  | take other n items =>
    by_cases hother : other = iterator
    · exact .inr ⟨n, items, by rw [hother]⟩
    · obtain ⟨_, _, _, -, -, -, rfl⟩ := take_spec hstep
      exact .inl ⟨(lookup_assign _ _ _ _).trans (if_neg (Ne.symm hother)), if_neg hother,
        if_neg hother⟩
  | outside files =>
    obtain rfl : { session with files } = after := hstep
    exact .inl ⟨rfl, rfl, rfl⟩

/-! ## A view of the only engine -/

/-- The engine is the only one, and the view is held under the name. -/
structure Holds (session : Session) (name : String) (view : Snapshot) (engine : Engine) : Prop where
  solo : session.Solo engine
  lookup_eq : session.snapshots.lookup name = some ⟨0, view⟩

theorem Holds.get_eq (h : session.Holds name view engine) : session.engines[0]? = some engine := by
  simp [h.solo.engines_eq]

theorem Holds.follows_iff (h : session.Holds name view engine) :
    session.Follows name ↔ view.Follows engine := by
  simp [Follows, h.lookup_eq, h.get_eq]

theorem Holds.scan_eq (h : session.Holds name view engine) :
    session.scan name = some (view.items engine) := by
  simp [scan, stream, h.lookup_eq, h.get_eq, Snapshot.items]

/-- **A scan of a view lists what its entries amount to.** -/
theorem Holds.scans (h : session.Holds name view engine) (hintact : view.segments.Intact)
    (hinterval : view.interval = .between lower upper) :
    session.Scans name lower upper (.ofEntries (view.entries engine)) := by
  obtain ⟨live, hlive⟩ := Snapshot.lists_entries hintact.readable engine
  refine ⟨live, hlive, ?_⟩
  rw [← hinterval, ← Snapshot.items_eq hintact.readable hlive]
  exact h.scan_eq

theorem Holds.step (h : session.Holds name view engine) (hspares : event.Spares name)
    (hstep : session.Step after event) :
    ∃ next, after.Holds name view next ∧ event.Moves engine session.files next after.files := by
  obtain ⟨next, hnext, hmoves⟩ := h.solo.step hstep
  exact ⟨next, ⟨hnext, (hstep.lookup_view hspares).trans h.lookup_eq⟩, hmoves⟩

/-- Only requests write. -/
theorem Event.write_eq (hrequest : ∀ name r reply, event ≠ .request name r reply) (m : Contents) :
    event.write m = m := by
  cases event with
  | request name r reply => exact absurd rfl (hrequest name r reply)
  | _ => rfl

/-- **A view that follows the engine has what an event writes**, or it is settled as it was. -/
theorem Event.Moves.follows {fs files : FileSystem} (h : event.Moves engine fs next files)
    (hplain : event.Plain) (hfollows : view.Follows engine) :
    (view.Follows next ∧ Contents.ofEntries (view.entries next) =
        event.write (.ofEntries (view.entries engine))) ∨
      view.Settled next ∧ view.entries next = view.entries engine := by
  cases h with
  | answers hanswer => exact hfollows.of_turns (Engine.answer_turns hplain hanswer)
  | closes hanswer =>
    have hclose : Request.close.Plain := trivial
    exact hfollows.of_turns (Engine.answer_turns hclose hanswer)
  | outside => exact .inl ⟨hfollows, rfl⟩
  | rests hrequest => exact .inl ⟨hfollows, (Event.write_eq hrequest _).symm⟩

/-- **No event changes a memtable that was retired.** -/
theorem Event.Moves.retires {fs files : FileSystem} (h : event.Moves engine fs next files) :
    engine.Retires next := by
  cases h with
  | answers hanswer => exact Engine.retires_answer hanswer
  | closes hanswer => exact Engine.retires_answer hanswer
  | outside => exact .refl engine
  | rests => exact .refl engine

/-- A view that has just been taken is held, and it follows the engine. -/
theorem Solo.hold (h : session.Solo engine)
    (hhold : session.hold handle name lower upper = some (.ok (), held)) :
    engine.closed = false ∧ held.Holds name (engine.viewOf (.between lower upper)) engine := by
  rcases hold_spec hhold with ⟨e, hresult, -⟩ | ⟨index, found, view, hlookup, hget, hview, -, rfl⟩
  · cases hresult
  · obtain rfl := h.index_eq hlookup
    obtain rfl : engine = found := by simpa [h.engines_eq] using hget
    have hopen : engine.closed = false := by
      by_contra hclosed
      simp [Engine.snapshot, Bool.of_not_eq_false hclosed] at hview
    obtain rfl : engine.viewOf (.between lower upper) = view := by
      simpa [Engine.snapshot_eq_viewOf hopen] using hview
    exact ⟨hopen, h.congr rfl rfl, by simp [lookup_assign]⟩

/-! ## An iterator over a settled view -/

/-- The engine is the only one, and the iterator reads a view of it that is settled. -/
structure Reads (session : Session) (iterator : String) (reader : Reader) (engine : Engine) : Prop where
  solo : session.Solo engine
  lookup_eq : session.iterators.lookup iterator = some ⟨0, reader⟩
  settled : reader.snapshot.Settled engine

/-- **An iterator can be started**, and has all items of the view left. -/
theorem Holds.iterate (h : session.Holds name view engine) (hsettled : view.Settled engine)
    (iterator : String) : ∃ started, session.iterate name iterator = some started ∧
      started.Reads iterator { snapshot := view } engine := by
  let started : Session := { session with
    iterators := assign iterator ⟨0, { snapshot := view }⟩ session.iterators }
  have hiterate : session.iterate name iterator = some started := by
    simp [Session.iterate, h.lookup_eq, started]
  exact ⟨started, hiterate, h.solo.congr rfl rfl, by simp [lookup_assign, started], hsettled⟩

/-- **An iterator goes on with the items that are left.** -/
theorem Reads.take (h : session.Reads iterator reader engine) (n : Nat) :
    ∃ after, session.take iterator n = some ((reader.leftIn engine).take n, after) := by
  obtain ⟨rest, htake, -⟩ := reader.take_eq (reader.snapshot.activeIn engine) n
  have hget : session.engines[0]? = some engine := by simp [h.solo.engines_eq]
  let after : Session := { session with
    iterators := assign iterator ⟨0, rest⟩ session.iterators }
  exact ⟨after, by simp [Session.take, h.lookup_eq, hget, htake, Reader.leftIn, after]⟩

/-- **What an event tells is taken off the items that are left**, and nothing else changes them. -/
theorem Reads.step (h : session.Reads iterator reader engine) (hleaves : event.Leaves iterator)
    (hstep : session.Step after event) :
    ∃ rest next, after.Reads iterator rest next ∧
      event.told iterator = (reader.leftIn engine).take (event.asked iterator) ∧
      rest.leftIn next = (reader.leftIn engine).drop (event.asked iterator) := by
  obtain ⟨next, hnext, hmoves⟩ := h.solo.step hstep
  obtain ⟨hsettled, hactive⟩ := h.settled.of_retires hmoves.retires
  rcases hstep.lookup_iterator hleaves with ⟨hsame, hasked, htold⟩ | ⟨n, items, rfl⟩
  · refine ⟨reader, next, ⟨hnext, hsame.trans h.lookup_eq, hsettled⟩, ?_, ?_⟩
    · rw [htold, hasked, List.take_zero]
    · rw [hasked, List.drop_zero, Reader.leftIn, hactive, Reader.leftIn]
  · obtain ⟨held, found, rest, hheld, hget, htake, rfl⟩ := take_spec hstep
    obtain rfl : (⟨0, reader⟩ : HeldReader) = held := Option.some.inj (h.lookup_eq.symm.trans hheld)
    obtain rfl : engine = found := by simpa [h.solo.engines_eq] using hget
    obtain ⟨last, htake', hsnapshot, hleft⟩ := reader.take_eq (reader.snapshot.activeIn engine) n
    obtain ⟨rfl, rfl⟩ := Prod.mk.inj (htake.symm.trans htake')
    refine ⟨rest, next, ⟨hnext, by simp [lookup_assign], hsnapshot ▸ hsettled⟩, ?_, ?_⟩
    · simp [Event.told, Event.asked, Reader.leftIn]
    · rw [Reader.leftIn, hsnapshot, hactive, hleft]
      simp [Event.asked, Reader.leftIn]

/-! ## Runs -/

/-- **While the engine is open it is sound**, whatever happened before. -/
theorem Solo.sound (h : session.Solo engine) (hsound : engine.closed = false → engine.Sound m)
    (hallows : session.Allows event after) (hstep : session.Step after event) :
    ∃ next, after.Solo next ∧ (next.closed = false → next.Sound (event.write m)) := by
  obtain ⟨next, hnext, hmoves⟩ := h.step hstep
  refine ⟨next, hnext, fun hopen => ?_⟩
  generalize after.files = files at hmoves
  cases hmoves with
  | answers hanswer =>
    obtain ⟨hplain, hfair⟩ := hallows
    obtain ⟨hbefore, hkeeps⟩ := Engine.isOpen_before hplain hanswer hopen
    exact (hsound hbefore).answer hkeeps (hfair.unlinked engine (by simp [h.engines_eq])) hanswer
      (hfair.counted 0 engine next (by simp [h.engines_eq]) (by simp [hnext.engines_eq]))
  | closes hanswer =>
    have hplain : Request.close.Plain := trivial
    exact (Engine.isOpen_before hplain hanswer hopen).2.elim
  | outside => exact hsound hopen
  | rests hrequest => exact (Event.write_eq hrequest m).symm ▸ hsound hopen

theorem sound_of_runs
    (hstart : ∃ engine, session.Solo engine ∧ (engine.closed = false → engine.Sound m))
    (h : Runs Allows session events later) :
    ∃ engine, later.Solo engine ∧ (engine.closed = false → engine.Sound (written m events)) := by
  induction h with
  | start => exact hstart
  | step _ hallows hstep ih =>
    obtain ⟨engine, hsolo, hsound⟩ := ih
    rw [written_concat]
    exact hsolo.sound hsound hallows hstep

theorem settled_of_runs (h : Runs (fun _ event _ => event.Spares name) after events later)
    (hholds : after.Holds name view engine) (hsettled : view.Settled engine) :
    ∃ next, later.Holds name view next ∧ view.Settled next ∧
      view.activeIn next = view.activeIn engine := by
  induction h with
  | start => exact ⟨engine, hholds, hsettled, rfl⟩
  | step _ hspares hstep ih =>
    obtain ⟨next, hnext, hstill, hactive⟩ := ih
    obtain ⟨last, hlast, hmoves⟩ := hnext.step hspares hstep
    obtain ⟨hsettled', hactive'⟩ := hstill.of_retires hmoves.retires
    exact ⟨last, hlast, hsettled', hactive'.trans hactive⟩

/-- **A view follows what is written until it is settled.** -/
theorem follows_of_runs (h : Keeping name held events later) (hholds : held.Holds name view engine)
    (hfollows : view.Follows engine) (hcontents : .ofEntries (view.entries engine) = now) :
    ∃ next, later.Holds name view next ∧
      ((view.Follows next ∧ .ofEntries (view.entries next) = written now events) ∨
        view.Settled next) := by
  induction h with
  | start => exact ⟨engine, hholds, .inl ⟨hfollows, hcontents⟩⟩
  | step _ hallowed hstep ih =>
    obtain ⟨hplain, hspares⟩ := hallowed
    obtain ⟨next, hnext, hview⟩ := ih
    obtain ⟨last, hlast, hmoves⟩ := hnext.step hspares hstep
    refine ⟨last, hlast, ?_⟩
    rcases hview with ⟨hfollows, hcontents⟩ | hsettled
    · rw [written_concat, ← hcontents]
      exact (hmoves.follows hplain hfollows).imp_right And.left
    · exact .inr (hsettled.of_retires hmoves.retires).1

/-- **A settled view is read in order**: what was told and what is left are the items that were left
at first, and the iterator has come as far as it was asked to. -/
theorem reads_of_runs (h : Runs (fun _ event _ => event.Leaves iterator) started events reading)
    (hreads : started.Reads iterator reader engine) :
    ∃ rest next, reading.Reads iterator rest next ∧
      told iterator events = (reader.leftIn engine).take (asked iterator events) ∧
      rest.leftIn next = (reader.leftIn engine).drop (asked iterator events) := by
  induction h with
  | start => exact ⟨reader, engine, hreads, rfl, rfl⟩
  | @step events _ _ event _ hleaves hstep ih =>
    obtain ⟨rest, next, hrest, htold, hleft⟩ := ih
    obtain ⟨last, final, hlast, hmore, hend⟩ := hrest.step hleaves hstep
    have hasked : asked iterator (events ++ [event]) =
        asked iterator events + event.asked iterator := by simp [asked]
    refine ⟨last, final, hlast, ?_, ?_⟩
    · rw [hasked, List.take_add, ← hleft, ← htold, ← hmore]
      simp [told]
    · rw [hend, hleft, List.drop_drop, hasked]

/-- **A settled view is stable**, whatever happens. -/
theorem Holds.stable (h : session.Holds name view engine) (hsettled : view.Settled engine)
    (hintact : view.segments.Intact) (hinterval : view.interval = .between lower upper) :
    session.Stable name lower upper (.ofEntries (view.entries engine)) := by
  intro events later hkeeping
  obtain ⟨next, hnext, hstill, hactive⟩ := settled_of_runs hkeeping h hsettled
  have hentries : view.entries next = view.entries engine := by
    rw [Snapshot.entries_eq, Snapshot.entries_eq, hactive]
  refine ⟨fun hfollows => hstill.not_follows (hnext.follows_iff.mp hfollows), ?_, fun iterator => ?_⟩
  · rw [← hentries]
    exact hnext.scans hintact hinterval
  obtain ⟨started, hiterate, hreads⟩ := hnext.iterate hstill iterator
  refine ⟨view.items next, started, hnext.scan_eq, hiterate, fun takes reading htakes => ?_⟩
  obtain ⟨rest, last, hrest, htold, hleft⟩ := reads_of_runs htakes hreads
  rw [Reader.leftIn_start] at htold hleft
  exact ⟨htold, fun n => hleft ▸ hrest.take n⟩

/-- **A view follows what is written, and then it is stable.**  In every state of a run the engine
shows what was written as long as it is open.  A view can be taken in any state with whole segments.
While the memtable that was active then is active still, a scan of the view tells what was written
by now.  The step that retires the memtable is the last that matters: from then on every scan tells
what was written before that step. -/
theorem scans_of_hold {settings : Settings} {fs : FileSystem} {folder : Path} {place : Place}
    {start : Session} (hsettings : settings.folder = .ok folder)
    (hfolder : fs.directoryAt folder = .ok place) (h : fs.WellFormed place)
    (hopen : ({ files := fs } : Session).openEngine handle settings = (.ok (), start)) :
    ∃ segments, Segment.Filed folder segments ∧ fs.Mirrors place segments ∧
      (∀ events session, Runs Allows start events session →
        ∃ engine, session.Solo engine ∧ (engine.closed = false →
          engine.segments.Intact ∧ engine.Shows (written (.ofSegments segments) events))) ∧
      ∀ (session : Session) (engine : Engine) (now : Contents), session.Solo engine →
        engine.segments.Intact → engine.Shows now → ∀ handle name lower upper held,
          session.hold handle name lower upper = some (.ok (), held) →
          held.Follows name ∧ ∀ events later, Keeping name held events later →
            later.Follows name → later.Scans name lower upper (written now events) ∧
              ∀ event after, event.Plain → event.Spares name → later.Step after event →
                ¬ after.Follows name → after.Stable name lower upper (written now events) := by
  obtain ⟨segments, hfiled, hmirrors, hstart⟩ := single_of_openEngine hsettings hfolder h hopen
  obtain ⟨opened, hopened, hloaded⟩ := hstart.engine
  refine ⟨segments, hfiled, hmirrors, fun events session hruns => ?_, ?_⟩
  · obtain ⟨engine, hsolo, hsound⟩ := sound_of_runs ⟨opened, hopened, fun _ => hloaded⟩ hruns
    exact ⟨engine, hsolo, fun hisOpen =>
      ⟨(hsound hisOpen).owns.filed.intact, (hsound hisOpen).shows⟩⟩
  intro session engine now hsolo hintact hshows handle name lower upper held hhold
  obtain ⟨hisOpen, hholds⟩ := hsolo.hold hhold
  have hfollows : (engine.viewOf (.between lower upper)).Follows engine := rfl
  have hcontents : .ofEntries ((engine.viewOf (.between lower upper)).entries engine) = now := by
    rw [Engine.entries_viewOf, hshows.unique (Engine.shows hisOpen hintact.readable)]
  refine ⟨hholds.follows_iff.mpr hfollows, fun events later hkeeping hlater => ?_⟩
  obtain ⟨next, hnext, hview⟩ := follows_of_runs hkeeping hholds hfollows hcontents
  obtain ⟨hstill, hseen⟩ := hview.resolve_right fun hsettled =>
    hsettled.not_follows (hnext.follows_iff.mp hlater)
  rw [← hseen]
  refine ⟨hnext.scans hintact rfl, fun event after hplain hspares hstep hretired => ?_⟩
  -- the step settles the view
  obtain ⟨turned, hturned, hmoves⟩ := hnext.step hspares hstep
  obtain ⟨hsettled, hentries⟩ := (hmoves.follows hplain hstill).resolve_left fun hother =>
    hretired (hturned.follows_iff.mpr hother.1)
  rw [← hentries]
  exact hturned.stable hsettled hintact rfl

/-- The engine with two values in its memtable. -/
def pairedEngine : Engine :=
  { Engine.writtenEngine with active := Engine.writtenTable.insert ⟨[98], some [50]⟩ }

/-- What is written after a flush is not seen in a view that was held before, and an iterator over it
tells the two values one by one, though all files are gone in between. -/
theorem holds_written_value :
    ∃ start written paired held flushed last started paused ended : Session,
      ({ files := .ofFolder "store" } : Session).openEngine "db" Engine.storeSettings =
        (.ok (), start) ∧
      start.request "db" (.put ⟨[97], some [49]⟩) = some (.done, written) ∧
      written.request "db" (.put ⟨[98], some [50]⟩) = some (.done, paired) ∧
      paired.hold "db" "view" .unbounded .unbounded = some (.ok (), held) ∧
      held.request "db" .flush = some (.done, flushed) ∧
      flushed.request "db" (.put ⟨[97], some [51]⟩) = some (.done, last) ∧
      last.scan "view" = some [.ok ⟨[97], some [49]⟩, .ok ⟨[98], some [50]⟩] ∧
      last.iterate "view" "iterator" = some started ∧
      started.take "iterator" 1 = some ([.ok ⟨[97], some [49]⟩], paused) ∧
      { paused with files := {} }.take "iterator" 2 = some ([.ok ⟨[98], some [50]⟩], ended) := by
  obtain ⟨files, hload, -⟩ :=
    Engine.load_of_empty (FileSystem.stores_ofFolder Engine.directoryAt_store)
  have hopen := openEngine_of_load hload "db"
  let start : Session := ofEngine files "db" .emptyEngine
  let paired : Session := { start with engines := #[pairedEngine] }
  let view : Snapshot := pairedEngine.viewOf (.between .unbounded .unbounded)
  let held : Session := { paired with snapshots := [("view", ⟨0, view⟩)] }
  let turned : Engine := (pairedEngine.flush files).2.1
  let flushed : Session :=
    { held with files := (pairedEngine.flush files).2.2, engines := #[turned] }
  let last : Session :=
    { flushed with engines := #[{ turned with active := ({} : Memtable).insert ⟨[97], some [51]⟩ }] }
  have hhold : paired.hold "db" "view" .unbounded .unbounded = some (.ok (), held) := rfl
  have hflush : held.request "db" .flush = some (.done, flushed) := by
    have hok := @Engine.flush_eq_ok pairedEngine rfl files
    change some (Reply.ofOutcome (pairedEngine.flush files).1, flushed) = _
    rw [hok]
    rfl
  have hput : flushed.request "db" (.put ⟨[97], some [51]⟩) = some (.done, last) := rfl
  obtain ⟨segments, -, -, -, hviews⟩ := scans_of_hold Engine.folder_storeSettings
    Engine.directoryAt_store Engine.wellFormed_store hopen
  have hsolo : paired.Solo pairedEngine := ⟨rfl, by simp [paired, start, ofEngine]⟩
  have hintact : pairedEngine.segments.Intact := by
    intro s hs
    simp [pairedEngine, Engine.writtenEngine, Engine.emptyEngine, SegmentSet.ofList] at hs
  obtain ⟨hfollows, hkeeps⟩ := hviews paired _ _ hsolo hintact (Engine.shows rfl hintact.readable)
    _ _ _ _ _ hhold
  obtain ⟨-, hstable⟩ := hkeeps [] held .start hfollows
  have hretired : ¬ flushed.Follows "view" := by
    rintro ⟨found, engine, hfound, hengine, hsize⟩
    obtain rfl : (⟨0, view⟩ : HeldSnapshot) = found := Option.some.inj hfound
    obtain rfl : turned = engine := Option.some.inj hengine
    exact Nat.one_ne_zero hsize
  have hplain : (Event.request "db" .flush .done).Plain := trivial
  have hspares : (Event.request "db" (.put ⟨[97], some [51]⟩) .done).Spares "view" := trivial
  obtain ⟨-, ⟨live, hlive, hscan⟩, hiterates⟩ := hstable _ _ hplain trivial hflush hretired _ _
    (.step .start hspares hput)
  have hentries : pairedEngine.entries = [⟨[97], some [49]⟩, ⟨[98], some [50]⟩] := by decide
  have hboth : (Contents.ofEntries pairedEngine.entries).Lists
      [⟨[97], some [49]⟩, ⟨[98], some [50]⟩] := by
    rw [hentries]
    exact Contents.lists_filter (by simp only [Entry.Ascending]; decide) fun _ => rfl
  obtain rfl := hboth.unique hlive
  -- the iterator is asked for one item, and for two more when the files are gone
  obtain ⟨items, started, hitems, hiterate, hreads⟩ := hiterates "iterator"
  obtain rfl := Option.some.inj (hscan.symm.trans hitems)
  obtain ⟨-, htakes⟩ := hreads [] started .start
  obtain ⟨paused, htake⟩ := htakes 1
  have hleaves : (Event.take "iterator" 1 [.ok ⟨[97], some [49]⟩]).Leaves "iterator" := trivial
  have hleaves' : (Event.outside {}).Leaves "iterator" := trivial
  obtain ⟨-, htakes'⟩ := hreads _ _ (.step (.step .start hleaves htake) hleaves' rfl)
  obtain ⟨ended, htake'⟩ := htakes' 2
  exact ⟨start, _, paired, held, flushed, last, started, paused, ended, hopen, rfl, rfl, hhold,
    hflush, hput, hscan, hiterate, htake, htake'⟩

end LsmTree.Session
