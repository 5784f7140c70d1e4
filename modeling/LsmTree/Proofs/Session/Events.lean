import LsmTree.Proofs.Session

/-!
# Proofs/Session/Events — one engine behind all handles

What happens in a session is a list of events: requests through handles, handles that are cloned and
dropped, views that are held and iterated over, and changes that others make to the files.  Where
all handles lead to one engine, **an event carries out a request of its own, or closes the engine
because its last handle was dropped, or leaves the engine alone** (`Session.Solo.step`).
-/

namespace LsmTree.Session

/-! ## Events -/

/-- One thing that happens in a session, with what is told then. -/
inductive Event where
  | request (name : String) (r : Request) (reply : Reply)
  | clone (name copy : String)
  | drop (name : String)
  | hold (name view : String) (start stop : Bound) (result : Except Error Unit)
  | iterate (view iterator : String)
  | take (iterator : String) (n : Nat) (items : List Item)
  | outside (files : FileSystem)

/-- The event takes one session to the other. -/
def Step (session after : Session) : Event → Prop
  | .request name r reply => session.request name r = some (reply, after)
  | .clone name copy => session.clone name copy = some after
  | .drop name => session.drop name = after
  | .hold name view start stop result => session.hold name view start stop = some (result, after)
  | .iterate view iterator => session.iterate view iterator = some after
  | .take iterator n items => session.take iterator n = some (items, after)
  | .outside files => { session with files } = after

/-- The contents after an event: an entry is written if the answer to a request says so. -/
def Event.write (m : Contents) : Event → Contents
  | .request _ r reply => m.after r reply
  | _ => m

/-- The events happen one after the other, each where it is allowed. -/
inductive Runs (allowed : Session → Event → Session → Prop) (start : Session) :
    List Event → Session → Prop
  | start : Runs allowed start [] start
  | step {events : List Event} {session after : Session} {event : Event}
      (h : Runs allowed start events session) (hallowed : allowed session event after)
      (hstep : session.Step after event) : Runs allowed start (events ++ [event]) after

/-- What an event does to the engine behind the handles and to the files: it carries out a request,
its own or the one to close, or it leaves the engine alone. -/
inductive Event.Moves (engine : Engine) (fs : FileSystem) : Event → Engine → FileSystem → Prop
  | answers {name : String} {r : Request} {reply : Reply} {later : Engine} {files : FileSystem}
      (h : engine.answer fs r = (reply, later, files)) :
      Moves engine fs (.request name r reply) later files
  | closes {name : String} {reply : Reply} {later : Engine} {files : FileSystem}
      (h : engine.answer fs .close = (reply, later, files)) :
      Moves engine fs (.drop name) later files
  | outside {files : FileSystem} : Moves engine fs (.outside files) engine files
  | rests {event : Event} (hrequest : ∀ name r reply, event ≠ .request name r reply)
      (houtside : ∀ files, event ≠ .outside files) : Moves engine fs event engine fs

/-! ## One engine -/

variable {session after : Session} {engine : Engine} {name : String}

/-- What neither the engines nor the handles know of leaves the engine alone. -/
theorem Solo.congr (h : session.Solo engine) (hengines : after.engines = session.engines)
    (hhandles : after.handles = session.handles) : after.Solo engine :=
  ⟨hengines.trans h.engines_eq, hhandles ▸ h.handles_eq⟩

/-- **A handle less** leaves the engine alone or, if it was the last, closes it. -/
theorem Solo.drop (h : session.Solo engine) (name : String) :
    ((session.drop name).Solo engine ∧ (session.drop name).files = session.files) ∨
      ∃ reply later, engine.answer session.files .close = (reply, later, (session.drop name).files) ∧
        (session.drop name).Solo later := by
  unfold Session.drop
  split
  · exact .inl ⟨h, rfl⟩
  · rename_i index hlookup
    obtain rfl := h.index_eq hlookup
    have hfewer : ∀ pair ∈ session.handles.filter (·.1 ≠ name), pair.2 = 0 :=
      fun pair hpair => h.handles_eq pair (List.mem_filter.mp hpair).1
    unfold Session.release
    split
    · exact .inl ⟨⟨h.engines_eq, hfewer⟩, rfl⟩
    · right
      rcases hclose : engine.close session.files with ⟨result, later, files⟩
      have hget : session.engines[0]? = some engine := by simp [h.engines_eq]
      simp only [hget, hclose]
      exact ⟨.ofOutcome result, later, by simp [Engine.answer, Engine.tell, hclose],
        by simp [h.engines_eq], hfewer⟩

/-- **Holding a view changes no engine**: the view is there under its name, or it is refused. -/
theorem hold_spec {view : String} {start stop : Bound} {result : Except Error Unit}
    (hhold : session.hold name view start stop = some (result, after)) :
    (∃ e, result = .error e ∧ after = session) ∨
      ∃ index engine snapshot, session.handles.lookup name = some index ∧
        session.engines[index]? = some engine ∧
        engine.snapshot (.between start stop) = .ok snapshot ∧ result = .ok () ∧
        after = { session with snapshots := assign view ⟨index, snapshot⟩ session.snapshots } := by
  unfold Session.hold at hhold
  obtain ⟨index, hlookup, hhold⟩ := Option.bind_eq_some_iff.mp hhold
  obtain ⟨engine, hget, hhold⟩ := Option.bind_eq_some_iff.mp hhold
  split at hhold
  · rename_i e _
    obtain ⟨rfl, rfl⟩ : _ = result ∧ session = after := by simpa using hhold
    exact .inl ⟨e, rfl, rfl⟩
  · rename_i snapshot hsnapshot
    obtain ⟨rfl, rfl⟩ : _ = result ∧ _ = after := by simpa using hhold
    exact .inr ⟨index, engine, snapshot, hlookup, hget, hsnapshot, rfl, rfl⟩

theorem iterate_spec {view iterator : String} (hiterate : session.iterate view iterator = some after) :
    ∃ held, session.snapshots.lookup view = some held ∧
      after = { session with
        iterators :=
          assign iterator ⟨held.engine, { snapshot := held.snapshot }⟩ session.iterators } := by
  obtain ⟨held, hheld, hafter⟩ := Option.bind_eq_some_iff.mp hiterate
  exact ⟨held, hheld, (Option.some.inj hafter).symm⟩

theorem take_spec {iterator : String} {n : Nat} {items : List Item}
    (htake : session.take iterator n = some (items, after)) :
    ∃ held engine reader, session.iterators.lookup iterator = some held ∧
      session.engines[held.engine]? = some engine ∧
      held.reader.take (held.reader.snapshot.activeIn engine) n = (items, reader) ∧
      after = { session with
        iterators := assign iterator { held with reader } session.iterators } := by
  obtain ⟨held, hheld, htake⟩ := Option.bind_eq_some_iff.mp htake
  obtain ⟨engine, hget, htake⟩ := Option.bind_eq_some_iff.mp htake
  obtain ⟨rfl, rfl⟩ : _ = items ∧ _ = after := by simpa using htake
  exact ⟨held, engine, _, hheld, hget, rfl, rfl⟩

/-- **What an event does to the only engine.** -/
theorem Solo.step (h : session.Solo engine) {event : Event} (hstep : session.Step after event) :
    ∃ later, after.Solo later ∧ event.Moves engine session.files later after.files := by
  cases event with
  | request name r reply =>
    obtain ⟨later, hlater, hanswer, -⟩ := h.request hstep
    exact ⟨later, hlater, .answers hanswer⟩
  | clone name copy =>
    obtain ⟨hafter, rfl⟩ := h.clone hstep
    exact ⟨engine, hafter, .rests (by simp) (by simp)⟩
  | drop name =>
    obtain rfl : session.drop name = after := hstep
    rcases h.drop name with ⟨hafter, hfiles⟩ | ⟨reply, later, hclose, hlater⟩
    · exact ⟨engine, hafter, hfiles ▸ .rests (by simp) (by simp)⟩
    · exact ⟨later, hlater, .closes hclose⟩
  | hold name view start stop result =>
    rcases hold_spec hstep with ⟨-, -, rfl⟩ | ⟨-, -, -, -, -, -, -, rfl⟩
    all_goals exact ⟨engine, h.congr rfl rfl, .rests (by simp) (by simp)⟩
  | iterate view iterator =>
    obtain ⟨-, -, rfl⟩ := iterate_spec hstep
    exact ⟨engine, h.congr rfl rfl, .rests (by simp) (by simp)⟩
  | take iterator n items =>
    obtain ⟨-, -, -, -, -, -, rfl⟩ := take_spec hstep
    exact ⟨engine, h.congr rfl rfl, .rests (by simp) (by simp)⟩
  | outside files =>
    obtain rfl : { session with files } = after := hstep
    exact ⟨engine, h.congr rfl rfl, .outside⟩

end LsmTree.Session
