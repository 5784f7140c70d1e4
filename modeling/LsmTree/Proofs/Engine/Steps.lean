import LsmTree.Engine.Request
import LsmTree.Proofs.Engine.Reads
import LsmTree.Proofs.Store.Owned

/-!
# Proofs/Engine/Steps — what a request does to what an engine shows

An engine is **sound** for contents if they are what its entries amount to, and its store owns its
segments.  Flushing moves entries without changing their order, compacting drops only entries that
nobody sees, and both leave everything in its place where they fail; so **every request leaves the
engine sound**, for contents that change by the entry that was written and by nothing else
(`Engine.Sound.answer`).
-/

namespace LsmTree

/-- The request leaves the engine open and its switches alone, and writes one entry at most. -/
def Request.KeepsOpen : Request → Prop
  | .close | .putAll _ | .force _ _ => False
  | _ => True

/-- The request leaves the engine's switches alone, and writes one entry at most. -/
def Request.Plain : Request → Prop
  | .putAll _ | .force _ _ => False
  | _ => True

/-- The contents after a request: an entry is written if the answer says so. -/
def Contents.after (m : Contents) : Request → Reply → Contents
  | .put entry, .done => m.write entry
  | _, _ => m

namespace SegmentSet

/-- **Segments that were saved one after the other stand in front, newest first.** -/
theorem segments_foldl_insert {set : SegmentSet} {written : List Segment}
    (h : (written.reverse ++ set.segments).Pairwise fun a b => b.priority < a.priority) :
    (written.foldl insert set).segments = written.reverse ++ set.segments := by
  induction written generalizing set with
  | nil => rfl
  | cons s newer ih =>
    rw [List.reverse_cons, List.append_assoc, List.singleton_append] at h ⊢
    have hs := (List.pairwise_cons.mp (List.pairwise_append.mp h).2.1).1
    have hinsert : (set.insert s).segments = s :: set.segments :=
      segments_insert fun t ht => UInt64.le_of_lt (hs t ht)
    rw [List.foldl_cons, ih (hinsert ▸ h), hinsert]

end SegmentSet

namespace Engine

variable {engine after : Engine} {fs files : FileSystem} {m : Contents}
  {result : Except Error Unit}

/-- The engine is open, its store owns its segments, and its entries amount to the contents. -/
structure Sound (engine : Engine) (m : Contents) : Prop where
  isOpen : engine.closed = false
  owns : engine.store.Owns engine.segments.segments
  /-- every sealed memtable is there because a flush failed, and a failure takes a priority -/
  numbered : engine.sealed.length < engine.store.counter.next.toNat
  contents : .ofEntries engine.entries = m

theorem Sound.shows (h : engine.Sound m) : engine.Shows m :=
  h.contents ▸ Engine.shows h.isOpen (SegmentSet.Intact.readable h.owns.filed.intact)

/-! ## Flushing -/

theorem entries_rotate (engine : Engine) : engine.rotate.entries = engine.entries := by
  simp [entries, memtables, rotate, retireActive]

/-- What was not written and what the priorities used up so far make room for. -/
theorem length_unwritten_lt {done tables : List Memtable} {fs : FileSystem} {store : Store}
    (hdone : tables = done ++ (store.flushAll fs tables).unwritten)
    (hpositive : 0 < store.counter.next.toNat) (hlength : tables.length ≤ store.counter.next.toNat) :
    (store.flushAll fs tables).unwritten.length <
      store.counter.next.toNat + (store.flushAll fs tables).taken := by
  have hparts := congrArg List.length hdone
  rw [List.length_append] at hparts
  cases hok : (store.flushAll fs tables).result.isOk with
  | true =>
    rw [Store.unwritten_of_isOk hok]
    exact Nat.lt_of_lt_of_le hpositive (Nat.le_add_right _ _)
  | false =>
    -- the failure took a priority itself
    simp only [Store.Flushed.taken, hok, Bool.false_eq_true, if_false]
    omega

/-- **Writing the sealed memtables moves entries** and leaves their order alone. -/
theorem writeSealed_spec (howns : engine.store.Owns engine.segments.segments)
    (hlinks : fs.Unlinked engine.store.folder) (hpositive : 0 < engine.store.counter.next.toNat)
    (hsealed : engine.sealed.length ≤ engine.store.counter.next.toNat)
    (hwrite : engine.writeSealed fs = (result, after, files))
    (hcounted : engine.store.counter.next ≤ after.store.counter.next) :
    after.store.Owns after.segments.segments ∧
      after.sealed.length < after.store.counter.next.toNat ∧ after.entries = engine.entries := by
  obtain ⟨-, rfl, -⟩ : _ ∧ _ ∧ _ := by simpa [writeSealed, Prod.mk.injEq] using hwrite
  have hlength : engine.sealed.reverse.length ≤ engine.store.counter.next.toNat := by simpa
  have hroom := Store.room_of_flushAll hlength hcounted
  obtain ⟨hnext, -⟩ := Store.toNat_flushAll engine.store fs engine.sealed.reverse
  rw [Nat.mod_eq_of_lt hroom] at hnext
  obtain ⟨-, howns', done, hdone, hwritten⟩ := howns.flushAll hlinks hroom
  have hsegments := SegmentSet.segments_foldl_insert howns'.filed.descending
  refine ⟨hsegments ▸ howns', ?_, ?_⟩
  · dsimp only
    rw [hnext, List.length_reverse]
    exact length_unwritten_lt hdone hpositive hlength
  · have hsealed' : engine.sealed = (engine.store.flushAll fs engine.sealed.reverse).unwritten.reverse ++
        done.reverse := by
      rw [← List.reverse_append, ← hdone, List.reverse_reverse]
    simp only [entries, memtables, SegmentSet.entries]
    rw [hsegments, List.flatMap_append, hwritten]
    conv => rhs; rw [hsealed']
    simp [List.append_assoc]

theorem flush_eq_self (h : engine.closed = true ∨ engine.flushing = false ∧
    engine.active.isEmpty = true) (fs : FileSystem) :
    engine.flush fs = (.ok (), engine, fs) := by
  rcases h with hclosed | ⟨hidle, hactive⟩
  · simp [Engine.flush, hclosed]
  · simp [Engine.flush, hidle, hactive]

/-- Only a flush that is under way makes another one fail. -/
theorem flush_eq_ok (hidle : engine.flushing = false) (files : FileSystem) :
    (engine.flush files).1 = .ok () := by
  unfold Engine.flush
  split
  · rfl
  · rw [if_neg (by simp [hidle])]
    split <;> rfl

/-- The engine that a flush ends with. -/
def afterFlush (engine : Engine) (flushed : Store.Flushed) : Engine :=
  { engine.retireActive with
    store := flushed.store
    segments := flushed.written.foldl .insert engine.segments
    sealed := flushed.unwritten.reverse
    freshlyCompacted :=
      engine.freshlyCompacted && flushed.unwritten.length = engine.memtables.length
    flushResult := some flushed.result }

/-- **A flush writes all memtables**, if there is anything to flush. -/
theorem flush_eq (hopen : engine.closed = false) (hidle : engine.flushing = false)
    (hactive : engine.active.isEmpty = false) (fs : FileSystem) :
    engine.flush fs =
      (.ok (), engine.afterFlush (engine.store.flushAll fs engine.memtables.reverse),
        (engine.store.flushAll fs engine.memtables.reverse).files) := by
  simp only [Engine.flush, hopen, hidle, hactive, Bool.false_eq_true, if_false]
  rfl

/-- A flush whose first save fails leaves everything in memory. -/
theorem flush_eq_of_error (hopen : engine.closed = false) (hidle : engine.flushing = false)
    (hactive : engine.active.isEmpty = false) {table : Memtable} {newer : List Memtable}
    (htables : engine.memtables.reverse = table :: newer) {e : Error} {store : Store}
    (hsave : engine.store.save table.entries fs = (.error e, store, files)) :
    engine.flush fs = (.ok (),
      { engine.retireActive with
        store, sealed := engine.memtables, flushResult := some (.error e) }, files) := by
  have hflushed : engine.store.flushAll fs engine.memtables.reverse =
      ⟨.error e, [], engine.memtables.reverse, store, files⟩ := by
    simp [htables, Store.flushAll, Store.flush, hsave]
  rw [flush_eq hopen hidle hactive, hflushed]
  simp [afterFlush, retireActive]

/-- With nothing sealed, a flush whose save goes well adds one segment. -/
theorem flush_eq_of_save (hopen : engine.closed = false) (hidle : engine.flushing = false)
    (hsealed : engine.sealed = []) (hactive : engine.active.isEmpty = false) {store : Store}
    {s : Segment} (hsave : engine.store.save engine.active.entries fs = (.ok (some s), store, files)) :
    engine.flush fs = (.ok (),
      { engine.retireActive with
        store, segments := engine.segments.insert s
        freshlyCompacted := false
        flushResult := some (.ok ()) }, files) := by
  have hflushed : engine.store.flushAll fs engine.memtables.reverse =
      ⟨.ok (), [s], [], store, files⟩ := by
    simp [memtables, hsealed, Store.flushAll, Store.flush, hsave]
  rw [flush_eq hopen hidle hactive, hflushed]
  simp [afterFlush, memtables, retireActive, hsealed]

/-- After a failure, a flush whose saves go well adds two. -/
theorem flush_eq_of_saves (hopen : engine.closed = false) (hidle : engine.flushing = false)
    {older : Memtable} (hsealed : engine.sealed = [older]) (hactive : engine.active.isEmpty = false)
    {store last : Store} {first second : Segment} {later : FileSystem}
    (hfirst : engine.store.save older.entries fs = (.ok (some first), store, later))
    (hsecond : store.save engine.active.entries later = (.ok (some second), last, files)) :
    engine.flush fs = (.ok (),
      { engine.retireActive with
        store := last, segments := (engine.segments.insert first).insert second
        sealed := []
        freshlyCompacted := false
        flushResult := some (.ok ()) }, files) := by
  have hflushed : engine.store.flushAll fs engine.memtables.reverse =
      ⟨.ok (), [first, second], [], last, files⟩ := by
    simp [memtables, hsealed, Store.flushAll, Store.flush, hfirst, hsecond]
  rw [flush_eq hopen hidle hactive, hflushed]
  simp [afterFlush, memtables, retireActive]

/-- **A flush keeps what the engine shows**, however far it comes. -/
theorem Sound.flush (h : engine.Sound m) (hlinks : fs.Unlinked engine.store.folder)
    (hflush : engine.flush fs = (result, after, files))
    (hcounted : engine.store.counter.next ≤ after.store.counter.next) : after.Sound m := by
  unfold Engine.flush at hflush
  split at hflush
  · obtain ⟨-, rfl, -⟩ : _ ∧ engine = after ∧ _ := by simpa [Prod.mk.injEq] using hflush
    exact h
  split at hflush
  · obtain ⟨-, rfl, -⟩ : _ ∧ engine = after ∧ _ := by simpa [Prod.mk.injEq] using hflush
    exact h
  split at hflush
  · obtain ⟨-, rfl, -⟩ : _ ∧ engine = after ∧ _ := by simpa [Prod.mk.injEq] using hflush
    exact h
  rcases hwrite : engine.rotate.writeSealed fs with ⟨written, flushed, writtenFiles⟩
  rw [hwrite] at hflush
  obtain ⟨-, rfl, -⟩ : _ ∧ _ ∧ _ := by simpa [Prod.mk.injEq] using hflush
  have hopen : flushed.closed = engine.closed := by
    have heq := congrArg (fun outcome => outcome.2.1.closed) hwrite
    exact heq.symm
  have howns' : engine.rotate.store.Owns engine.rotate.segments.segments := h.owns
  obtain ⟨howns, hnumbered, hentries⟩ := writeSealed_spec howns' hlinks
    (Nat.lt_of_le_of_lt (Nat.zero_le _) h.numbered) h.numbered hwrite hcounted
  refine ⟨hopen.trans h.isOpen, howns, hnumbered, ?_⟩
  rw [← h.contents, ← entries_rotate engine, ← hentries]
  rfl

/-! ## Writing -/

theorem Sound.makeRoom (h : engine.Sound m) (hlinks : fs.Unlinked engine.store.folder)
    (hroom : engine.makeRoom fs = (result, after, files))
    (hcounted : engine.store.counter.next ≤ after.store.counter.next) : after.Sound m := by
  unfold Engine.makeRoom at hroom
  split at hroom
  · obtain ⟨-, rfl, -⟩ : _ ∧ engine = after ∧ _ := by simpa [Prod.mk.injEq] using hroom
    exact h
  rw [if_neg (by simp [h.isOpen])] at hroom
  rcases hflush : engine.flush fs with ⟨outcome, flushed, flushedFiles⟩
  rw [hflush] at hroom
  have hsound := fun hle => h.flush hlinks hflush hle
  split at hroom
  · rename_i heq
    obtain ⟨-, rfl, rfl⟩ : _ ∧ _ ∧ _ := by simpa [Prod.mk.injEq] using heq
    unfold awaitFlush at hroom
    split at hroom <;> rename_i hawait <;> obtain ⟨-, rfl⟩ := Prod.mk.inj hawait <;>
      obtain ⟨-, rfl, -⟩ : _ ∧ _ ∧ _ := by simpa [Prod.mk.injEq] using hroom
    all_goals
      have hflushed := hsound hcounted
      exact ⟨hflushed.isOpen, hflushed.owns, hflushed.numbered, hflushed.contents⟩
  · obtain ⟨-, rfl, -⟩ : _ ∧ _ ∧ _ := by simpa [Prod.mk.injEq] using hroom
    exact hsound hcounted

theorem put_closed (hclosed : engine.closed = true) (entry : Entry) (fs : FileSystem) :
    engine.put entry fs = (.error .closed, engine, fs) := by
  unfold put makeRoom
  split_ifs <;> simp_all

@[simp] theorem closed_flush (engine : Engine) (fs : FileSystem) :
    (engine.flush fs).2.1.closed = engine.closed := by
  unfold Engine.flush
  split_ifs <;> rfl

/-- **An open engine writes an entry**, behind a flush if the active memtable has reached the
threshold. -/
theorem put_eq (hopen : engine.closed = false) (hidle : engine.flushing = false) (entry : Entry)
    (fs : FileSystem) :
    engine.put entry fs =
      let (roomy, files) := if engine.settings.threshold ≤ engine.active.byteSize then
        (engine.flush fs).2 else (engine, fs)
      (.ok (), { roomy with active := roomy.active.insert entry }, files) := by
  have hclosed := (closed_flush engine fs).trans hopen
  have hok := flush_eq_ok hidle fs
  unfold Engine.put Engine.makeRoom
  by_cases hfull : engine.settings.threshold ≤ engine.active.byteSize
  · rw [if_neg (UInt64.not_lt.mpr hfull), if_neg (by simp [hopen]), if_pos hfull]
    rcases hflush : engine.flush fs with ⟨_ | _, roomy, files⟩ <;> rw [hflush] at hok hclosed
    · cases hok
    · exact if_neg (by simpa using hclosed)
  · rw [if_pos (UInt64.not_le.mp hfull), if_neg hfull]
    exact if_neg (by simp [hopen])

theorem ofEntries_insert (table : Memtable) (entry : Entry) (older : List Entry) :
    Contents.ofEntries ((table.insert entry).entries ++ older) =
      (Contents.ofEntries (table.entries ++ older)).write entry := by
  funext key
  unfold Contents.write
  rw [Contents.ofEntries_append, Contents.ofEntries_append, Memtable.first?_entries,
    Memtable.first?_entries, Memtable.lookup_insert]
  by_cases hkey : entry.key = key
  · rw [if_pos hkey, if_pos hkey]
  · rw [if_neg hkey, if_neg hkey]

/-- **A write that goes well writes its entry, any other write nothing.** -/
theorem Sound.put (h : engine.Sound m) (hlinks : fs.Unlinked engine.store.folder) {entry : Entry}
    (hput : engine.put entry fs = (result, after, files))
    (hcounted : engine.store.counter.next ≤ after.store.counter.next) :
    after.Sound (m.after (.put entry) (.ofOutcome result)) := by
  unfold Engine.put at hput
  rcases hroom : engine.makeRoom fs with ⟨_ | _, roomy, roomyFiles⟩ <;> rw [hroom] at hput
  · obtain ⟨rfl, rfl, -⟩ : _ ∧ roomy = after ∧ _ := by simpa [Prod.mk.injEq] using hput
    exact h.makeRoom hlinks hroom hcounted
  · dsimp only at hput
    split at hput
    · rename_i hclosed
      obtain ⟨-, rfl, -⟩ : _ ∧ roomy = after ∧ _ := by simpa [Prod.mk.injEq] using hput
      exact absurd hclosed (by simp [(h.makeRoom hlinks hroom hcounted).isOpen])
    · obtain ⟨rfl, rfl, -⟩ : _ ∧ _ ∧ _ := by simpa [Prod.mk.injEq] using hput
      have hroomy := h.makeRoom hlinks hroom hcounted
      refine ⟨hroomy.isOpen, hroomy.owns, hroomy.numbered, ?_⟩
      change _ = m.write entry
      rw [← hroomy.contents]
      simp only [entries, memtables, List.flatMap_cons, List.append_assoc]
      exact ofEntries_insert _ _ _

/-! ## Merging -/

/-- Fewer than two segments are left alone. -/
theorem mergeSegments_of_small (hsize : engine.countSegments < 2) (fs : FileSystem) :
    engine.mergeSegments fs = (.ok (), engine, fs) := by
  have hcompact : engine.store.compact engine.segments fs = (.ok none, engine.store, fs) :=
    if_pos hsize
  unfold mergeSegments
  split
  · rfl
  · rw [hcompact]

/-- What the store compacted takes the place of its inputs. -/
theorem mergeSegments_of_compact (hopen : engine.closed = false) {store : Store}
    {done : Store.Compaction}
    (hcompact : engine.store.compact engine.segments fs = (.ok (some done), store, files)) :
    engine.mergeSegments fs =
      (.ok (), { engine with store, segments := engine.segments.replace done.inputs done.output },
        files) := by
  simp [mergeSegments, hopen, hcompact]

/-- A compaction that is allowed and goes well is told of. -/
theorem compact_of_compact (hopen : engine.closed = false)
    (hallowed :
      (!engine.compactionAllowed || engine.countSegments < 2 || engine.compacting) = false)
    {store : Store} {done : Store.Compaction}
    (hcompact : engine.store.compact engine.segments fs = (.ok (some done), store, files)) :
    engine.compact fs =
      (.ok (),
        { engine with
          store, segments := engine.segments.replace done.inputs done.output
          freshlyCompacted := true
          compactionResult := some (.ok ()) }, files) := by
  rw [Engine.compact, if_neg (by simp [hopen]), if_neg (Bool.eq_false_iff.mp hallowed),
    mergeSegments_of_compact hopen hcompact]
  rfl

/-- The engine when its segments are merged into the given ones. -/
def afterMerge (engine : Engine) (set : SegmentSet) : Engine :=
  { engine with
    store := engine.store.advance
    segments := set
    freshlyCompacted := true
    compactionResult := some (.ok ()) }

/-- **Where no key is in two segments**, a compaction that has nothing in its way makes one segment
of all entries. -/
theorem compact_ascending {place : Place} (hopen : engine.closed = false)
    (hallowed :
      (!engine.compactionAllowed || engine.countSegments < 2 || engine.compacting) = false)
    (hstores : fs.Stores engine.store.folder place engine.segments.segments)
    (hlinks : fs.LinkFree place)
    (hbelow : ∀ s ∈ engine.segments.segments, s.priority < engine.store.counter.next)
    (hfree : ∀ file ∈ [.unfinished engine.store.counter.next, .segment engine.store.counter.next,
      StoreFile.segment .lowest], fs.node? (place ++ [file.name]) ≠ some .directory)
    (htable : Segment.Table engine.segments.entries) (hsome : engine.segments.entries ≠ [])
    (hlive : ∀ entry ∈ engine.segments.entries, entry.isTombstone = false) :
    ∃ (set : SegmentSet) (later : FileSystem),
      engine.compact fs = (.ok (), engine.afterMerge set, later) ∧
      set.size = 1 ∧ set.entries = engine.segments.entries := by
  have hintact : engine.segments.Intact := hstores.filed.intact
  obtain ⟨live, hentries, hlists⟩ := hintact.liveEntries
  have hall : engine.segments.contents.Lists engine.segments.entries := by
    have hfiltered := Contents.lists_filter htable.ascending fun _ => rfl
    rwa [List.filter_eq_self.mpr fun entry hentry => by simp [hlive entry hentry]] at hfiltered
  obtain rfl := hlists.unique hall
  have hsize : 2 ≤ engine.segments.size := by
    by_contra hsmall
    simp [countSegments, Nat.lt_of_not_le hsmall] at hallowed
  obtain ⟨output, later, hcompact, houtput, -⟩ := @Store.compact_free _ fs place _ [] _ hstores
    hlinks hbelow hsize hentries htable.ascending htable.fits hfree
  rw [if_neg (by simpa using hsome)] at hcompact
  have hset := SegmentSet.segments_replace engine.segments output
  refine ⟨engine.segments.replace engine.segments.priorities output, later,
    compact_of_compact hopen hallowed hcompact, ?_, ?_⟩
  · cases output with
    | none => exact absurd houtput.symm hsome
    | some s => simp [SegmentSet.size, hset]
  · rw [SegmentSet.entries, hset, houtput]

/-- A store whose counter went on owns what it owned. -/
theorem Sound.with_store (h : engine.Sound m) {store : Store}
    (hfolder : store.folder = engine.store.folder)
    (hcounted : engine.store.counter.next ≤ store.counter.next) :
    ({ engine with store } : Engine).Sound m where
  isOpen := h.isOpen
  owns := ⟨hfolder ▸ h.owns.filed, fun s hs => UInt64.lt_of_lt_of_le (h.owns.below s hs) hcounted⟩
  numbered := Nat.lt_of_lt_of_le h.numbered (UInt64.le_iff_toNat_le.mp hcounted)
  contents := h.contents

/-- **Segments may be replaced by one that lists what they amount to**: nothing is older than they
are. -/
theorem Sound.with_segments (h : engine.Sound m) {set : SegmentSet}
    (hfiled : Segment.Filed engine.store.folder set.segments)
    (hlowest : ∀ s ∈ set.segments, s.priority = .lowest)
    (hlive : engine.segments.contents.Lists set.entries) :
    ({ engine with segments := set } : Engine).Sound m where
  isOpen := h.isOpen
  owns := ⟨hfiled, fun s hs => by
    rw [hlowest s hs, UInt64.lt_iff_toNat_lt]
    exact Nat.lt_of_le_of_lt (Nat.zero_le _) h.numbered⟩
  numbered := h.numbered
  contents := by
    rw [← h.contents]
    exact Contents.ofEntries_append_congr hlive.ofEntries_eq

/-- **A compaction keeps what the engine shows**, whether it goes well or not. -/
theorem Sound.mergeSegments (h : engine.Sound m) (hlinks : fs.Unlinked engine.store.folder)
    (hmerge : engine.mergeSegments fs = (result, after, files))
    (hcounted : engine.store.counter.next ≤ after.store.counter.next) : after.Sound m := by
  unfold Engine.mergeSegments at hmerge
  rw [if_neg (by simp [h.isOpen])] at hmerge
  have hstore := Store.store_compact engine.store engine.segments fs
  rcases hcompact : engine.store.compact engine.segments fs with ⟨done, store, installed⟩
  rw [hcompact] at hmerge hstore
  have hfolder : store.folder = engine.store.folder := by
    rcases hstore with rfl | rfl <;> rfl
  rcases done with e | _ | done <;>
    obtain ⟨-, rfl, -⟩ : _ ∧ _ ∧ _ := by simpa [Prod.mk.injEq] using hmerge
  · exact h.with_store hfolder hcounted
  · exact h.with_store hfolder hcounted
  · obtain ⟨live, hentries, hlive⟩ := SegmentSet.Intact.liveEntries h.owns.filed.intact
    obtain ⟨hinputs, houtput, hfiled, hlowest⟩ :=
      Store.filed_of_compact h.owns hlinks hentries hlive.ascending hcompact
    have hsegments : (engine.segments.replace done.inputs done.output).segments =
        done.output.toList := by
      rw [hinputs]
      exact SegmentSet.segments_replace _ _
    refine (h.with_store hfolder hcounted).with_segments (hsegments ▸ hfolder ▸ hfiled)
      (fun s hs => hlowest s ?_) ?_
    · simpa [hsegments] using hs
    · rw [SegmentSet.entries, hsegments, houtput]
      exact hlive

theorem Sound.compact (h : engine.Sound m) (hlinks : fs.Unlinked engine.store.folder)
    (hcompact : engine.compact fs = (result, after, files))
    (hcounted : engine.store.counter.next ≤ after.store.counter.next) : after.Sound m := by
  unfold Engine.compact at hcompact
  rw [if_neg (by simp [h.isOpen])] at hcompact
  split at hcompact
  · obtain ⟨-, rfl, -⟩ : _ ∧ engine = after ∧ _ := by simpa [Prod.mk.injEq] using hcompact
    exact h
  rcases hmerge : engine.mergeSegments fs with ⟨merged, merging, mergedFiles⟩
  rw [hmerge] at hcompact
  obtain ⟨-, rfl, -⟩ : _ ∧ _ ∧ _ := by simpa [Prod.mk.injEq] using hcompact
  have hmerged := h.mergeSegments hlinks hmerge hcounted
  exact ⟨hmerged.isOpen, hmerged.owns, hmerged.numbered, hmerged.contents⟩

/-! ## Every request -/

/-- A reply tells how the operation ended. -/
theorem eq_of_tell {outcome : Outcome Engine Unit} {reply : Reply}
    (h : tell outcome = (reply, after, files)) :
    ∃ result, outcome = (result, after, files) ∧ reply = .ofOutcome result := by
  obtain ⟨result, other, otherFiles⟩ := outcome
  obtain ⟨rfl, rfl, rfl⟩ : _ ∧ other = after ∧ otherFiles = files := by
    simpa [tell, Prod.mk.injEq] using h
  exact ⟨result, rfl, rfl⟩

/-- **Every request leaves the engine sound**, for contents that change by the entry that was
written and by nothing else. -/
theorem Sound.answer (h : engine.Sound m) {request : Request} (hopen : request.KeepsOpen)
    (hlinks : fs.Unlinked engine.store.folder) {reply : Reply}
    (hanswer : engine.answer fs request = (reply, after, files))
    (hcounted : engine.store.counter.next ≤ after.store.counter.next) :
    after.Sound (m.after request reply) := by
  cases request with
  | put entry =>
    obtain ⟨result, hput, rfl⟩ := eq_of_tell hanswer
    exact h.put hlinks hput hcounted
  | flush =>
    obtain ⟨result, hflush, rfl⟩ := eq_of_tell hanswer
    exact h.flush hlinks hflush hcounted
  | compact =>
    obtain ⟨result, hcompact, rfl⟩ := eq_of_tell hanswer
    exact h.compact hlinks hcompact hcounted
  | mergeSegments =>
    obtain ⟨result, hmerge, rfl⟩ := eq_of_tell hanswer
    exact h.mergeSegments hlinks hmerge hcounted
  | awaitFlush | awaitCompaction =>
    obtain ⟨-, rfl, -⟩ := by simpa [Engine.answer, awaitFlush, awaitCompaction] using hanswer
    exact ⟨h.isOpen, h.owns, h.numbered, h.contents⟩
  | close | putAll entries | force flag on => exact hopen.elim
  | _ =>
    obtain ⟨-, rfl, -⟩ := by simpa [Engine.answer] using hanswer
    exact h

/-- **A closed engine that is not closed again** keeps its memtables and stays closed, and touches
no file. -/
theorem answer_closed (hclosed : engine.closed = true) {request : Request} (hplain : request.Plain)
    (hother : request ≠ .close) {reply : Reply}
    (hanswer : engine.answer fs request = (reply, after, files)) :
    files = fs ∧ after.memtables = engine.memtables ∧ after.retired = engine.retired ∧
      after.closed = true := by
  have hsame : (engine, fs) = (after, files) →
      files = fs ∧ after.memtables = engine.memtables ∧ after.retired = engine.retired ∧
        after.closed = true := by
    rintro ⟨⟩
    exact ⟨rfl, rfl, rfl, hclosed⟩
  cases request with
  | put entry =>
    rw [answer, put_closed hclosed] at hanswer
    exact hsame (Prod.mk.inj hanswer).2
  | flush =>
    rw [answer, flush_eq_self (.inl hclosed)] at hanswer
    exact hsame (Prod.mk.inj hanswer).2
  | compact =>
    rw [answer, compact, if_pos hclosed] at hanswer
    exact hsame (Prod.mk.inj hanswer).2
  | mergeSegments =>
    rw [answer, mergeSegments, if_pos hclosed] at hanswer
    exact hsame (Prod.mk.inj hanswer).2
  | awaitFlush | awaitCompaction =>
    obtain ⟨-, rfl, rfl⟩ : _ ∧ _ ∧ fs = files := by simpa [answer] using hanswer
    exact ⟨rfl, rfl, rfl, hclosed⟩
  | close => exact absurd rfl hother
  | putAll entries | force flag on => exact hplain.elim
  | _ => exact hsame (Prod.mk.inj hanswer).2

end Engine

end LsmTree
