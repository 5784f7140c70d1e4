import LsmTree.Engine.Request
import LsmTree.Proofs.Store.Compact

/-!
# Proofs/Engine/Policy — a policy that forbids only what would do nothing

The policy `oncePerFlush` lets an engine compact once between two flushes.  It forbids nothing that
could be done: **an engine that was compacted since the last flush has one segment at most**
(`Engine.Gated`), and every request keeps it so, a flush that fails half way and a compaction that is
not asked for by `compact` among them (`Engine.Gated.answer`).  So the policy makes no difference to
any request (`Engine.answer_withPolicy`).
-/

namespace LsmTree

/-! ## Flushes that write nothing -/

namespace Store

theorem length_unwritten_le (store : Store) (fs : FileSystem) (tables : List Memtable) :
    (store.flushAll fs tables).unwritten.length ≤ tables.length := by
  induction tables generalizing store fs with
  | nil => exact Nat.le_refl _
  | cons table newer ih =>
    unfold flushAll
    split
    · exact Nat.le_refl _
    · exact Nat.le_succ_of_le (ih _ _)

/-- **Where no memtable was written there is no new segment.** -/
theorem written_eq_nil {store : Store} {fs : FileSystem} {tables : List Memtable}
    (h : (store.flushAll fs tables).unwritten.length = tables.length) :
    (store.flushAll fs tables).written = [] := by
  cases tables with
  | nil => rfl
  | cons table newer =>
    unfold flushAll at h ⊢
    split at h
    · rfl
    · -- the first memtable is written, so fewer are left
      rename_i after files _
      have hle := length_unwritten_le after files newer
      exact absurd h (Nat.ne_of_lt (Nat.lt_succ_of_le hle))

end Store

namespace Engine

variable {engine after : Engine} {fs files : FileSystem}

/-! ## What the gate knows -/

/-- An engine that was compacted since the last flush has one segment at most. -/
def Gated (engine : Engine) : Prop := engine.freshlyCompacted = true → engine.countSegments < 2

/-- Only the segments and the mark of the last compaction count. -/
theorem Gated.congr (h : engine.Gated) (hfresh : after.freshlyCompacted = engine.freshlyCompacted)
    (hsegments : after.segments = engine.segments) : after.Gated := by
  intro hafter
  rw [countSegments, hsegments]
  exact h (hfresh ▸ hafter)

theorem gated_of_small (h : engine.countSegments < 2) : engine.Gated := fun _ => h

/-- A flush that writes anything clears the mark. -/
theorem Gated.writeSealed (h : engine.Gated) (fs : FileSystem) :
    (engine.writeSealed fs).2.1.Gated := by
  intro hafter
  obtain ⟨hfresh, hlength⟩ : engine.freshlyCompacted = true ∧
      (engine.store.flushAll fs engine.sealed.reverse).unwritten.length = engine.sealed.length := by
    simpa [Engine.writeSealed] using hafter
  have hnil : (engine.store.flushAll fs engine.sealed.reverse).written = [] :=
    Store.written_eq_nil (by rw [hlength, List.length_reverse])
  simpa [Engine.writeSealed, countSegments, hnil] using h hfresh

theorem Gated.flush (h : engine.Gated) (fs : FileSystem) : (engine.flush fs).2.1.Gated := by
  unfold Engine.flush
  split
  · exact h
  split
  · exact h
  split
  · exact h
  · have hrotate : engine.rotate.Gated := h.congr rfl rfl
    exact (hrotate.writeSealed fs).congr rfl rfl

theorem Gated.makeRoom (h : engine.Gated) (fs : FileSystem) : (engine.makeRoom fs).2.1.Gated := by
  have hflush := h.flush fs
  unfold Engine.makeRoom
  split
  · exact h
  split
  · exact h
  split
  · rename_i hbusy
    rw [hbusy] at hflush
    unfold awaitFlush
    split
    all_goals
      rename_i hawait
      obtain ⟨-, rfl⟩ := Prod.mk.inj hawait
      exact hflush.congr rfl rfl
  · exact hflush

theorem Gated.put (h : engine.Gated) (entry : Entry) (fs : FileSystem) :
    (engine.put entry fs).2.1.Gated := by
  have hroom := h.makeRoom fs
  unfold Engine.put
  split
  · rename_i hfails
    exact hfails ▸ hroom
  · rename_i hmade
    rw [hmade] at hroom
    split
    · exact hroom
    · exact hroom.congr rfl rfl

theorem Gated.putAll (h : engine.Gated) (entries : List Entry) (fs : FileSystem) :
    (engine.putAll fs entries).2.1.Gated := by
  induction entries generalizing engine fs with
  | nil => exact h
  | cons entry rest ih =>
    have hput := h.put entry fs
    unfold Engine.putAll
    split
    · rename_i hfails
      exact hfails ▸ hput
    · rename_i hwritten
      rw [hwritten] at hput
      exact ih hput _

/-- **A compaction leaves its output only.** -/
theorem small_of_compact {store after : Store} {set : SegmentSet} {done : Store.Compaction}
    (h : store.compact set fs = (.ok (some done), after, files)) :
    (set.replace done.inputs done.output).size < 2 := by
  obtain ⟨-, -, -, -, -, -, -, hinputs, -⟩ := Store.spec_of_compact h
  rw [hinputs, SegmentSet.size, SegmentSet.segments_replace]
  cases done.output <;> simp

/-- **An open engine whose compaction went well has one segment at most.** -/
theorem small_of_mergeSegments (hopen : engine.closed = false)
    (hmerge : engine.mergeSegments fs = (.ok (), after, files)) : after.countSegments < 2 := by
  unfold mergeSegments at hmerge
  rw [if_neg (by simp [hopen])] at hmerge
  split at hmerge
  · cases (Prod.mk.inj hmerge).1
  · rename_i hcompact
    obtain ⟨rfl, -⟩ := Prod.mk.inj (Prod.mk.inj hmerge).2
    exact Store.size_of_compact_none hcompact
  · rename_i hcompact
    obtain ⟨rfl, -⟩ := Prod.mk.inj (Prod.mk.inj hmerge).2
    exact small_of_compact hcompact

theorem Gated.mergeSegments (h : engine.Gated) (fs : FileSystem) :
    (engine.mergeSegments fs).2.1.Gated := by
  unfold Engine.mergeSegments
  split
  · exact h
  split
  · exact h.congr rfl rfl
  · exact h.congr rfl rfl
  · rename_i hcompact
    exact gated_of_small (small_of_compact hcompact)

/-- The mark is set where a compaction went well, and cleared where it failed. -/
theorem Gated.compact (h : engine.Gated) (fs : FileSystem) : (engine.compact fs).2.1.Gated := by
  unfold Engine.compact
  split
  · exact h
  rename_i hclosed
  split
  · exact h
  rcases hmerge : engine.mergeSegments fs with ⟨_ | _, after, files⟩
  · exact fun hfresh => nomatch hfresh
  · have hsmall : after.countSegments < 2 :=
      small_of_mergeSegments (by simpa using hclosed) hmerge
    exact gated_of_small hsmall

theorem Gated.persist (h : engine.Gated) (fs : FileSystem) : (engine.persist fs).2.1.Gated := by
  rcases hsealed : engine.persistSealed fs with ⟨result, written, writtenFiles⟩
  have hwritten : written.Gated := by
    obtain ⟨rfl, -⟩ := Prod.mk.inj (Prod.mk.inj hsealed).2
    exact h.congr rfl rfl
  unfold Engine.persist persistActive
  rw [hsealed]
  cases result with
  | error e => exact hwritten
  | ok _ =>
    dsimp only
    rcases written.store.flush written.active writtenFiles with ⟨e | segment, store, files⟩
    · exact hwritten.congr rfl rfl
    · exact gated_of_small Nat.zero_lt_two

/-- A closed engine has its segments still, or none. -/
theorem Gated.close (h : engine.Gated) (fs : FileSystem) : (engine.close fs).2.1.Gated := by
  unfold Engine.close
  split
  · exact h
  · have hclosed : ({ engine with
        closed := true, flushResult := none, compactionResult := none } : Engine).Gated :=
      h.congr rfl rfl
    exact hclosed.persist fs

/-- **Every request keeps the gate.** -/
theorem Gated.answer (h : engine.Gated) (fs : FileSystem) (request : Request) :
    (engine.answer fs request).2.1.Gated := by
  cases request with
  | put entry => exact h.put entry fs
  | putAll entries => exact h.putAll entries fs
  | flush => exact h.flush fs
  | compact => exact h.compact fs
  | mergeSegments => exact h.mergeSegments fs
  | close => exact h.close fs
  | awaitFlush | awaitCompaction => exact h.congr rfl rfl
  | force flag on => cases flag <;> exact h.congr rfl rfl
  | _ => exact h

/-! ## Engines that differ in their policy -/

/-- The engine with another policy. -/
def withPolicy (engine : Engine) (policy : CompactionPolicy) : Engine :=
  { engine with settings := { engine.settings with policy } }

/-- The outcome of an operation, for an engine with another policy. -/
def under {α : Type} (policy : CompactionPolicy) (outcome : α × Engine × FileSystem) :
    α × Engine × FileSystem :=
  (outcome.1, outcome.2.1.withPolicy policy, outcome.2.2)

variable {policy : CompactionPolicy}

section Fields

variable (engine)

@[simp] theorem store_withPolicy : (engine.withPolicy policy).store = engine.store := rfl

@[simp] theorem threshold_withPolicy :
    (engine.withPolicy policy).settings.threshold = engine.settings.threshold := rfl

@[simp] theorem active_withPolicy : (engine.withPolicy policy).active = engine.active := rfl

@[simp] theorem sealed_withPolicy : (engine.withPolicy policy).sealed = engine.sealed := rfl

@[simp] theorem segments_withPolicy : (engine.withPolicy policy).segments = engine.segments := rfl

@[simp] theorem closed_withPolicy : (engine.withPolicy policy).closed = engine.closed := rfl

@[simp] theorem flushing_withPolicy :
    (engine.withPolicy policy).flushing = engine.flushing := rfl

@[simp] theorem compacting_withPolicy :
    (engine.withPolicy policy).compacting = engine.compacting := rfl

@[simp] theorem countSegments_withPolicy :
    (engine.withPolicy policy).countSegments = engine.countSegments := rfl

end Fields

theorem flush_withPolicy (engine : Engine) (fs : FileSystem) :
    (engine.withPolicy policy).flush fs = under policy (engine.flush fs) := by
  unfold Engine.flush
  rw [closed_withPolicy, flushing_withPolicy, active_withPolicy]
  split_ifs <;> rfl

theorem awaitFlush_withPolicy (engine : Engine) :
    (engine.withPolicy policy).awaitFlush =
      (engine.awaitFlush.1, engine.awaitFlush.2.withPolicy policy) := rfl

theorem makeRoom_withPolicy (engine : Engine) (fs : FileSystem) :
    (engine.withPolicy policy).makeRoom fs = under policy (engine.makeRoom fs) := by
  unfold makeRoom
  rw [flush_withPolicy, active_withPolicy, threshold_withPolicy, closed_withPolicy]
  split_ifs
  · rfl
  · rfl
  · rcases engine.flush fs with ⟨(_ | _ | _ | _ | _ | _) | _, flushed, files⟩
    case error.busy =>
      simp only [under, awaitFlush_withPolicy]
      rcases flushed.awaitFlush with ⟨_ | _, waited⟩ <;> rfl
    all_goals rfl

theorem put_withPolicy (engine : Engine) (entry : Entry) (fs : FileSystem) :
    (engine.withPolicy policy).put entry fs = under policy (engine.put entry fs) := by
  unfold put
  rw [makeRoom_withPolicy]
  rcases engine.makeRoom fs with ⟨_ | _, roomy, files⟩
  · rfl
  · cases hclosed : roomy.closed with
    | true => simp [under, hclosed]
    | false => simp [under, hclosed, withPolicy]

theorem putAll_withPolicy (engine : Engine) (fs : FileSystem) (entries : List Entry) :
    (engine.withPolicy policy).putAll fs entries = under policy (engine.putAll fs entries) := by
  induction entries generalizing engine fs with
  | nil => rfl
  | cons entry rest ih =>
    unfold putAll
    rw [put_withPolicy]
    rcases engine.put entry fs with ⟨_ | _, written, files⟩
    · rfl
    · exact ih written files

theorem mergeSegments_withPolicy (engine : Engine) (fs : FileSystem) :
    (engine.withPolicy policy).mergeSegments fs = under policy (engine.mergeSegments fs) := by
  unfold mergeSegments
  rw [closed_withPolicy, store_withPolicy, segments_withPolicy]
  split_ifs
  · rfl
  · rcases engine.store.compact engine.segments fs with ⟨_ | _ | _, store, files⟩ <;> rfl

/-- **The policy forbids only what would do nothing.** -/
theorem Gated.compact_eq (h : engine.Gated) (fs : FileSystem) :
    engine.compact fs =
      if engine.closed then (.error .closed, engine, fs)
      else if engine.countSegments < 2 || engine.compacting then (.ok (), engine, fs)
      else
        let (result, engine, fs) := engine.mergeSegments fs
        (.ok (), { engine with freshlyCompacted := result.isOk, compactionResult := some result },
          fs) := by
  have hallowed : (!engine.compactionAllowed || decide (engine.countSegments < 2)) =
      decide (engine.countSegments < 2) := by
    cases hfresh : engine.freshlyCompacted with
    | true => simp [h hfresh]
    | false => simp [compactionAllowed, hfresh]
  rw [Engine.compact, hallowed]

theorem compact_withPolicy (h : engine.Gated) (fs : FileSystem) :
    (engine.withPolicy policy).compact fs = under policy (engine.compact fs) := by
  have hother : (engine.withPolicy policy).Gated := h
  rw [h.compact_eq, hother.compact_eq, mergeSegments_withPolicy, closed_withPolicy,
    countSegments_withPolicy, compacting_withPolicy]
  split_ifs <;> rfl

theorem persist_withPolicy (engine : Engine) (fs : FileSystem) :
    (engine.withPolicy policy).persist fs = under policy (engine.persist fs) := by
  have hsealed : (engine.withPolicy policy).persistSealed fs =
      under policy (engine.persistSealed fs) := rfl
  unfold persist
  rw [hsealed]
  rcases engine.persistSealed fs with ⟨_ | _, written, files⟩
  · rfl
  · have hactive : (written.withPolicy policy).persistActive files =
        under policy (written.persistActive files) := by
      unfold persistActive
      rw [store_withPolicy, active_withPolicy]
      rcases written.store.flush written.active files with ⟨_ | _, store, files⟩ <;> rfl
    simp only [under, hactive]
    rcases written.persistActive files with ⟨_ | _, kept, files⟩ <;> rfl

theorem close_withPolicy (engine : Engine) (fs : FileSystem) :
    (engine.withPolicy policy).close fs = under policy (engine.close fs) := by
  have hclosed := @persist_withPolicy policy
    { engine with closed := true, flushResult := none, compactionResult := none } fs
  unfold Engine.close
  rw [closed_withPolicy, sealed_withPolicy, active_withPolicy]
  split_ifs
  · rfl
  · exact hclosed

/-- **The policy makes no difference to any request.** -/
theorem answer_withPolicy (h : engine.Gated) (fs : FileSystem) (request : Request) :
    (engine.withPolicy policy).answer fs request = under policy (engine.answer fs request) := by
  cases request with
  | put entry => exact congrArg tell (put_withPolicy engine entry fs)
  | putAll entries =>
    simp only [Engine.answer, putAll_withPolicy]
    rfl
  | flush => exact congrArg tell (flush_withPolicy engine fs)
  | compact => exact congrArg tell (compact_withPolicy h fs)
  | mergeSegments => exact congrArg tell (mergeSegments_withPolicy engine fs)
  | close => exact congrArg tell (close_withPolicy engine fs)
  | force flag on => cases flag <;> rfl
  | _ => rfl

/-- An engine is opened in the same way, and not compacted yet. -/
theorem load_withPolicy (settings : Settings) (fs : FileSystem) :
    load { settings with policy } fs =
      ((·.withPolicy policy) <$> (load settings fs).1, (load settings fs).2) := by
  have hfolder : ({ settings with policy } : Settings).folder = settings.folder := rfl
  unfold load
  rw [hfolder]
  cases settings.folder with
  | error cause => rfl
  | ok folder =>
    dsimp only
    rcases Store.load folder fs with ⟨_ | _, files⟩ <;> rfl

theorem gated_of_load {settings : Settings} (h : load settings fs = (.ok engine, files)) :
    engine.Gated := by
  intro hfresh
  unfold load at h
  split at h
  · cases h
  split at h
  · cases h
  · obtain rfl := Except.ok.inj (Prod.mk.inj h).1
    cases hfresh

end Engine

end LsmTree
