import LsmTree.Items.Live
import LsmTree.Items.Merge
import LsmTree.Proofs.Contents

/-!
# Proofs/Items/Merge — what a merge yields

Of a source that fails a merge reads the **clean** part, the entries before its first error
(`Item.clean`).  Where the clean parts are in key order, `Merge.left` is the list of everything
unread, freshest source first.  One step takes all entries of the least key out of it and yields the
first of them; the errors that stand right behind these entries are found by the same step, and one
of them, the freshest source's, waits (`Merge.Advances`).  So the whole merge yields, in key order,
the first entry of every key, each with the error of its key behind it (`Merge.Sorted.drain`).
-/

namespace LsmTree

open Entry

/-! ## Sources that fail -/

namespace Item

/-- The entries before the first error. -/
def clean : List Item → List Entry
  | [] => []
  | .error _ :: _ => []
  | .ok entry :: rest => entry :: clean rest

/-- The first error. -/
def error? : List Item → Option Error
  | [] => none
  | .error e :: _ => some e
  | .ok _ :: rest => error? rest

/-- The first error, if the entry right before it has the given key; without a key, if nothing is
before it. -/
def errorAfter (key : Option Bytes) (source : List Item) : Option Error :=
  if (clean source).getLast?.map Entry.key = key then error? source else none

variable {source rest : List Item} {entry : Entry} {key : Bytes}

@[simp] theorem entries_ok (es : List Entry) : entries (es.map .ok) = es := by
  induction es with
  | nil => rfl
  | cons e rest ih => simp [entries, ih]

@[simp] theorem clean_ok (es : List Entry) : clean (es.map .ok) = es := by
  induction es with
  | nil => rfl
  | cons e rest ih => simp [clean, ih]

@[simp] theorem error?_ok (es : List Entry) : error? (es.map .ok) = none := by
  induction es with
  | nil => rfl
  | cons e rest ih => simp [error?, ih]

theorem errorAfter_none_of_ok : errorAfter none (.ok entry :: rest) = none := by
  simp [errorAfter, clean]

theorem errorAfter_some_of_error (e : Error) :
    errorAfter (some key) (.error e :: rest) = none := by
  simp [errorAfter, clean]

/-- **An entry is the last clean one if an error is next.** -/
theorem errorAfter_self (h : Ascending (entry :: clean rest)) :
    errorAfter (some entry.key) (.ok entry :: rest) = errorAfter none rest := by
  simp only [errorAfter, clean, error?, List.getLast?_cons, Option.map_some]
  cases hlast : (clean rest).getLast? with
  | none => simp
  | some last =>
    have hlt := (List.pairwise_cons.mp h).1 last (List.mem_of_getLast? hlast)
    simp [(Std.ne_of_lt hlt).symm]

theorem errorAfter_of_ne (hne : entry.key ≠ key) :
    errorAfter (some key) (.ok entry :: rest) = errorAfter (some key) rest := by
  simp only [errorAfter, clean, error?, List.getLast?_cons, Option.map_some]
  cases (clean rest).getLast? with
  | none => simp [hne]
  | some last => simp

/-- A key that is not there is followed by no error. -/
theorem errorAfter_eq_none (h : ∀ e ∈ clean source, e.key ≠ key) :
    errorAfter (some key) source = none := by
  refine if_neg fun hlast => ?_
  obtain ⟨last, hmem, hkey⟩ := Option.map_eq_some_iff.mp hlast
  exact h last (List.mem_of_getLast? hmem) hkey

end Item

/-- What a source has left, its head included. -/
def Head.source (head : Head) : List Item := .ok head.entry :: head.rest

namespace Merge

/-! ## Reading sources -/

/-- The error of the freshest source that fails behind the given key. -/
def errorAfter (key : Option Bytes) (sources : List (List Item)) : Option Error :=
  sources.findSome? (Item.errorAfter key)

/-- What the sources have left, freshest first. -/
def sources (m : Merge) : List (List Item) := m.heads.map Head.source

/-- Every entry that is still to be read, freshest source first. -/
def left (m : Merge) : List Entry := m.sources.flatMap Item.clean

/-- Every source is in key order, as far as it will be read. -/
def Sorted (m : Merge) : Prop := ∀ source ∈ m.sources, Ascending (Item.clean source)

variable {m n o : Merge} {entry : Entry} {key : Bytes} {sources : List (List Item)}

@[simp] theorem errorAfter_nil (key : Option Bytes) : errorAfter key [] = none := rfl

@[simp] theorem errorAfter_append (key : Option Bytes) (newer older : List (List Item)) :
    errorAfter key (newer ++ older) = (errorAfter key newer).or (errorAfter key older) :=
  List.findSome?_append

@[simp] theorem errorAfter_cons (key : Option Bytes) (source : List Item)
    (older : List (List Item)) :
    errorAfter key (source :: older) = (Item.errorAfter key source).or (errorAfter key older) := by
  rw [errorAfter, List.findSome?_cons]
  cases Item.errorAfter key source <;> rfl

theorem errorAfter_eq_none (h : ∀ e ∈ sources.flatMap Item.clean, e.key ≠ key) :
    errorAfter (some key) sources = none :=
  List.findSome?_eq_none_iff.mpr fun source hsource =>
    Item.errorAfter_eq_none fun e he => h e (List.mem_flatMap.mpr ⟨source, hsource, he⟩)

/-- **A source that fails at once leaves its error**, unless one waits already. -/
theorem read_pending (pending : Option Error) (number : Nat) (source : List Item) :
    (read pending number source).2 = pending.or (Item.errorAfter none source) := by
  match source with
  | [] => exact Option.or_none.symm
  | .ok entry :: rest => rw [Item.errorAfter_none_of_ok, Option.or_none]; rfl
  | .error e :: rest => rfl

/-- The source, unless it has ended or failed. -/
def again : List Item → List (List Item)
  | [] => []
  | .error _ :: _ => []
  | .ok entry :: rest => [.ok entry :: rest]

/-- **A source that yields an entry is read on.** -/
theorem read_sources (pending : Option Error) (number : Nat) (source : List Item) :
    (read pending number source).1.toList.map Head.source = again source := by
  match source with
  | [] => rfl
  | .ok entry :: rest => rfl
  | .error e :: rest => rfl

theorem eq_of_mem_again {source other : List Item} (h : other ∈ again source) : other = source := by
  match source, h with
  | .ok entry :: rest, h => exact List.mem_singleton.mp h

@[simp] theorem flatMap_clean_again (source : List Item) :
    (again source).flatMap Item.clean = Item.clean source := by
  match source with
  | [] => rfl
  | .ok entry :: rest => exact List.append_nil _
  | .error e :: rest => rfl

@[simp] theorem errorAfter_again (key : Bytes) (source : List Item) :
    errorAfter (some key) (again source) = Item.errorAfter (some key) source := by
  match source with
  | [] => rfl
  | .ok entry :: rest => exact (errorAfter_cons _ _ _).trans Option.or_none
  | .error e :: rest => exact (Item.errorAfter_some_of_error e).symm

theorem errorAfter_flatMap_again (key : Bytes) (sources : List (List Item)) :
    errorAfter (some key) (sources.flatMap again) = errorAfter (some key) sources := by
  induction sources with
  | nil => rfl
  | cons source older ih => rw [List.flatMap_cons, errorAfter_append, errorAfter_again, ih,
      errorAfter_cons]

/-- **What is added to a merge stands behind what was there.** -/
theorem sources_addSources (m : Merge) (number : Nat) (added : List (List Item)) :
    (m.addSources number added).sources = m.sources ++ added.flatMap again := by
  induction added generalizing m number with
  | nil => exact (List.append_nil _).symm
  | cons source older ih =>
    rw [addSources, ih, List.flatMap_cons, ← List.append_assoc, ← read_sources m.pending number]
    exact congrArg (· ++ _) List.map_append

theorem pending_addSources (m : Merge) (number : Nat) (added : List (List Item)) :
    (m.addSources number added).pending = m.pending.or (errorAfter none added) := by
  induction added generalizing m number with
  | nil => exact Option.or_none.symm
  | cons source older ih => rw [addSources, ih, read_pending, errorAfter_cons, Option.or_assoc]

/-! ## Taking the least head -/

/-- **No head has a smaller key**, and those in front of the least one have greater keys. -/
theorem least?_le {heads before behind : List Head} {head : Head}
    (h : least? heads = some (before, head, behind)) :
    (∀ x ∈ before, head.entry.key < x.entry.key) ∧ ∀ x ∈ behind, head.entry.key ≤ x.entry.key := by
  induction heads generalizing before head behind with
  | nil => cases h
  | cons first older ih =>
    rcases least?_cons_eq_some h with ⟨rfl, rfl, rfl, hfirst⟩ | ⟨newer, rfl, hleast, hlt⟩
    · refine ⟨by simp, fun x hx => ?_⟩
      rcases hleast : least? behind with _ | ⟨newer, other, rest⟩
      · simp [least?_eq_none hleast] at hx
      have hle := hfirst newer other rest hleast
      obtain ⟨hnewer, hrest⟩ := ih hleast
      rw [least?_eq_some hleast] at hx
      rcases List.mem_append.mp hx with hx | hx
      · exact Std.le_trans hle (Std.le_of_lt (hnewer x hx))
      rcases List.mem_cons.mp hx with rfl | hx
      · exact hle
      · exact Std.le_trans hle (hrest x hx)
    · obtain ⟨hnewer, hbehind⟩ := ih hleast
      exact ⟨List.forall_mem_cons.mpr ⟨hlt, hnewer⟩, hbehind⟩

theorem heads_eq_nil_of_pop? (h : m.pop? = none) : m.heads = [] := by
  unfold pop? at h
  split at h
  · exact least?_eq_none ‹_›
  · cases h

/-- **A pop reads the source with the least key on**; what stands before that source has greater
keys. -/
theorem pop?_spec (h : m.pop? = some (entry, n)) :
    ∃ (before : List Head) (rest : List Item) (behind : List Head),
      m.sources = before.map Head.source ++ (.ok entry :: rest) :: behind.map Head.source ∧
      n.sources = before.map Head.source ++ again rest ++ behind.map Head.source ∧
      n.pending = m.pending.or (Item.errorAfter none rest) ∧
      (∀ x ∈ before, entry.key < x.entry.key) ∧ ∀ x ∈ behind, entry.key ≤ x.entry.key := by
  unfold pop? at h
  split at h
  · cases h
  rename_i before head behind hleast
  obtain ⟨rfl, rfl⟩ := Prod.mk.inj (Option.some.inj h)
  refine ⟨before, head.rest, behind, ?_, ?_, read_pending _ _ _, least?_le hleast⟩
  · rw [sources, least?_eq_some hleast, List.map_append]
    rfl
  · simp only [sources, List.map_append, read_sources]

/-! ## Sorted sources -/

theorem exists_head_le {heads : List Head}
    (h : ∀ head ∈ heads, Ascending (Item.clean head.source)) {e : Entry}
    (he : e ∈ (heads.map Head.source).flatMap Item.clean) :
    ∃ head ∈ heads, head.entry.key ≤ e.key := by
  obtain ⟨source, hsource, hmem⟩ := List.mem_flatMap.mp he
  obtain ⟨head, hhead, rfl⟩ := List.mem_map.mp hsource
  refine ⟨head, hhead, ?_⟩
  rcases List.mem_cons.mp hmem with rfl | hrest
  · exact Std.le_refl _
  · exact Std.le_of_lt ((List.pairwise_cons.mp (h head hhead)).1 e hrest)

/-- The merge has read entries of one key: the others are left, and so are the errors, except that
one behind an entry of the key may wait already. -/
structure Advances (key : Bytes) (m n : Merge) : Prop where
  sorted : n.Sorted
  subset : n.left ⊆ m.left
  filter_left : n.left.filter (·.key ≠ key) = m.left.filter (·.key ≠ key)
  errorAfter_eq : ∀ other ≠ key, errorAfter (some other) n.sources = errorAfter (some other) m.sources
  pending_or : n.pending.or (errorAfter (some key) n.sources) =
    m.pending.or (errorAfter (some key) m.sources)

theorem Advances.refl (h : m.Sorted) : Advances key m m :=
  ⟨h, List.Subset.refl _, rfl, fun _ _ => rfl, rfl⟩

theorem Advances.trans (h : Advances key m n) (h' : Advances key n o) : Advances key m o where
  sorted := h'.sorted
  subset _ he := h.subset (h'.subset he)
  filter_left := h'.filter_left.trans h.filter_left
  errorAfter_eq other hne := (h'.errorAfter_eq other hne).trans (h.errorAfter_eq other hne)
  pending_or := h'.pending_or.trans h.pending_or

/-- **A pop takes one entry out of one source**: nothing of its key stands in front of it, and
nothing anywhere has a smaller key. -/
theorem Sorted.pop?_split (h : m.Sorted) (hpop : m.pop? = some (entry, n)) :
    ∃ newer rest older, m.sources = newer ++ (.ok entry :: rest) :: older ∧
      n.sources = newer ++ again rest ++ older ∧
      n.pending = m.pending.or (Item.errorAfter none rest) ∧
      (∀ e ∈ newer.flatMap Item.clean, entry.key < e.key) ∧
      ∀ e ∈ older.flatMap Item.clean, entry.key ≤ e.key := by
  obtain ⟨before, rest, behind, hm, hn, hpending, hbefore, hbehind⟩ := pop?_spec hpop
  rw [Sorted, hm] at h
  simp only [List.forall_mem_append, List.forall_mem_cons, List.forall_mem_map] at h
  refine ⟨_, rest, _, hm, hn, hpending, fun e he => ?_, fun e he => ?_⟩
  · obtain ⟨head, hhead, hle⟩ := exists_head_le h.1 he
    exact Std.lt_of_lt_of_le (hbefore head hhead) hle
  · obtain ⟨head, hhead, hle⟩ := exists_head_le h.2.2 he
    exact Std.le_trans (hbehind head hhead) hle

/-- **A pop yields the first entry of the least key.** -/
theorem Sorted.first?_of_pop? (h : m.Sorted) (hpop : m.pop? = some (entry, n)) :
    first? entry.key m.left = some entry := by
  obtain ⟨newer, rest, older, hm, -, -, hnewer, -⟩ := h.pop?_split hpop
  have hmiss : first? entry.key (newer.flatMap Item.clean) = none :=
    first?_eq_none_iff.mpr fun e he => (Std.ne_of_lt (hnewer e he)).symm
  rw [left, hm, List.flatMap_append, first?_append, hmiss, Option.none_or]
  exact first?_cons.trans (if_pos rfl)

theorem Sorted.le_of_pop? (h : m.Sorted) (hpop : m.pop? = some (entry, n)) :
    ∀ e ∈ m.left, entry.key ≤ e.key := by
  obtain ⟨newer, rest, older, hm, -, -, hnewer, holder⟩ := h.pop?_split hpop
  have hentry : Ascending (entry :: Item.clean rest) := h (.ok entry :: rest) (by simp [hm])
  intro e he
  simp only [left, hm, List.flatMap_append, List.flatMap_cons, List.mem_append, Item.clean,
    List.mem_cons] at he
  rcases he with he | (rfl | he) | he
  · exact Std.le_of_lt (hnewer e he)
  · exact Std.le_refl _
  · exact Std.le_of_lt ((List.pairwise_cons.mp hentry).1 e he)
  · exact holder e he

/-- **A pop reads one entry**, and the error behind it waits if none did. -/
theorem Sorted.pop? (h : m.Sorted) (hpop : m.pop? = some (entry, n)) :
    Advances entry.key m n := by
  obtain ⟨newer, rest, older, hm, hn, hpending, hnewer, -⟩ := h.pop?_split hpop
  rw [Sorted, hm] at h
  simp only [List.forall_mem_append, List.forall_mem_cons] at h
  obtain ⟨hsorted, hentry, holder⟩ := h
  obtain ⟨hlater, hrest⟩ := List.pairwise_cons.mp hentry
  refine ⟨?_, fun e he => ?_, ?_, fun other hne => ?_, ?_⟩
  · rw [Sorted, hn]
    simp only [List.forall_mem_append]
    exact ⟨⟨hsorted, fun source hsource => eq_of_mem_again hsource ▸ hrest⟩, holder⟩
  · simp only [left, hn, hm, List.flatMap_append, List.flatMap_cons, flatMap_clean_again,
      List.mem_append, Item.clean, List.mem_cons] at he ⊢
    tauto
  · simp [left, hn, hm, Item.clean]
  · simp [hn, hm, Item.errorAfter_of_ne (Ne.symm hne)]
  · have hfront : errorAfter (some entry.key) newer = none :=
      errorAfter_eq_none fun e he => (Std.ne_of_lt (hnewer e he)).symm
    have hnext : Item.errorAfter (some entry.key) rest = none :=
      Item.errorAfter_eq_none fun e he => (Std.ne_of_lt (hlater e he)).symm
    simp [hn, hm, hfront, hnext, hpending, Item.errorAfter_self hentry, Option.or_assoc]

theorem left_eq_nil_of_pop? (h : m.pop? = none) : m.left = [] := by
  rw [left, sources, heads_eq_nil_of_pop? h]
  rfl

/-- **Passing over a key takes all its entries out**, if no smaller key is left. -/
theorem Sorted.skip (h : m.Sorted) (hle : ∀ e ∈ m.left, key ≤ e.key) :
    Advances key m (skip key m) ∧ ∀ e ∈ (Merge.skip key m).left, e.key ≠ key := by
  fun_induction Merge.skip key m with
  | case1 m hpop => exact ⟨.refl h, by simp [left_eq_nil_of_pop? hpop]⟩
  | case2 m entry n hpop hkey ih =>
    subst hkey
    have hpopped := h.pop? hpop
    obtain ⟨hskipped, hnone⟩ := ih hpopped.sorted fun e he => hle e (hpopped.subset he)
    exact ⟨hpopped.trans hskipped, hnone⟩
  | case3 m entry n hpop hkey =>
    have hmem := mem_of_first? (h.first?_of_pop? hpop)
    -- the least key left is not the one to pass over, so it is greater, and so are all others
    have hlt : key < entry.key := Std.lt_of_le_of_ne (hle entry hmem) (Ne.symm hkey)
    refine ⟨.refl h, fun e he => (Std.ne_of_lt ?_).symm⟩
    exact Std.lt_of_lt_of_le hlt (h.le_of_pop? hpop e he)

/-! ## The whole merge -/

/-- An entry with the errors that are yielded behind it. -/
def followed (sources : List (List Item)) (entry : Entry) : List Item :=
  .ok entry :: (errorAfter (some entry.key) sources).toList.map .error

/-- An error that waits comes first. -/
theorem drain_eq_append (m : Merge) : ItemStream.drain m =
    m.pending.toList.map .error ++ ItemStream.drain { m with pending := none } := by
  obtain ⟨_ | e, heads⟩ := m
  · rfl
  · exact ItemStream.drain_of_some rfl

theorem drain_of_pop? (hpending : m.pending = none) (hpop : m.pop? = some (entry, n)) :
    ItemStream.drain m = .ok entry :: ItemStream.drain (skip entry.key n) :=
  ItemStream.drain_of_some (by simp [ItemStream.next?, next?, hpending, hpop])

theorem drain_of_pop?_none (hpending : m.pending = none) (hpop : m.pop? = none) :
    ItemStream.drain m = [] :=
  ItemStream.drain_of_none (by simp [ItemStream.next?, next?, hpending, hpop])

/-- **One step yields the first entry of the least key**; its other entries are gone, and the
freshest of the errors behind them waits. -/
theorem Sorted.step (h : m.Sorted) (hpending : m.pending = none)
    (hpop : m.pop? = some (entry, n)) : (Merge.skip entry.key n).Sorted ∧
      (Merge.skip entry.key n).pending = errorAfter (some entry.key) m.sources ∧
      (Merge.skip entry.key n).left = m.left.filter (·.key ≠ entry.key) ∧
      ∀ other ≠ entry.key, errorAfter (some other) (Merge.skip entry.key n).sources =
        errorAfter (some other) m.sources := by
  have hpopped := h.pop? hpop
  obtain ⟨hskipped, hgone⟩ := hpopped.sorted.skip fun e he =>
    h.le_of_pop? hpop e (hpopped.subset he)
  have hstep := hpopped.trans hskipped
  refine ⟨hstep.sorted, ?_, ?_, hstep.errorAfter_eq⟩
  · have hor := hstep.pending_or
    rwa [errorAfter_eq_none hgone, Option.or_none, hpending, Option.none_or] at hor
  · rw [← hstep.filter_left]
    exact (List.filter_eq_self.mpr fun e he => decide_eq_true (hgone e he)).symm

/-- **A merge yields the first entry of every key, in key order**, and behind it the error of the
freshest source that fails there. -/
theorem Sorted.drain {m : Merge} (h : m.Sorted) :
    ∃ es, Newest m.left es ∧ ItemStream.drain m =
      m.pending.toList.map .error ++ es.flatMap (followed m.sources) := by
  rw [drain_eq_append]
  match hpop : Merge.pop? { m with pending := none } with
  | none =>
    have hnil : m.left = [] := left_eq_nil_of_pop? (m := { m with pending := none }) hpop
    rw [hnil, drain_of_pop?_none rfl hpop]
    exact ⟨[], ⟨.nil, fun _ => rfl⟩, rfl⟩
  | some (entry, o) =>
    have hclear : Sorted { m with pending := none } := h
    have hfirst := hclear.first?_of_pop? hpop
    have hleast := hclear.le_of_pop? hpop
    obtain ⟨hsorted, hwaits, hleft, herrors⟩ := hclear.step rfl hpop
    obtain ⟨es, hes, hdrain⟩ := hsorted.drain
    rw [hleft] at hes
    have htail : es.flatMap (followed (Merge.skip entry.key o).sources) =
        es.flatMap (followed m.sources) := by
      refine List.flatMap_congr fun e he => ?_
      have hne := (List.mem_filter.mp (mem_of_first? (hes.mem_iff.mp he))).2
      rw [followed, herrors _ (of_decide_eq_true hne)]
      rfl
    refine ⟨entry :: es, .cons hfirst hleast hes, ?_⟩
    rw [drain_of_pop? rfl hpop, hdrain, hwaits, htail]
    rfl
termination_by m.remaining
decreasing_by
  refine Nat.lt_of_le_of_lt (remaining_skip_le _ _) (Nat.lt_of_lt_of_le (remaining_pop?_lt hpop) ?_)
  simp [remaining]

/-- **The items of several sources**: the error of the freshest source that fails at once, then the
first entry of every key that is read, in key order, each with the error behind it. -/
theorem items_eq (h : ∀ source ∈ sources, Ascending (Item.clean source)) :
    ∃ es, Newest (sources.flatMap Item.clean) es ∧ items sources =
      (errorAfter none sources).toList.map .error ++ es.flatMap (followed sources) := by
  have hsources : (ofSources sources).sources = sources.flatMap again :=
    sources_addSources {} 0 sources
  have hsorted : (ofSources sources).Sorted := by
    intro source hsource
    rw [hsources] at hsource
    obtain ⟨other, hother, hmem⟩ := List.mem_flatMap.mp hsource
    exact eq_of_mem_again hmem ▸ h other hother
  have hleft : (ofSources sources).left = sources.flatMap Item.clean := by
    rw [left, hsources, List.flatMap_assoc]
    simp only [flatMap_clean_again]
  have hfollowed : followed (ofSources sources).sources = followed sources := by
    funext entry
    rw [followed, hsources, errorAfter_flatMap_again]
    rfl
  obtain ⟨es, hes, hdrain⟩ := hsorted.drain
  rw [hfollowed, ofSources, pending_addSources] at hdrain
  exact ⟨es, hleft ▸ hes, hdrain⟩

theorem errorAfter_eq_none_of_ok (h : ∀ source ∈ sources, Item.error? source = none)
    (key : Option Bytes) : errorAfter key sources = none := by
  refine List.findSome?_eq_none_iff.mpr fun source hsource => ?_
  rw [Item.errorAfter, h source hsource, ite_self]

/-- **Sources without errors are merged without errors.** -/
theorem flatMap_followed_of_ok (h : ∀ source ∈ sources, Item.error? source = none)
    (es : List Entry) :
    (errorAfter none sources).toList.map .error ++ es.flatMap (followed sources) = es.map .ok := by
  have hfollowed : followed sources = fun entry => [.ok entry] := by
    funext entry
    rw [followed, errorAfter_eq_none_of_ok h]
    rfl
  rw [errorAfter_eq_none_of_ok h, hfollowed]
  exact List.map_eq_flatMap.symm

theorem items_ok {layers : List (List Entry)} (h : ∀ es ∈ layers, Ascending es) :
    ∃ es, Newest layers.flatten es ∧ items (layers.map (·.map .ok)) = es.map .ok := by
  obtain ⟨es, hes, hitems⟩ := @items_eq (layers.map (·.map .ok)) (by simpa using h)
  refine ⟨es, ?_, hitems.trans (flatMap_followed_of_ok (by simp) es)⟩
  rwa [List.flatMap_map, show (fun layer : List Entry => Item.clean (layer.map .ok)) = id from
    funext Item.clean_ok, List.flatMap_id] at hes

end Merge

/-- **Merged layers without their tombstones list what the layers amount to**, the freshest layer
first. -/
theorem drain_live_merge {layers : List (List Entry)} (h : ∀ es ∈ layers, Ascending es) :
    ∃ es, ItemStream.drain (Live.mk (Merge.ofSources (layers.map (·.map .ok)))) = es.map .ok ∧
      (Contents.ofEntries layers.flatten).Lists es := by
  obtain ⟨es, hes, hitems⟩ := Merge.items_ok h
  refine ⟨es.filter fun entry => !entry.isTombstone, ?_,
    Contents.lists_filter hes.ascending hes.first?_eq⟩
  rw [Live.drain_eq, ← Merge.items, hitems, List.filter_map]
  rfl

end LsmTree
