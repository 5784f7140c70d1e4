import Mathlib.Data.List.Forall2
import LsmTree.Proofs.Items.Merge

/-!
# Proofs/Items/Errors — what sources that fail do to a merge

A merge reads every source to its end or to its first error.  While it keeps one error at most, it
never loses the last one (`Merge.Keeps`), so its items have an error whenever a source has one, in
whatever order the sources are (`Merge.exists_error_items_iff`).  In key order more is true: a
source that fails has been read up to every key that is yielded before the error, so nothing behind
the error is missing there (`Merge.begins_items`).
-/

namespace LsmTree

open Entry

namespace Item

variable {found : List Item} {es fs : List Entry} {entry : Entry} {e : Error}

/-! ## The first error -/

theorem error?_of_errorAfter {key : Option Bytes} (h : errorAfter key found = some e) :
    error? found = some e := by
  unfold errorAfter at h
  split at h
  · exact h
  · cases h

theorem error?_eq_none_iff : error? found = none ↔ ∀ e, .error e ∉ found := by
  induction found with
  | nil => simp [error?]
  | cons item rest ih =>
    cases item with
    | ok entry => simp [error?, ih]
    | error other => exact iff_of_false (by simp [error?]) fun h => h other List.mem_cons_self

theorem mem_of_error? (h : error? found = some e) : .error e ∈ found := by
  induction found with
  | nil => cases h
  | cons item rest ih =>
    cases item with
    | ok entry => exact List.mem_cons_of_mem _ (ih h)
    | error other => exact Option.some.inj h ▸ List.mem_cons_self

/-! ## Beginnings -/

/-- The entries before the first error begin the list, and are all of it if there is no error. -/
structure Begins (found : List Item) (es : List Entry) : Prop where
  isPrefix : clean found <+: es
  eq_of_ok : error? found = none → clean found = es

theorem Begins.nil : Begins [] [] := ⟨List.prefix_refl _, fun _ => rfl⟩

theorem Begins.cons (h : Begins found es) : Begins (.ok entry :: found) (entry :: es) :=
  ⟨(List.prefix_cons_inj entry).mpr h.isPrefix, fun hok => congrArg _ (h.eq_of_ok hok)⟩

theorem Begins.error (e : Error) (found : List Item) (es : List Entry) :
    Begins (.error e :: found) es :=
  ⟨List.nil_prefix, fun hok => nomatch hok⟩

/-- **Up to the last clean key nothing is missing.** -/
theorem Begins.first?_eq (h : Begins found es) (hes : Ascending es) {key : Bytes}
    (hread : error? found ≠ none → ∃ last ∈ clean found, key ≤ last.key) :
    first? key (clean found) = first? key es := by
  by_cases herror : error? found = none
  · rw [h.eq_of_ok herror]
  obtain ⟨last, hlast, hle⟩ := hread herror
  obtain ⟨missing, rfl⟩ := h.isPrefix
  have hnone : first? key missing = none := first?_eq_none_iff.mpr fun e he =>
    (Std.ne_of_lt (Std.lt_of_le_of_lt hle ((List.pairwise_append.mp hes).2.2 last hlast e he))).symm
  rw [first?_append, hnone, Option.or_none]

/-- Lists that agree up to the first key of one of them begin with the same entry. -/
theorem exists_cons_of_agree (hes : Ascending (entry :: es)) (hfs : Ascending fs)
    (h : ∀ key ≤ entry.key, first? key (entry :: es) = first? key fs) :
    ∃ rest, fs = entry :: rest := by
  have hmem : entry ∈ fs := mem_of_first? <|
    (h entry.key (Std.le_refl _)).symm.trans (first?_cons.trans (if_pos rfl))
  match fs, hfs, hmem with
  | first :: rest, hfs, hmem =>
    rcases List.mem_cons.mp hmem with rfl | hmem
    · exact ⟨rest, rfl⟩
    -- otherwise the other list begins with a smaller key, which this one would have to have
    have hlt : first.key < entry.key := (List.pairwise_cons.mp hfs).1 entry hmem
    have hfirst := (h first.key (Std.le_of_lt hlt)).trans (first?_cons.trans (if_pos rfl))
    rcases List.mem_cons.mp (mem_of_first? hfirst) with rfl | hlater
    · exact ⟨rest, rfl⟩
    · exact absurd ((List.pairwise_cons.mp hes).1 first hlater) (List.lt_asymm hlt)

theorem first?_tail_eq (hes : Ascending (entry :: es)) (hfs : Ascending (entry :: fs)) {key : Bytes}
    (h : key ≠ entry.key → first? key (entry :: es) = first? key (entry :: fs)) :
    first? key es = first? key fs := by
  by_cases hkey : key = entry.key
  · have hmiss {gs : List Entry} (hgs : Ascending (entry :: gs)) : first? key gs = none :=
      first?_eq_none_iff.mpr fun e he =>
        hkey ▸ (Std.ne_of_lt ((List.pairwise_cons.mp hgs).1 e he)).symm
    rw [hmiss hes, hmiss hfs]
  · simpa [first?_cons, Ne.symm hkey] using h hkey

/-- **Lists that agree up to the first error begin alike.** -/
theorem begins_of_agree (behind : Entry → Option Error) (hes : Ascending es) (hfs : Ascending fs)
    (h : ∀ key, (∀ e ∈ es, e.key < key → behind e = none) → first? key es = first? key fs) :
    Begins (es.flatMap fun e => .ok e :: (behind e).toList.map .error) fs := by
  induction es generalizing fs with
  | nil =>
    obtain rfl : fs = [] := List.eq_nil_iff_forall_not_mem.mpr fun e he =>
      first?_eq_none_iff.mp (h e.key (by simp)).symm e he rfl
    exact .nil
  | cons a rest ih =>
    obtain ⟨hlater, hrest⟩ := List.pairwise_cons.mp hes
    obtain ⟨others, rfl⟩ := exists_cons_of_agree hes hfs fun key hle => h key fun e he hlt => by
      rcases List.mem_cons.mp he with rfl | he
      · exact absurd hle (Std.not_le.mpr hlt)
      · exact absurd (Std.lt_trans (hlater e he) hlt) (Std.not_lt.mpr hle)
    rw [List.flatMap_cons]
    cases hbehind : behind a with
    | some e => exact (Begins.error e _ others).cons
    | none =>
      refine (ih hrest (List.pairwise_cons.mp hfs).2 fun key hkey => ?_).cons
      refine first?_tail_eq hes hfs fun _ => h key fun e he hlt => ?_
      rcases List.mem_cons.mp he with rfl | he
      · exact hbehind
      · exact hkey e he hlt

end Item

namespace Merge

variable {m n : Merge} {entry : Entry} {e : Error} {sources : List (List Item)}
  {layers : List (List Entry)}

/-! ## No source's error is lost -/

/-- The error waits, or a source will fail with it. -/
def Waits (m : Merge) (e : Error) : Prop :=
  m.pending = some e ∨ ∃ source ∈ m.sources, Item.error? source = some e

/-- The errors of the later merge are those of the earlier one, though perhaps not all; there is one
if there was one. -/
structure Keeps (m n : Merge) : Prop where
  waits : ∀ {e}, n.Waits e → m.Waits e
  exists_waits : (∃ e, m.Waits e) → ∃ e, n.Waits e

theorem Keeps.refl (m : Merge) : Keeps m m := ⟨id, id⟩

theorem Keeps.trans {o : Merge} (h : Keeps m n) (h' : Keeps n o) : Keeps m o :=
  ⟨fun he => h.waits (h'.waits he), fun he => h'.exists_waits (h.exists_waits he)⟩

/-- **A source that will fail fails at once or is read on.** -/
theorem waits_again {source : List Item} (h : Item.error? source = some e) :
    Item.errorAfter none source = some e ∨ source ∈ again source := by
  match source with
  | .ok entry :: rest => exact .inr List.mem_cons_self
  | .error cause :: rest => exact .inl h

/-- **A pop loses no error but for another that waits**, and finds none that was not to come. -/
theorem keeps_of_pop? (h : m.pop? = some (entry, n)) : Keeps m n := by
  obtain ⟨before, rest, behind, hm, hn, hpending, -, -⟩ := pop?_spec h
  have hothers (source) : source ∈ n.sources ↔
      source ∈ before.map Head.source ∨ source ∈ again rest ∨ source ∈ behind.map Head.source := by
    rw [hn, List.append_assoc, List.mem_append, List.mem_append]
  constructor
  · rintro e (he | ⟨source, hsource, he⟩)
    · rw [hpending, Option.or_eq_some_iff] at he
      rcases he with he | ⟨-, he⟩
      · exact .inl he
      · exact .inr ⟨.ok entry :: rest, by simp [hm], (Item.error?_of_errorAfter he :)⟩
    · rcases (hothers source).mp hsource with hsource | hsource | hsource
      · exact .inr ⟨source, by simp [hm, hsource], he⟩
      · obtain rfl := eq_of_mem_again hsource
        exact .inr ⟨.ok entry :: source, by simp [hm], he⟩
      · exact .inr ⟨source, by simp [hm, hsource], he⟩
  · rintro ⟨e, he⟩
    -- an error that waits already stays; then that of the source read on may be dropped
    cases hwaits : m.pending.or (Item.errorAfter none rest) with
    | some other => exact ⟨other, .inl (hpending.trans hwaits)⟩
    | none =>
      obtain ⟨hnone, hrest⟩ := Option.or_eq_none_iff.mp hwaits
      obtain ⟨source, hsource, he⟩ := he.resolve_left (by simp [hnone])
      rw [hm, List.mem_append, List.mem_cons] at hsource
      rcases hsource with hsource | rfl | hsource
      · exact ⟨e, .inr ⟨source, (hothers _).mpr (.inl hsource), he⟩⟩
      · have hagain := (@waits_again _ rest he).resolve_left (by simp [hrest])
        exact ⟨e, .inr ⟨rest, (hothers _).mpr (.inr (.inl hagain)), he⟩⟩
      · exact ⟨e, .inr ⟨source, (hothers _).mpr (.inr (.inr hsource)), he⟩⟩

theorem keeps_skip (key : Bytes) (m : Merge) : Keeps m (skip key m) := by
  fun_induction skip key m with
  | case1 m hpop => exact .refl m
  | case2 m entry n hpop hkey ih => exact (keeps_of_pop? hpop).trans ih
  | case3 m entry n hpop hkey => exact .refl m

theorem error_mem_append_iff {pending : Option Error} {items : List Item} :
    .error e ∈ pending.toList.map .error ++ items ↔ pending = some e ∨ .error e ∈ items := by
  simp

/-- **An error is yielded if one is to come**, and only errors that are to come. -/
theorem errors_drain (m : Merge) : (∀ e, .error e ∈ ItemStream.drain m → m.Waits e) ∧
    ((∃ e, m.Waits e) → ∃ e, .error e ∈ ItemStream.drain m) := by
  simp only [drain_eq_append m, error_mem_append_iff]
  match hpop : Merge.pop? { m with pending := none } with
  | none =>
    have hnil : m.heads = [] := heads_eq_nil_of_pop? (m := { m with pending := none }) hpop
    rw [drain_of_pop?_none rfl hpop]
    simp [Waits, Merge.sources, hnil]
  | some (entry, o) =>
    have hkeeps := (keeps_of_pop? hpop).trans (keeps_skip entry.key o)
    obtain ⟨honly, hexists⟩ := errors_drain (skip entry.key o)
    rw [drain_of_pop? rfl hpop]
    refine ⟨fun e he => ?_, ?_⟩
    · rcases he with he | he
      · exact .inl he
      · have hlater := honly e ((List.mem_cons.mp he).resolve_left (by simp))
        exact .inr ((hkeeps.waits hlater).resolve_left (by simp))
    · rintro ⟨e, he | he⟩
      · exact ⟨e, .inl he⟩
      · obtain ⟨other, hother⟩ := hexists (hkeeps.exists_waits ⟨e, .inr he⟩)
        exact ⟨other, .inr (List.mem_cons_of_mem _ hother)⟩
termination_by m.remaining
decreasing_by
  refine Nat.lt_of_le_of_lt (remaining_skip_le _ _) (Nat.lt_of_lt_of_le (remaining_pop?_lt hpop) ?_)
  simp [remaining]

/-- **Every error of a merge is the first error of a source.** -/
theorem error?_of_mem_items (h : .error e ∈ items sources) :
    ∃ source ∈ sources, Item.error? source = some e := by
  have hsources : (ofSources sources).sources = sources.flatMap again :=
    sources_addSources {} 0 sources
  rcases (errors_drain _).1 e h with he | ⟨source, hsource, he⟩
  · rw [ofSources, pending_addSources, errorAfter] at he
    obtain ⟨source, hsource, he⟩ := List.exists_of_findSome?_eq_some he
    exact ⟨source, hsource, Item.error?_of_errorAfter he⟩
  · rw [hsources] at hsource
    obtain ⟨other, hother, hmem⟩ := List.mem_flatMap.mp hsource
    exact ⟨other, hother, eq_of_mem_again hmem ▸ he⟩

/-- **A merge has an error if and only if a source has one**, in whatever order the entries are. -/
theorem exists_error_items_iff (sources : List (List Item)) :
    (∃ e, .error e ∈ items sources) ↔ ∃ source ∈ sources, ∃ e, .error e ∈ source := by
  constructor
  · rintro ⟨e, he⟩
    obtain ⟨source, hsource, herror⟩ := error?_of_mem_items he
    exact ⟨source, hsource, e, Item.mem_of_error? herror⟩
  · rintro ⟨source, hsource, e, he⟩
    obtain ⟨first, hfirst⟩ : ∃ first, Item.error? source = some first :=
      Option.ne_none_iff_exists'.mp fun hnone => Item.error?_eq_none_iff.mp hnone e he
    refine (errors_drain (ofSources sources)).2 ?_
    cases hwaits : errorAfter none sources with
    | some other => exact ⟨other, .inl (by rw [ofSources, pending_addSources, hwaits]; rfl)⟩
    | none =>
      have hnot := List.findSome?_eq_none_iff.mp hwaits source hsource
      refine ⟨first, .inr ⟨source, ?_, hfirst⟩⟩
      rw [ofSources, sources_addSources]
      refine List.mem_append_right _ (List.mem_flatMap.mpr ⟨source, hsource, ?_⟩)
      exact (waits_again hfirst).resolve_left (by simp [hnot])

/-! ## Sources in key order -/

/-- **Up to a key that every source was read to, nothing is missing.** -/
theorem first?_flatMap_clean (h : List.Forall₂ Item.Begins sources layers)
    (hlayers : ∀ es ∈ layers, Ascending es) {key : Bytes}
    (hread : ∀ source ∈ sources, Item.error? source ≠ none →
      ∃ last ∈ Item.clean source, key ≤ last.key) :
    first? key (sources.flatMap Item.clean) = first? key layers.flatten := by
  induction h with
  | nil => rfl
  | cons hbegins _ ih =>
    simp only [List.forall_mem_cons] at hlayers hread
    rw [List.flatMap_cons, first?_append, hbegins.first?_eq hlayers.1 hread.1,
      ih hlayers.2 hread.2, List.flatten_cons, first?_append]

theorem ascending_clean (h : List.Forall₂ Item.Begins sources layers)
    (hlayers : ∀ es ∈ layers, Ascending es) : ∀ source ∈ sources, Ascending (Item.clean source) := by
  induction h with
  | nil => simp
  | cons hbegins _ ih =>
    simp only [List.forall_mem_cons] at hlayers ⊢
    exact ⟨hlayers.1.sublist hbegins.isPrefix.sublist, ih hlayers.2⟩

/-- **A source that fails has been read up to every key before its error.** -/
theorem exists_last_of_quiet {es : List Entry} (hes : Newest (sources.flatMap Item.clean) es)
    {key : Bytes} (hnone : errorAfter none sources = none)
    (hquiet : ∀ e ∈ es, e.key < key → errorAfter (some e.key) sources = none)
    {source : List Item} (hsource : source ∈ sources) (hfails : Item.error? source ≠ none) :
    ∃ last ∈ Item.clean source, key ≤ last.key := by
  have hloud (k : Option Bytes) (hk : (Item.clean source).getLast?.map Entry.key = k) :
      errorAfter k sources ≠ none := fun h =>
    hfails ((if_pos hk).symm.trans (List.findSome?_eq_none_iff.mp h source hsource))
  cases hlast : (Item.clean source).getLast? with
  | none => exact absurd hnone (hloud none (by rw [hlast]; rfl))
  | some last =>
    have hmem := List.mem_of_getLast? hlast
    refine ⟨last, hmem, Std.not_lt.mp fun hlt => ?_⟩
    -- the key of the last clean entry is yielded, by this source or by a fresher one
    have hall : last ∈ sources.flatMap Item.clean := List.mem_flatMap.mpr ⟨source, hsource, hmem⟩
    obtain ⟨first, hfirst⟩ : ∃ first, first? last.key (sources.flatMap Item.clean) = some first :=
      Option.ne_none_iff_exists'.mp fun hmiss => first?_eq_none_iff.mp hmiss last hall rfl
    have hkey : first.key = last.key := key_of_first? hfirst
    have hyields : first ∈ es := hes.mem_iff.mpr (hkey ▸ hfirst)
    exact hloud (some last.key) (by rw [hlast]; rfl) (hkey ▸ hquiet first hyields (hkey ▸ hlt))

/-- **A merge of sources that fail begins as that of the whole ones.** -/
theorem begins_items (h : List.Forall₂ Item.Begins sources layers)
    (hlayers : ∀ es ∈ layers, Ascending es) {whole : List Entry}
    (hwhole : Newest layers.flatten whole) : Item.Begins (items sources) whole := by
  obtain ⟨es, hes, hitems⟩ := items_eq (ascending_clean h hlayers)
  rw [hitems]
  cases hnone : errorAfter none sources with
  | some e => exact .error e _ whole
  | none =>
    refine Item.begins_of_agree (fun entry => errorAfter (some entry.key) sources) hes.ascending
      hwhole.ascending fun key hquiet => ?_
    rw [hes.first?_eq, hwhole.first?_eq]
    exact first?_flatMap_clean h hlayers fun source hsource =>
      exists_last_of_quiet hes hnone hquiet hsource

/-- **A merge yields the freshest entry of every key, and every error in its place**: first the
error of the freshest source that fails at once; then, in key order, the first entry of every key
that is read, and behind it the error of the freshest source that fails there.  So without errors
the items are the entries merged; whatever the sources that fail would have gone on with, what is
yielded before the first error is the newest of its key; and there is an error if and only if a
source has one. -/
theorem items_spec (h : ∀ source ∈ sources, Ascending (Item.clean source)) :
    ∃ es, Newest (sources.flatMap Item.clean) es ∧
      items sources =
        (errorAfter none sources).toList.map .error ++ es.flatMap (followed sources) ∧
      ((∀ source ∈ sources, Item.error? source = none) → items sources = es.map .ok) ∧
      (∀ layers : List (List Entry), (∀ es ∈ layers, Ascending es) →
        List.Forall₂ Item.Begins sources layers →
        ∀ entry ∈ Item.clean (items sources), first? entry.key layers.flatten = some entry) ∧
      ((∃ e, .error e ∈ items sources) ↔ ∃ source ∈ sources, ∃ e, .error e ∈ source) := by
  obtain ⟨es, hes, hitems⟩ := items_eq h
  refine ⟨es, hes, hitems, fun hok => ?_, fun layers hlayers hbegins entry hentry => ?_,
    exists_error_items_iff sources⟩
  · rw [hitems, flatMap_followed_of_ok hok]
  · obtain ⟨whole, hwhole, -⟩ := items_ok hlayers
    have hfront := (begins_items hbegins hlayers hwhole).isPrefix
    exact hwhole.mem_iff.mp (hfront.subset hentry)

/-- A source that fails behind a key that a fresher source has, too: its error follows the fresher
entry. -/
theorem items_shadowed :
    items [[.ok ⟨[97], some [2]⟩, .ok ⟨[98], some [2]⟩],
        [.ok ⟨[97], some [1]⟩, .error (.internal "broken source")]] =
      [.ok ⟨[97], some [2]⟩, .error (.internal "broken source"), .ok ⟨[98], some [2]⟩] := by
  obtain ⟨es, hes, hitems, -⟩ := @items_spec
    [[.ok ⟨[97], some [2]⟩, .ok ⟨[98], some [2]⟩],
      [.ok ⟨[97], some [1]⟩, .error (.internal "broken source")]]
    (by simp only [Ascending]; decide)
  have hyields : es = [⟨[97], some [2]⟩, ⟨[98], some [2]⟩] := hes.unique
    ⟨by simp only [Ascending]; decide, fun key => by
      simp only [List.flatMap_cons, List.flatMap_nil, Item.clean, List.append_nil, List.cons_append,
        List.nil_append, first?_cons, first?_nil]
      split <;> simp_all⟩
  rw [hitems, hyields]
  rfl

end Merge

end LsmTree
