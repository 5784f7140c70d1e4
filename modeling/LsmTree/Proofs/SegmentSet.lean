import LsmTree.Proofs.Items.Merge
import LsmTree.Proofs.Segment.Lookup
import LsmTree.SegmentSet
import LsmTree.Store.Compact

/-!
# Proofs/SegmentSet — what a set of whole segments amounts to

A segment is **intact** if its file was written from entries in key order, and **readable** if its
slots can be read and their keys ascend, whatever else is in the file.  The entries of a set of
readable segments, newest segment first, say everything about it: a look-up finds the first entry of
its key (`SegmentSet.Readable.lookup`), and a merge lists the contents
(`SegmentSet.Readable.liveEntries`).
Where priorities differ, a set is the list it was built from (`SegmentSet.segments_insert`,
`SegmentSet.segments_replace`).
-/

namespace LsmTree

/-! ## Intact segments -/

namespace Segment

variable {segment other : Segment} {es : List Entry}

/-- The entries of a segment. -/
def entries (segment : Segment) : List Entry := Item.entries segment.items

/-- The file was written from the segment's entries. -/
structure Intact (segment : Segment) : Prop where
  table : Table segment.entries
  image_eq : segment.image = encode segment.entries

theorem entries_of_image (h : Table es) (himage : segment.image = encode es) :
    segment.entries = es := by
  rw [entries, (holds_of_image h himage).items, Item.entries_ok]

theorem intact_of_image (h : Table es) (himage : segment.image = encode es) : segment.Intact := by
  have hentries := entries_of_image h himage
  exact ⟨hentries.symm ▸ h, hentries.symm ▸ himage⟩

theorem Intact.holds (h : segment.Intact) : segment.Holds segment.entries :=
  holds_of_image h.table h.image_eq

/-- A segment is known by its priority, its path and its file. -/
theorem ext_image (hpriority : segment.priority = other.priority) (hpath : segment.path = other.path)
    (himage : segment.image = other.image) : segment = other := by
  have hself : ofImage segment.priority segment.path segment.image = .ok segment :=
    ofImage_eq_ok_iff.mpr ⟨rfl, rfl, rfl⟩
  have hother : ofImage segment.priority segment.path segment.image = .ok other :=
    ofImage_eq_ok_iff.mpr ⟨hpriority.symm, hpath.symm, himage.symm⟩
  exact Except.ok.inj (hself.symm.trans hother)

/-- The segment whose file was written from given entries. -/
def ofTable (priority : Priority) (path : Path) (h : Table es) : Segment :=
  ⟨priority, path, encode es, ⟨.v0, es.length⟩, decode_encode h⟩

@[simp] theorem priority_ofTable (priority : Priority) (path : Path) (h : Table es) :
    (ofTable priority path h).priority = priority := rfl

@[simp] theorem path_ofTable (priority : Priority) (path : Path) (h : Table es) :
    (ofTable priority path h).path = path := rfl

@[simp] theorem image_ofTable (priority : Priority) (path : Path) (h : Table es) :
    (ofTable priority path h).image = encode es := rfl

theorem intact_ofTable (priority : Priority) (path : Path) (h : Table es) :
    (ofTable priority path h).Intact := intact_of_image h rfl

@[simp] theorem entries_ofTable (priority : Priority) (path : Path) (h : Table es) :
    (ofTable priority path h).entries = es := entries_of_image h rfl

/-- **A whole file makes a segment.** -/
theorem ofImage_encode (priority : Priority) (path : Path) (h : Table es) :
    ofImage priority path (encode es) = .ok (ofTable priority path h) :=
  ofImage_eq_ok_iff.mpr ⟨rfl, rfl, rfl⟩

end Segment

/-- What a reader finds in segments, the newest first. -/
def Contents.ofSegments (segments : List Segment) : Contents :=
  .ofEntries (segments.flatMap Segment.entries)

/-! ## Lists by descending priority -/

namespace Priority

variable {α : Type} {age : α → Priority}

/-- **What is sorted stays as it is.** -/
theorem newestFirst_eq_self {xs : List α} (h : xs.Pairwise fun a b => age b ≤ age a) :
    newestFirst age xs = xs := by
  induction xs with
  | nil => rfl
  | cons x rest ih =>
    obtain ⟨hx, hrest⟩ := List.pairwise_cons.mp h
    rw [newestFirst, List.foldr_cons]
    change insertByAge age x (newestFirst age rest) = _
    rw [ih hrest]
    cases rest with
    | nil => rfl
    | cons y others => exact if_pos (hx y List.mem_cons_self)

theorem perm_insertByAge (x : α) (xs : List α) : (insertByAge age x xs).Perm (x :: xs) := by
  induction xs with
  | nil => exact .refl _
  | cons y rest ih =>
    unfold insertByAge
    split
    · exact .refl _
    · exact (ih.cons y).trans (.swap x y rest)

theorem perm_newestFirst (xs : List α) : (newestFirst age xs).Perm xs := by
  induction xs with
  | nil => exact .refl _
  | cons x rest ih => exact (perm_insertByAge x _).trans (ih.cons x)

/-- **The order in which priorities are listed does not matter.** -/
theorem newestFirst_eq_of_perm {priorities others : List Priority} (h : priorities.Perm others) :
    newestFirst id priorities = newestFirst id others := by
  have hperm : (newestFirst id priorities).Perm (newestFirst id others) :=
    (perm_newestFirst priorities).trans (h.trans (perm_newestFirst others).symm)
  exact hperm.eq_of_pairwise (fun _ _ _ _ hba hab => UInt64.le_antisymm hab hba)
    (pairwise_newestFirst id priorities) (pairwise_newestFirst id others)

/-- **Different priorities descend strictly.** -/
theorem pairwise_lt_newestFirst {priorities : List Priority} (h : priorities.Nodup) :
    (newestFirst id priorities).Pairwise fun a b => b < a := by
  have hnodup : (newestFirst id priorities).Nodup := (perm_newestFirst priorities).nodup_iff.mpr h
  rw [List.nodup_iff_pairwise_ne] at hnodup
  refine (pairwise_newestFirst id priorities).imp₂ (fun a b hle hne => ?_) hnodup
  exact UInt64.lt_of_le_of_ne hle (Ne.symm hne)

/-- Nothing is below the lowest priority. -/
theorem ne_lowest_of_lt {priority other : Priority} (h : other < priority) :
    priority ≠ .lowest := by
  rintro rfl
  exact UInt64.not_lt_zero h

end Priority

namespace SegmentSet

theorem ext {set other : SegmentSet} (h : set.segments = other.segments) : set = other := by
  cases set
  cases other
  cases h
  rfl

theorem ne_nil_of_size {set : SegmentSet} (h : 2 ≤ set.size) : set.segments ≠ [] :=
  List.length_pos_iff.mp (Nat.lt_of_lt_of_le (by decide) h)

end SegmentSet

/-! ## Dealing out priorities -/

/-- A counter that starts above a priority starts one above it. -/
theorem Counter.spec_after_some {newest : Priority} {counter : Counter}
    (h : Counter.after (some newest) = .ok counter) :
    counter.next.toNat = newest.toNat + 1 := by
  unfold Counter.after at h
  dsimp only at h
  split at h
  · rename_i hroom
    obtain rfl := Except.ok.inj h
    rw [UInt64.toNat_add, UInt64.toNat_one, Nat.mod_eq_of_lt hroom]
  · cases h

/-- **The counter of a store starts above every segment.** -/
theorem Counter.spec_after {newest : Option Priority} {counter : Counter}
    (h : Counter.after newest = .ok counter) :
    0 < counter.next ∧ ∀ priority ∈ newest, priority < counter.next := by
  cases newest with
  | none =>
    obtain rfl := Except.ok.inj h
    exact ⟨by decide, by simp⟩
  | some newest =>
    have hnext := Counter.spec_after_some h
    have habove : newest < counter.next :=
      UInt64.lt_iff_toNat_lt.mpr (hnext ▸ Nat.lt_succ_self _)
    refine ⟨UInt64.lt_of_le_of_lt UInt64.zero_le habove, fun priority hpriority => ?_⟩
    exact Option.some.inj hpriority ▸ habove

/-- **There is a counter to start with** unless the newest segment has the greatest priority. -/
theorem Counter.exists_after_iff {newest : Option Priority} :
    (∃ counter, Counter.after newest = .ok counter) ↔
      ∀ priority ∈ newest, priority.toNat + 1 < UInt64.size := by
  cases newest with
  | none => exact ⟨fun _ => by simp, fun _ => ⟨_, rfl⟩⟩
  | some newest =>
    unfold after
    dsimp only
    split <;> simp_all

namespace SegmentSet

variable {set : SegmentSet} {segment : Segment} {key : Bytes}

/-- **No priority is above the newest.** -/
theorem exists_newestPriority? (h : segment ∈ set.segments) :
    ∃ newest ∈ set.newestPriority?, segment.priority ≤ newest := by
  have hsorted := set.sorted
  unfold newestPriority? priorities
  cases hsegments : set.segments with
  | nil => simp [hsegments] at h
  | cons newest older =>
    rw [hsegments] at h hsorted
    have hle : ∀ s ∈ newest :: older, s.priority ≤ newest.priority :=
      List.forall_mem_cons.mpr ⟨UInt64.le_refl _, (List.pairwise_cons.mp hsorted).1⟩
    exact ⟨newest.priority, rfl, hle segment h⟩

theorem mem_of_newestPriority? {newest : Priority} (h : newest ∈ set.newestPriority?) :
    ∃ s ∈ set.segments, s.priority = newest :=
  List.mem_map.mp (List.mem_of_mem_head? h)

/-- A counter that starts above the newest segment is above all. -/
theorem below_of_after {counter : Counter}
    (h : Counter.after set.newestPriority? = .ok counter) :
    ∀ s ∈ set.segments, s.priority < counter.next := by
  intro s hs
  obtain ⟨newest, hnewest, hle⟩ := exists_newestPriority? hs
  exact UInt64.lt_of_le_of_lt hle ((Counter.spec_after h).2 newest hnewest)

/-- **The next priority is one above the newest segment's**, or the first one if there is none. -/
theorem next_of_after {counter : Counter}
    (h : Counter.after set.newestPriority? = .ok counter) :
    (set.segments = [] ∧ counter.next = 1) ∨
      ∃ newest ∈ set.segments, (∀ s ∈ set.segments, s.priority ≤ newest.priority) ∧
        counter.next.toNat = newest.priority.toNat + 1 := by
  obtain ⟨segments, hsorted⟩ := set
  cases segments with
  | nil => exact .inl ⟨rfl, congrArg Counter.next (Except.ok.inj h).symm⟩
  | cons newest older =>
    exact .inr ⟨newest, List.mem_cons_self, List.forall_mem_cons.mpr ⟨UInt64.le_refl _,
      (List.pairwise_cons.mp hsorted).1⟩, Counter.spec_after_some h⟩

/-- **A set has priorities left above it** if no segment has the greatest. -/
theorem exists_after_iff :
    (∃ counter, Counter.after set.newestPriority? = .ok counter) ↔
      ∀ s ∈ set.segments, s.priority.toNat + 1 < UInt64.size := by
  rw [Counter.exists_after_iff]
  constructor
  · intro h s hs
    obtain ⟨newest, hnewest, hle⟩ := exists_newestPriority? hs
    exact Nat.lt_of_le_of_lt (Nat.succ_le_succ (UInt64.le_iff_toNat_le.mp hle)) (h newest hnewest)
  · intro h newest hnewest
    obtain ⟨s, hs, rfl⟩ := mem_of_newestPriority? hnewest
    exact h s hs

theorem segments_ofList {segments : List Segment}
    (h : segments.Pairwise fun a b => b.priority ≤ a.priority) :
    (ofList segments).segments = segments := Priority.newestFirst_eq_self h

/-- **The newest segment comes in front.** -/
theorem segments_insert (h : ∀ s ∈ set.segments, s.priority ≤ segment.priority) :
    (set.insert segment).segments = segment :: set.segments :=
  segments_ofList (List.pairwise_cons.mpr ⟨h, set.sorted⟩)

/-- **A compaction of the older segments leaves the newer ones and its output.** -/
theorem segments_replace_older {inputs : SegmentSet} {newer : List Segment}
    {output : Option Segment} (hset : set.segments = newer ++ inputs.segments)
    (hnewer : ∀ s ∈ newer, ∀ t ∈ inputs.segments, t.priority < s.priority)
    (hsorted : (newer ++ output.toList).Pairwise fun a b => b.priority ≤ a.priority) :
    (set.replace inputs.priorities output).segments = newer ++ output.toList := by
  have hkept : newer.filter (fun s => !inputs.priorities.contains s.priority) = newer := by
    refine List.filter_eq_self.mpr fun s hs => ?_
    have hmem : s.priority ∉ inputs.priorities := by
      rintro hmem
      obtain ⟨t, ht, heq⟩ := List.mem_map.mp hmem
      exact UInt64.ne_of_lt (hnewer s hs t ht) heq
    simpa using hmem
  have hnone : inputs.segments.filter (fun s => !inputs.priorities.contains s.priority) = [] := by
    refine List.filter_eq_nil_iff.mpr fun s hs => ?_
    have hmem : s.priority ∈ inputs.priorities := List.mem_map_of_mem hs
    simpa using hmem
  rw [replace, hset, List.filter_append, hkept, hnone, List.append_nil]
  exact segments_ofList hsorted

/-- **A compaction of all segments leaves its output.** -/
theorem segments_replace (set : SegmentSet) (output : Option Segment) :
    (set.replace set.priorities output).segments = output.toList := by
  refine @segments_replace_older set set [] output rfl (by simp) ?_
  cases output with
  | none => exact .nil
  | some s => exact List.pairwise_singleton _ _

/-! ## What a set amounts to -/

/-- All entries, newest segment first. -/
def entries (set : SegmentSet) : List Entry := set.segments.flatMap Segment.entries

/-- What a reader finds in the set. -/
def contents (set : SegmentSet) : Contents := .ofSegments set.segments

/-- Every segment is intact. -/
def Intact (set : SegmentSet) : Prop := ∀ s ∈ set.segments, s.Intact

/-- Every slot of every segment can be read, and the keys of each segment ascend. -/
def Readable (set : SegmentSet) : Prop := ∀ s ∈ set.segments, s.Holds s.entries

theorem Intact.readable (h : set.Intact) : set.Readable := fun s hs => (h s hs).holds

theorem lookupIn_readable {segments : List Segment} (h : ∀ s ∈ segments, s.Holds s.entries)
    (key : Bytes) :
    lookupIn key segments = .ok (Entry.first? key (segments.flatMap Segment.entries)) := by
  induction segments with
  | nil => rfl
  | cons s older ih =>
    have hs := (h s List.mem_cons_self).lookup key
    have holder := ih fun t ht => h t (List.mem_cons_of_mem _ ht)
    rw [lookupIn, hs, List.flatMap_cons, Entry.first?_append]
    cases Entry.first? key s.entries with
    | none => exact holder
    | some entry => rfl

/-- **A look-up finds the newest entry of the key.** -/
theorem Readable.lookup (h : set.Readable) (key : Bytes) :
    set.lookup key = .ok (Entry.first? key set.entries) := lookupIn_readable h key

theorem Intact.lookup (h : set.Intact) (key : Bytes) :
    set.lookup key = .ok (Entry.first? key set.entries) := h.readable.lookup key

/-- What a reader of the set finds under a key: a live entry or nothing. -/
def answer (set : SegmentSet) (key : Bytes) : Except Error (Option Entry) :=
  (·.bind Entry.live?) <$> set.lookup key

theorem Intact.answer (h : set.Intact) (key : Bytes) :
    set.answer key = .ok (set.contents.live? key) := by
  rw [SegmentSet.answer, h.lookup]
  exact congrArg Except.ok Contents.live?_first?

/-- **Sets that answer alike have the same contents.** -/
theorem Intact.answer_eq_iff {other : SegmentSet} (h : set.Intact) (h' : other.Intact) :
    (∀ key, set.answer key = other.answer key) ↔ set.contents = other.contents := by
  constructor
  · intro heq
    refine Contents.ext_live? fun key => ?_
    have hkey := heq key
    rwa [h.answer, h'.answer, Except.ok.injEq] at hkey
  · intro heq key
    rw [h.answer, h'.answer, heq]

theorem Readable.ascending (h : set.Readable) {es : List Entry}
    (hes : es ∈ set.segments.map Segment.entries) : Entry.Ascending es := by
  obtain ⟨s, hs, rfl⟩ := List.mem_map.mp hes
  exact (h s hs).ascending

/-- **A merge of the set lists its contents.** -/
theorem Readable.liveEntries (h : set.Readable) :
    ∃ live, set.liveEntries = .ok live ∧ set.contents.Lists live := by
  obtain ⟨live, hdrain, hlists⟩ := drain_live_merge fun es hes => h.ascending hes
  refine ⟨live, ?_, hlists⟩
  have hsources : set.segments.map Segment.items =
      (set.segments.map Segment.entries).map (·.map .ok) := by
    rw [List.map_map]
    exact List.map_congr_left fun s hs => (h s hs).items
  rw [SegmentSet.liveEntries, hsources, hdrain, Item.collect_ok]

theorem Intact.liveEntries (h : set.Intact) :
    ∃ live, set.liveEntries = .ok live ∧ set.contents.Lists live := h.readable.liveEntries

end SegmentSet

end LsmTree
