import LsmTree.Entry
import Mathlib.Data.List.Perm.Subperm

/-!
# Proofs/Contents — what a reader can see of a store

The `Contents` of a store say for every key which value a reader finds.  They are what remains of a
list of entries, newest first, when the first entry of every key is taken and tombstones stand for
nothing (`Contents.ofEntries`).  Writing an entry changes them at its key only (`Contents.write`),
and a scan lists them: live entries, in key order (`Contents.Lists`), in one way only
(`Contents.Lists.unique`).
-/

namespace LsmTree

namespace Entry

variable {es fs : List Entry} {key : Bytes} {entry : Entry}

/-! ## Entries in key order -/

/-- The keys ascend strictly. -/
def Ascending (es : List Entry) : Prop := es.Pairwise fun a b => a.key < b.key

/-- **In key order a list is known by its members.** -/
theorem Ascending.ext (hes : Ascending es) (hfs : Ascending fs) (h : ∀ e, e ∈ es ↔ e ∈ fs) :
    es = fs := by
  induction es generalizing fs with
  | nil => exact (List.eq_nil_iff_forall_not_mem.mpr fun e he => by simpa using (h e).mpr he).symm
  | cons a rest ih =>
    cases fs with
    | nil => exact absurd ((h a).mp List.mem_cons_self) (by simp)
    | cons b others =>
      obtain ⟨ha, hrest⟩ := List.pairwise_cons.mp hes
      obtain ⟨hb, hothers⟩ := List.pairwise_cons.mp hfs
      -- each head is a member of the other list, and nothing there has a smaller key
      have hab : a = b := by
        rcases List.mem_cons.mp ((h a).mp List.mem_cons_self) with rfl | hmem
        · rfl
        rcases List.mem_cons.mp ((h b).mpr List.mem_cons_self) with rfl | hmem'
        · rfl
        · exact absurd (List.lt_trans (ha b hmem') (hb a hmem)) (List.lt_irrefl _)
      subst hab
      refine congrArg _ (ih hrest hothers fun e => ?_)
      have hne : ∀ x ∈ rest ++ others, x ≠ a := by
        rintro x hx rfl
        rcases List.mem_append.mp hx with hx | hx
        · exact List.lt_irrefl _ (ha x hx)
        · exact List.lt_irrefl _ (hb x hx)
      have he := h e
      simp only [List.mem_cons] at he
      constructor
      · intro hmem
        exact (he.mp (.inr hmem)).resolve_left (hne e (by simp [hmem]))
      · intro hmem
        exact (he.mpr (.inr hmem)).resolve_left (hne e (by simp [hmem]))

/-! ## The first entry of a key -/

/-- The first entry of a key; in front of it stand the newer ones. -/
def first? (key : Bytes) (es : List Entry) : Option Entry := es.find? fun entry => entry.key = key

@[simp] theorem first?_nil : first? key [] = none := rfl

theorem first?_cons : first? key (entry :: es) =
    if entry.key = key then some entry else first? key es := by
  simp only [first?, List.find?_cons]
  split <;> simp_all

@[simp] theorem first?_append :
    first? key (es ++ fs) = (first? key es).or (first? key fs) := List.find?_append

theorem first?_eq_none_iff : first? key es = none ↔ ∀ e ∈ es, e.key ≠ key := by
  simp [first?]

theorem key_of_first? (h : first? key es = some entry) : entry.key = key := by
  simpa using List.find?_some h

theorem mem_of_first? (h : first? key es = some entry) : entry ∈ es := List.mem_of_find?_eq_some h

/-- **In key order the first entry of a key is its only one.** -/
theorem Ascending.first?_eq_some_iff (h : Ascending es) :
    first? key es = some entry ↔ entry ∈ es ∧ entry.key = key := by
  constructor
  · exact fun hfirst => ⟨mem_of_first? hfirst, key_of_first? hfirst⟩
  · rintro ⟨hmem, rfl⟩
    induction es with
    | nil => cases hmem
    | cons a rest ih =>
      obtain ⟨ha, hrest⟩ := List.pairwise_cons.mp h
      rw [first?_cons]
      rcases List.mem_cons.mp hmem with rfl | hmem
      · exact if_pos rfl
      · rw [if_neg (Std.ne_of_lt (ha entry hmem)), ih hrest hmem]

theorem first?_filter_ne {other : Bytes} (hne : other ≠ key) (es : List Entry) :
    first? other (es.filter (·.key ≠ key)) = first? other es := by
  induction es with
  | nil => rfl
  | cons e rest ih =>
    by_cases he : e.key = key
    · rw [List.filter_cons_of_neg (by simp [he]), ih, first?_cons, if_neg]
      exact fun h => hne (h.symm.trans he)
    · rw [List.filter_cons_of_pos (by simp [he]), first?_cons, first?_cons, ih]

/-! ## The first entry of every key -/

/-- The entries are the first one of every key in the list, in key order. -/
structure Newest (all es : List Entry) : Prop where
  ascending : Ascending es
  first?_eq : ∀ key, first? key es = first? key all

namespace Newest

variable {all : List Entry}

theorem mem_iff (h : Newest all es) : entry ∈ es ↔ first? entry.key all = some entry := by
  rw [← h.first?_eq, h.ascending.first?_eq_some_iff]
  exact (and_iff_left rfl).symm

/-- **There are only entries that are in the list.** -/
theorem subperm (h : Newest all es) : es.Subperm all := by
  refine List.subperm_of_subset (h.ascending.imp fun hlt heq => ?_) fun entry hentry => ?_
  · exact Std.ne_of_lt hlt (congrArg Entry.key heq)
  · exact mem_of_first? (h.mem_iff.mp hentry)

/-- **There is one entry of every key, and one order to list them in.** -/
theorem unique (hes : Newest all es) (hfs : Newest all fs) : es = fs :=
  hes.ascending.ext hfs.ascending fun _ => hes.mem_iff.trans hfs.mem_iff.symm

/-- **The least key comes first**, and what follows has it no more. -/
theorem cons (hfirst : first? entry.key all = some entry) (hle : ∀ e ∈ all, entry.key ≤ e.key)
    (h : Newest (all.filter (·.key ≠ entry.key)) es) : Newest all (entry :: es) where
  ascending := by
    refine List.pairwise_cons.mpr ⟨fun e he => ?_, h.ascending⟩
    obtain ⟨hmem, hne⟩ := List.mem_filter.mp (mem_of_first? (h.mem_iff.mp he))
    exact Std.lt_of_le_of_ne (hle e hmem) fun heq => of_decide_eq_true hne heq.symm
  first?_eq key := by
    rw [first?_cons]
    split
    · rename_i hkey
      rw [← hkey, hfirst]
    · rename_i hkey
      rw [h.first?_eq, first?_filter_ne (Ne.symm hkey)]

end Newest

end Entry

/-! ## Contents -/

/-- The value that a reader finds under each key. -/
abbrev Contents := Bytes → Option Bytes

namespace Contents

open Entry

/-- What a list of entries, newest first, amounts to. -/
def ofEntries (es : List Entry) : Contents := fun key => (first? key es).bind (·.value)

/-- The contents after an entry is written; a tombstone deletes. -/
def write (m : Contents) (entry : Entry) : Contents :=
  fun key => if entry.key = key then entry.value else m key

/-- The live entry of a key. -/
def live? (m : Contents) (key : Bytes) : Option Entry := (m key).map fun value => ⟨key, some value⟩

/-- The entries are the live ones of the contents, in key order. -/
structure Lists (m : Contents) (es : List Entry) : Prop where
  ascending : Ascending es
  mem_iff : ∀ entry, entry ∈ es ↔ entry.value.isSome ∧ m entry.key = entry.value

theorem live?_first? {es : List Entry} {key : Bytes} :
    (first? key es).bind Entry.live? = (ofEntries es).live? key := by
  unfold live? ofEntries
  cases h : first? key es with
  | none => rfl
  | some entry =>
    obtain ⟨k, _ | value⟩ := entry
    · rfl
    · obtain rfl : k = key := key_of_first? h
      rfl

/-- Contents are known by their live entries. -/
theorem ext_live? {m m' : Contents} (h : ∀ key, m.live? key = m'.live? key) : m = m' := by
  funext key
  have hkey := h key
  unfold live? at hkey
  cases hm : m key <;> cases hm' : m' key <;> simp_all

/-- **Contents are listed in one way only.** -/
theorem Lists.unique {m : Contents} {es fs : List Entry} (hes : m.Lists es) (hfs : m.Lists fs) :
    es = fs :=
  hes.ascending.ext hfs.ascending fun e => (hes.mem_iff e).trans (hfs.mem_iff e).symm

/-- **A listing amounts to what it lists.** -/
theorem Lists.ofEntries_eq {m : Contents} {es : List Entry} (h : m.Lists es) : ofEntries es = m := by
  funext key
  unfold ofEntries
  cases hfirst : first? key es with
  | some entry =>
    obtain ⟨hmem, rfl⟩ := h.ascending.first?_eq_some_iff.mp hfirst
    exact ((h.mem_iff entry).mp hmem).2.symm
  | none =>
    cases hvalue : m key with
    | none => rfl
    | some value =>
      have hmem : (⟨key, some value⟩ : Entry) ∈ es := (h.mem_iff _).mpr ⟨rfl, hvalue⟩
      exact absurd rfl (first?_eq_none_iff.mp hfirst _ hmem)

/-- **A listing has the live entry of every key.** -/
theorem Lists.first? {m : Contents} {es : List Entry} (h : m.Lists es) (key : Bytes) :
    Entry.first? key es = m.live? key := by
  unfold live?
  cases hvalue : m key with
  | some value => exact h.ascending.first?_eq_some_iff.mpr ⟨(h.mem_iff _).mpr ⟨rfl, hvalue⟩, rfl⟩
  | none =>
    refine first?_eq_none_iff.mpr fun e he hkey => ?_
    obtain ⟨hlive, heq⟩ := (h.mem_iff e).mp he
    rw [hkey, hvalue] at heq
    rw [← heq] at hlive
    cases hlive

/-- Nothing is listed if there is nothing. -/
theorem Lists.eq_nil_iff {m : Contents} {es : List Entry} (h : m.Lists es) :
    es = [] ↔ ∀ key, m key = none := by
  constructor
  · rintro rfl key
    exact congrFun h.ofEntries_eq.symm key
  · intro hnone
    refine List.eq_nil_iff_forall_not_mem.mpr fun e he => ?_
    obtain ⟨hlive, hvalue⟩ := (h.mem_iff e).mp he
    rw [← hvalue, hnone] at hlive
    cases hlive

/-- **What is listed is the first entry of its key.** -/
theorem Lists.first?_of_mem {es live : List Entry} (h : (ofEntries es).Lists live) {entry : Entry}
    (hentry : entry ∈ live) : Entry.first? entry.key es = some entry := by
  obtain ⟨hlive, hvalue⟩ := (h.mem_iff entry).mp hentry
  rw [ofEntries] at hvalue
  cases hfirst : Entry.first? entry.key es with
  | none =>
    rw [hfirst, Option.bind_none] at hvalue
    rw [← hvalue] at hlive
    cases hlive
  | some other =>
    rw [hfirst, Option.bind_some] at hvalue
    have hkey := key_of_first? hfirst
    cases other
    cases entry
    simp_all

/-- **A listing has only entries that are there.** -/
theorem Lists.subperm {es live : List Entry} (h : (ofEntries es).Lists live) : live.Subperm es := by
  refine List.subperm_of_subset (h.ascending.imp fun hlt heq => ?_) fun entry hentry => ?_
  · exact Std.ne_of_lt hlt (congrArg Entry.key heq)
  · exact mem_of_first? (h.first?_of_mem hentry)

theorem ofEntries_append (newer older : List Entry) (key : Bytes) :
    ofEntries (newer ++ older) key =
      match Entry.first? key newer with
      | some entry => entry.value
      | none => ofEntries older key := by
  unfold ofEntries
  rw [first?_append]
  cases Entry.first? key newer <;> rfl

theorem Lists.ofEntries_append {m : Contents} {es : List Entry} (h : m.Lists es)
    (older : List Entry) (key : Bytes) :
    ofEntries (es ++ older) key = (m key).or (ofEntries older key) := by
  rw [Contents.ofEntries_append, h.first?, live?]
  cases m key <;> rfl

/-- **Entries behind a listing change nothing** if none of them brings back a key that the listing
does not have. -/
theorem Lists.ofEntries_append_eq_iff {m : Contents} {es older : List Entry} (h : m.Lists es) :
    ofEntries (es ++ older) = m ↔ ∀ key, m key = none → ofEntries older key = none := by
  constructor
  · intro heq key hnone
    have hkey := congrFun heq key
    rwa [h.ofEntries_append, hnone, Option.none_or] at hkey
  · intro hnone
    funext key
    rw [h.ofEntries_append]
    cases hvalue : m key with
    | some value => rfl
    | none => rw [hnone key hvalue, Option.none_or]

/-- **A listing may change places with newer entries** if they agree with it on every key that both
have. -/
theorem Lists.ofEntries_swap_iff {es newer older : List Entry} (h : (ofEntries older).Lists es) :
    ofEntries (es ++ newer) = ofEntries (newer ++ older) ↔
      ∀ key value, ofEntries older key = some value → ∀ entry ∈ Entry.first? key newer,
        entry.value = some value := by
  constructor
  · intro heq key value hvalue entry hentry
    have hkey := congrFun heq key
    rw [h.ofEntries_append, Contents.ofEntries_append, hvalue, Option.mem_def.mp hentry] at hkey
    exact hkey.symm
  · intro hagree
    funext key
    rw [h.ofEntries_append, Contents.ofEntries_append]
    cases hvalue : ofEntries older key with
    | some value =>
      cases hentry : Entry.first? key newer with
      | none => rfl
      | some entry => exact (hagree key value hvalue entry hentry).symm
    | none =>
      rw [Option.none_or, ofEntries]
      cases Entry.first? key newer <;> rfl

/-- Entries in key order list what they amount to once the tombstones are left out. -/
theorem lists_filter {es all : List Entry} (h : Ascending es)
    (hfirst : ∀ key, first? key es = first? key all) :
    (ofEntries all).Lists (es.filter fun entry => !entry.isTombstone) where
  ascending := h.filter _
  mem_iff entry := by
    simp only [ofEntries, ← hfirst, List.mem_filter, isTombstone, Bool.not_eq_true',
      Option.isNone_eq_false_iff]
    constructor
    · rintro ⟨hmem, hlive⟩
      rw [h.first?_eq_some_iff.mpr ⟨hmem, rfl⟩]
      exact ⟨hlive, rfl⟩
    · rintro ⟨hlive, hvalue⟩
      cases hf : first? entry.key es with
      | none =>
        rw [hf, Option.bind_none] at hvalue
        simp [← hvalue] at hlive
      | some other =>
        obtain ⟨hmem, hkey⟩ := h.first?_eq_some_iff.mp hf
        rw [hf, Option.bind_some] at hvalue
        obtain rfl : other = entry := by
          cases other
          cases entry
          simp_all
        exact ⟨hmem, hlive⟩

/-- What is older than a list that has the same contents without it may go. -/
theorem ofEntries_append_congr {newer es fs : List Entry} (h : ofEntries es = ofEntries fs) :
    ofEntries (newer ++ es) = ofEntries (newer ++ fs) := by
  funext key
  rw [ofEntries_append, ofEntries_append, h]

end Contents

end LsmTree
