import LsmTree.Engine.Reader
import LsmTree.Proofs.Items.Merge

/-!
# Proofs/Engine/Readers — an iterator tells what a scan tells

At every step an iterator reads the memtable that was active anew, behind the key at the head of its
merge.  While nothing is written into the memtable this is what it was about to read anyway
(`Merge.Tracks.refresh_eq`): in a list in key order, what stands behind an entry is what has a greater
key.  So as long as the memtable stays as it is the items that are left become fewer by those that are
taken, and nothing else happens to them (`Reader.take_eq`).
-/

namespace LsmTree

/-! ## Sources that can be found again -/

/-- What stands behind the first entry is what is behind its key. -/
def Item.Leads (behind : Bytes → List Item) (source : List Item) : Prop :=
  ∀ entry rest, source = .ok entry :: rest → rest = behind entry.key

/-- In key order, what stands behind an entry is what has a greater key. -/
theorem Entry.Ascending.dropWhile_le_eq {front rest : List Entry} {entry : Entry}
    (h : Ascending (front ++ entry :: rest)) :
    (front ++ entry :: rest).dropWhile (·.key ≤ entry.key) = rest := by
  obtain ⟨-, hentry, hfront⟩ := List.pairwise_append.mp h
  have hbefore : ∀ e ∈ front, decide (e.key ≤ entry.key) = true := fun e he =>
    decide_eq_true (Std.le_of_lt (hfront e he entry List.mem_cons_self))
  rw [List.dropWhile_append_of_pos hbefore, List.dropWhile_cons_of_pos (by simp)]
  cases rest with
  | nil => rfl
  | cons next others =>
    have hlt : entry.key < next.key := (List.pairwise_cons.mp hentry).1 next List.mem_cons_self
    exact List.dropWhile_cons_of_neg (by simpa using hlt)

namespace Merge

variable {behind : Bytes → List Item} {m n : Merge} {source : List Item}

/-- What the freshest source has left is what is behind its head. -/
def Tracks (behind : Bytes → List Item) (m : Merge) : Prop :=
  ∀ head ∈ m.heads, head.number = 0 → head.rest = behind head.entry.key

theorem tracks_refresh (behind : Bytes → List Item) (m : Merge) :
    (m.refresh behind).Tracks behind := by
  intro head hhead hnumber
  obtain ⟨old, -, rfl⟩ := List.mem_map.mp hhead
  by_cases hold : old.number = 0
  · simp [hold]
  · simp [hold] at hnumber

/-- **A merge that tracks its freshest source need not be told what is behind its head.** -/
theorem Tracks.refresh_eq (h : m.Tracks behind) : m.refresh behind = m := by
  refine congrArg (Merge.mk m.pending) ((List.map_congr_left fun head hhead => ?_).trans
    (List.map_id m.heads))
  split_ifs with hnumber
  · rw [← h head hhead hnumber]
    rfl
  · rfl

theorem tracks_read {pending : Option Error} {number : Nat}
    (h : number = 0 → Item.Leads behind source) :
    ∀ head ∈ (read pending number source).1.toList, head.number = 0 →
      head.rest = behind head.entry.key := by
  match source, h with
  | [], _ => simp [read]
  | .error _ :: _, _ => simp [read]
  | .ok entry :: rest, h =>
    intro head hhead hnumber
    obtain rfl : head = ⟨number, entry, rest⟩ := by simpa [read] using hhead
    exact h hnumber entry rest rfl

theorem Tracks.addSources (h : m.Tracks behind) {number : Nat} (hnumber : 0 < number)
    (added : List (List Item)) : (m.addSources number added).Tracks behind := by
  induction added generalizing m number with
  | nil => exact h
  | cons source older ih =>
    refine ih (fun head hhead => ?_) (Nat.succ_pos _)
    rcases List.mem_append.mp hhead with hhead | hhead
    · exact h head hhead
    · exact tracks_read (fun hzero => absurd hzero (Nat.ne_of_gt hnumber)) head hhead

/-- **The first of the sources is tracked from the start.** -/
theorem tracks_ofSources (h : Item.Leads behind source) (older : List (List Item)) :
    (ofSources (source :: older)).Tracks behind := by
  have hfirst : Tracks behind ⟨(read none 0 source).2, (read none 0 source).1.toList⟩ :=
    tracks_read fun _ => h
  exact hfirst.addSources Nat.one_pos older

variable (hbehind : ∀ key, Item.Leads behind (behind key))
include hbehind

/-- **Reading a source on keeps track of it.** -/
theorem Tracks.pop? {entry : Entry} (h : m.Tracks behind) (hpop : m.pop? = some (entry, n)) :
    n.Tracks behind := by
  unfold Merge.pop? at hpop
  split at hpop
  · cases hpop
  rename_i before head older hleast
  obtain ⟨rfl, rfl⟩ := Prod.mk.inj (Option.some.inj hpop)
  have hmem {other : Head} : other ∈ m.heads ↔ other ∈ before ∨ other = head ∨ other ∈ older := by
    simp [least?_eq_some hleast]
  intro other hother
  simp only [List.mem_append] at hother
  rcases hother with (hother | hother) | hother
  · exact h other (hmem.mpr (.inl hother))
  · refine tracks_read (fun hnumber => ?_) other hother
    rw [h head (hmem.mpr (.inr (.inl rfl))) hnumber]
    exact hbehind _
  · exact h other (hmem.mpr (.inr (.inr hother)))

theorem Tracks.skip (h : m.Tracks behind) (key : Bytes) : (Merge.skip key m).Tracks behind := by
  fun_induction Merge.skip key m with
  | case1 m hpop => exact h
  | case2 m entry n hpop hkey ih => exact ih (h.pop? hbehind hpop)
  | case3 m entry n hpop hkey => exact h

theorem Tracks.next? {item : Item} (h : m.Tracks behind) (hnext : m.next? = some (item, n)) :
    n.Tracks behind := by
  unfold Merge.next? at hnext
  split at hnext
  · obtain ⟨-, rfl⟩ := Prod.mk.inj (Option.some.inj hnext)
    exact h
  · obtain ⟨⟨entry, popped⟩, hpop, heq⟩ := Option.map_eq_some_iff.mp hnext
    obtain ⟨-, rfl⟩ := Prod.mk.inj heq
    exact (h.pop? hbehind hpop).skip hbehind _

/-- **A step of a reader keeps track**, however many tombstones it passes over. -/
theorem Tracks.live {item : Item} (h : m.Tracks behind)
    (hnext : Live.next? m = some (item, n)) : n.Tracks behind := by
  fun_induction Live.next? m with
  | case1 m hm => cases hnext
  | case2 m other t hm hvisible =>
    obtain ⟨-, rfl⟩ := Prod.mk.inj (Option.some.inj hnext)
    exact h.next? hbehind hm
  | case3 m other t hm hhidden ih => exact ih (h.next? hbehind hm) hnext

end Merge

/-! ## Iterators -/

namespace Reader

variable (reader : Reader) (active : Memtable)

/-- The items that are left, if the memtable that was active stays the given one. -/
def left : List Item := ItemStream.drain (reader.stream active)

/-- The items that are left in a view of an engine, if nothing more is written into the memtable that
was active. -/
def leftIn (engine : Engine) : List Item := reader.left (reader.snapshot.activeIn engine)

/-- An iterator that was not asked for anything yet has left what a scan would tell now. -/
theorem leftIn_start (view : Snapshot) (engine : Engine) :
    ({ snapshot := view } : Reader).leftIn engine = view.items engine := rfl

/-- **The memtable can be found again**: what is behind an entry of it is what stands behind it. -/
theorem leads_of_suffix {es front : List Entry}
    (hes : active.entriesIn reader.snapshot.interval = front ++ es) :
    Item.Leads (reader.behind active) (es.map .ok) := by
  intro entry rest hentry
  obtain ⟨first, others, rfl, hfirst, rfl⟩ := List.map_eq_cons_iff.mp hentry
  obtain rfl := Except.ok.inj hfirst
  have hascending : Entry.Ascending (active.entriesIn reader.snapshot.interval) := by
    rw [Memtable.entriesIn_eq_filter]
    exact active.pairwise_entries.filter _
  rw [hes] at hascending
  rw [behind, Memtable.entriesBehind, hes, hascending.dropWhile_le_eq]

theorem tracks_stream : (reader.stream active).inner.Tracks (reader.behind active) := by
  unfold stream
  split
  · exact Merge.tracks_ofSources (reader.leads_of_suffix active (List.nil_append _).symm) _
  · exact Merge.tracks_refresh _ _

/-- **A step takes off the first of the items that are left.** -/
theorem next_eq : ∃ after : Reader, reader.next active = ((reader.left active).head?, after) ∧
    after.snapshot = reader.snapshot ∧ after.left active = (reader.left active).tail := by
  have hleads (key : Bytes) : Item.Leads (reader.behind active) (reader.behind active key) :=
    reader.leads_of_suffix active (List.takeWhile_append_dropWhile).symm
  unfold next left
  match hnext : ItemStream.next? (reader.stream active) with
  | none =>
    rw [ItemStream.drain_of_none hnext]
    have hend : ItemStream.next? (Live.mk ({} : Merge)) = none :=
      congrArg (Option.map _) (Live.next?_of_none rfl)
    exact ⟨_, rfl, rfl, ItemStream.drain_of_none hend⟩
  | some (item, rest) =>
    rw [ItemStream.drain_of_some hnext]
    refine ⟨_, rfl, rfl, ?_⟩
    obtain ⟨⟨other, merge⟩, hlive, heq⟩ := Option.map_eq_some_iff.mp hnext
    obtain ⟨rfl, rfl⟩ := Prod.mk.inj heq
    have htracks := (reader.tracks_stream active).live hleads hlive
    exact congrArg (fun merge => ItemStream.drain (Live.mk merge)) htracks.refresh_eq

/-- **What is taken are the first of the items that are left**, and the others stay. -/
theorem take_eq (n : Nat) :
    ∃ after : Reader, reader.take active n = ((reader.left active).take n, after) ∧
      after.snapshot = reader.snapshot ∧ after.left active = (reader.left active).drop n := by
  induction n generalizing reader with
  | zero => exact ⟨reader, rfl, rfl, rfl⟩
  | succ n ih =>
    obtain ⟨after, hnext, hsnapshot, hleft⟩ := reader.next_eq active
    unfold take
    rw [hnext]
    match hitems : reader.left active with
    | [] =>
      rw [hitems] at hleft
      exact ⟨after, rfl, hsnapshot, hleft⟩
    | item :: items =>
      rw [hitems] at hleft
      obtain ⟨last, htake, hlast, hrest⟩ := ih after
      rw [hleft] at htake hrest
      exact ⟨last, by simp [htake], hlast.trans hsnapshot, hrest⟩

end Reader

end LsmTree
