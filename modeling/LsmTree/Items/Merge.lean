import LsmTree.Items

/-!
# Items/Merge — many sorted sources read as one

`Merge` reads several sources, freshest first, as one stream in key order.  It keeps the first
unread entry of every source at hand (its **head**) and yields the least of them; among heads with
one key the freshest source's wins, and the others are passed over.  A source that fails is not
read again; its error is yielded at the next step, unless another error waits already.

Sources are read one item at a time.  What is behind a head may still change until it is read, and
a merge can be told what it has become (`Merge.refresh`); the head itself stays as it was read.
-/

namespace LsmTree

/-- A source with its next entry read off. -/
structure Head where
  /-- the number of the source; the freshest has zero -/
  number : Nat
  entry : Entry
  rest : List Item

/-- The state of a merge. -/
structure Merge where
  /-- an error that a source failed with and that is still to be yielded -/
  pending : Option Error := none
  /-- the sources that have entries left, freshest first -/
  heads : List Head := []

namespace Merge

/-! ## Reading sources -/

/-- Reads the next item of a source: its new head, if the source has one, and the error that
waits afterwards. -/
def read (pending : Option Error) (number : Nat) : List Item → Option Head × Option Error
  | [] => (none, pending)
  | .ok entry :: rest => (some ⟨number, entry, rest⟩, pending)
  | .error e :: _ => (none, pending.or (some e))

/-- Reads the first item of every further source, in their order; they are numbered from the given
number on. -/
def addSources (m : Merge) (number : Nat) : List (List Item) → Merge
  | [] => m
  | source :: older =>
    let first := read m.pending number source
    addSources ⟨first.2, m.heads ++ first.1.toList⟩ (number + 1) older

/-- The merge of the given sources, freshest first. -/
def ofSources (sources : List (List Item)) : Merge := addSources {} 0 sources

/-- Lets the freshest source go on with what is behind its head now. -/
def refresh (behind : Bytes → List Item) (m : Merge) : Merge :=
  { m with heads := m.heads.map fun head =>
      if head.number = 0 then { head with rest := behind head.entry.key } else head }

/-- The head with the least key, with the sources before and behind it; of equal keys the
first. -/
def least? : List Head → Option (List Head × Head × List Head)
  | [] => none
  | head :: older =>
    match least? older with
    | none => some ([], head, [])
    | some (before, other, behind) =>
      if other.entry.key < head.entry.key then some (head :: before, other, behind)
      else some ([], head, older)

/-- Takes the least head off and reads its source on. -/
def pop? (m : Merge) : Option (Entry × Merge) :=
  match least? m.heads with
  | none => none
  | some (before, head, behind) =>
    let next := read m.pending head.number head.rest
    some (head.entry, ⟨next.2, before ++ next.1.toList ++ behind⟩)

/-! ## Progress -/

/-- The items that the sources of the heads may still yield, the heads included. -/
def unread : List Head → Nat
  | [] => 0
  | head :: older => head.rest.length + 1 + unread older

/-- The items a merge may still yield: those unread, and an error that waits. -/
def remaining (m : Merge) : Nat := m.pending.toList.length + unread m.heads

theorem unread_append (newer older : List Head) :
    unread (newer ++ older) = unread newer + unread older := by
  induction newer with
  | nil => simp [unread]
  | cons head rest ih =>
    simp only [List.cons_append, unread, ih]
    omega

/-- There is a least head where there is one at all. -/
theorem least?_eq_none {heads : List Head} (h : least? heads = none) : heads = [] := by
  match heads with
  | [] => rfl
  | head :: older =>
    unfold least? at h
    split at h
    · cases h
    · split at h <;> cases h

/-- **The least head** is the first one, or the least of the others if its key is smaller. -/
theorem least?_cons_eq_some {first head : Head} {older before behind : List Head}
    (h : least? (first :: older) = some (before, head, behind)) :
    (before = [] ∧ head = first ∧ behind = older ∧ ∀ newer other rest,
      least? older = some (newer, other, rest) → first.entry.key ≤ other.entry.key) ∨
    ∃ newer, before = first :: newer ∧ least? older = some (newer, head, behind) ∧
      head.entry.key < first.entry.key := by
  unfold least? at h
  split at h
  · rename_i hnone
    obtain ⟨rfl, rfl, rfl⟩ : [] = before ∧ first = head ∧ [] = behind := by simpa using h
    exact .inl ⟨rfl, rfl, (least?_eq_none hnone).symm, by simp [hnone]⟩
  · rename_i newer other rest hsome
    split at h
    · rename_i hless
      obtain ⟨rfl, rfl, rfl⟩ : first :: newer = before ∧ other = head ∧ rest = behind := by
        simpa using h
      exact .inr ⟨newer, rfl, hsome, hless⟩
    · rename_i hnot
      obtain ⟨rfl, rfl, rfl⟩ : [] = before ∧ first = head ∧ older = behind := by simpa using h
      refine .inl ⟨rfl, rfl, rfl, fun _ other' _ hother => ?_⟩
      rw [hsome] at hother
      cases hother
      exact Std.not_lt.mp hnot

theorem least?_eq_some {heads before behind : List Head} {head : Head}
    (h : least? heads = some (before, head, behind)) : heads = before ++ head :: behind := by
  induction heads generalizing before with
  | nil => cases h
  | cons first older ih =>
    rcases least?_cons_eq_some h with ⟨rfl, rfl, rfl, -⟩ | ⟨newer, rfl, hleast, -⟩
    · rfl
    · exact congrArg _ (ih hleast)

theorem read_remaining_le (pending : Option Error) (number : Nat) (source : List Item) :
    (read pending number source).2.toList.length + unread (read pending number source).1.toList ≤
      pending.toList.length + source.length := by
  match source with
  | [] => simp [read, unread]
  | .ok entry :: rest => simp [read, unread]
  | .error e :: rest => cases pending <;> simp [read, unread]

/-- Taking a head off uses up an item. -/
theorem remaining_pop?_lt {m n : Merge} {entry : Entry} (h : m.pop? = some (entry, n)) :
    n.remaining < m.remaining := by
  unfold pop? at h
  split at h
  · cases h
  · rename_i before head behind hleast
    obtain ⟨rfl, rfl⟩ := Prod.mk.inj (Option.some.inj h)
    have hread := read_remaining_le m.pending head.number head.rest
    simp only [remaining, least?_eq_some hleast, unread_append, unread]
    omega

/-! ## The stream -/

/-- Passes over every least head with the given key. -/
def skip (key : Bytes) (m : Merge) : Merge :=
  match _h : m.pop? with
  | none => m
  | some (entry, n) => if entry.key = key then skip key n else m
termination_by m.remaining
decreasing_by exact remaining_pop?_lt _h

theorem remaining_skip_le (key : Bytes) (m : Merge) : (skip key m).remaining ≤ m.remaining := by
  fun_induction skip key m with
  | case1 m h => exact Nat.le_refl _
  | case2 m entry n h hkey ih => exact Nat.le_trans ih (Nat.le_of_lt (remaining_pop?_lt h))
  | case3 m entry n h hkey => exact Nat.le_refl _

/-- One step: an error that waits, else the entry with the least key; entries of the same key in
older sources are passed over. -/
def next? (m : Merge) : Option (Item × Merge) :=
  match m.pending with
  | some e => some (.error e, { m with pending := none })
  | none => m.pop?.map fun (entry, n) => (.ok entry, skip entry.key n)

theorem remaining_next?_lt {m n : Merge} {item : Item} (h : m.next? = some (item, n)) :
    n.remaining < m.remaining := by
  unfold next? at h
  split at h
  · rename_i e he
    obtain ⟨_, rfl⟩ := Prod.mk.inj (Option.some.inj h)
    simp [remaining, he]
  · obtain ⟨⟨entry, o⟩, hpop, heq⟩ := Option.map_eq_some_iff.mp h
    obtain ⟨_, rfl⟩ := Prod.mk.inj heq
    exact Nat.lt_of_le_of_lt (remaining_skip_le _ _) (remaining_pop?_lt hpop)

/-- A merge does not say how many items are to come, since it cannot know how many it will pass
over. -/
instance : ItemStream Merge where
  next? := next?
  sizeHint _ := ⟨0, none⟩
  remaining := remaining
  remaining_lt := remaining_next?_lt

/-- The items of several sources, freshest first, in key order. -/
def items (sources : List (List Item)) : List Item := ItemStream.drain (ofSources sources)

end Merge

end LsmTree
