import LsmTree.Error

/-!
# Priority — the age order of segments

A segment's priority says how new it is: of two segments the one with the higher priority was
written later.  Priority `0` is kept for the outcome of a compaction, which is older than every
segment written afterwards.  A `Counter` deals out the priorities of new segments.
-/

namespace LsmTree

/-- How new a segment is. -/
abbrev Priority := UInt64

/-- The priority that a compacted segment takes. -/
def Priority.lowest : Priority := 0

/-! ## Sorting by age -/

namespace Priority

variable {α : Type} (age : α → Priority)

/-- Puts an element in front of the first that is not newer. -/
def insertByAge (x : α) : List α → List α
  | [] => [x]
  | y :: rest => if age y ≤ age x then x :: y :: rest else y :: insertByAge x rest

/-- A list by descending priority; elements of one priority keep their order. -/
def newestFirst (xs : List α) : List α := xs.foldr (insertByAge age) []

theorem mem_insertByAge {x y : α} {xs : List α} : y ∈ insertByAge age x xs ↔ y = x ∨ y ∈ xs := by
  induction xs with
  | nil => simp [insertByAge]
  | cons z rest ih =>
    unfold insertByAge
    split
    · simp
    · simp only [List.mem_cons, ih]
      constructor <;> (rintro (h | h | h) <;> simp [h])

theorem pairwise_insertByAge {x : α} {xs : List α}
    (h : xs.Pairwise (fun a b => age b ≤ age a)) :
    (insertByAge age x xs).Pairwise (fun a b => age b ≤ age a) := by
  induction xs with
  | nil => simp [insertByAge]
  | cons z rest ih =>
    obtain ⟨hz, hrest⟩ := List.pairwise_cons.mp h
    unfold insertByAge
    split
    · rename_i hle
      refine List.pairwise_cons.mpr ⟨fun y hy => ?_, h⟩
      rcases List.mem_cons.mp hy with rfl | hy
      · exact hle
      · exact UInt64.le_trans (hz y hy) hle
    · rename_i hlt
      refine List.pairwise_cons.mpr ⟨fun y hy => ?_, ih hrest⟩
      rcases (mem_insertByAge age).mp hy with rfl | hy
      · exact UInt64.le_of_lt (UInt64.not_le.mp hlt)
      · exact hz y hy

/-- **The newest comes first.** -/
theorem pairwise_newestFirst (xs : List α) :
    (newestFirst age xs).Pairwise (fun a b => age b ≤ age a) := by
  induction xs with
  | nil => exact .nil
  | cons x rest ih => exact pairwise_insertByAge age ih

@[simp] theorem mem_newestFirst {y : α} {xs : List α} : y ∈ newestFirst age xs ↔ y ∈ xs := by
  induction xs with
  | nil => exact Iff.rfl
  | cons x rest ih =>
    rw [newestFirst, List.foldr_cons, mem_insertByAge, List.mem_cons]
    exact or_congr_right ih

end Priority

/-! ## Dealing out priorities -/

/-- Deals out priorities in ascending order. -/
structure Counter where
  /-- the priority that the next segment gets -/
  next : Priority := 1
  deriving DecidableEq

namespace Counter

/-- The counter of a store whose newest segment has the given priority; an empty store starts
at `1`.  Above the greatest priority there is none. -/
def after : Option Priority → Except Error Counter
  | none => .ok {}
  | some newest =>
    if newest.toNat + 1 < UInt64.size then .ok ⟨newest + 1⟩
    else .error (.corrupt (.priorityExhausted newest))

/-- The counter once the next priority is taken; past the greatest one it starts over. -/
def advance (counter : Counter) : Counter := ⟨counter.next + 1⟩

end Counter

end LsmTree
