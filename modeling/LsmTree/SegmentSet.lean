import LsmTree.Segment.Search

/-!
# SegmentSet — the segments of a store, newest first

A set lists segments by descending priority, and the type says so (`SegmentSet.sorted`); of two
segments with one priority the one that was put in first stays first.  A key's entry is the one in
the newest segment that has it.
-/

namespace LsmTree

/-- Segments, newest first. -/
structure SegmentSet where
  segments : List Segment := []
  sorted : segments.Pairwise (fun a b => b.priority ≤ a.priority) := by exact .nil

namespace SegmentSet

/-! ## Building sets -/

/-- The set of the given segments. -/
def ofList (segments : List Segment) : SegmentSet :=
  ⟨Priority.newestFirst (·.priority) segments, Priority.pairwise_newestFirst _ _⟩

/-- The set with a segment that was just flushed. -/
def insert (set : SegmentSet) (segment : Segment) : SegmentSet :=
  ofList (segment :: set.segments)

/-- The set with the inputs of a compaction replaced by its output, if it has one. -/
def replace (set : SegmentSet) (inputs : List Priority) (output : Option Segment) :
    SegmentSet :=
  ofList (set.segments.filter (fun s => !inputs.contains s.priority) ++ output.toList)

@[simp] theorem mem_ofList {segments : List Segment} {s : Segment} :
    s ∈ (ofList segments).segments ↔ s ∈ segments := Priority.mem_newestFirst _

theorem mem_insert {set : SegmentSet} {segment s : Segment} :
    s ∈ (set.insert segment).segments ↔ s = segment ∨ s ∈ set.segments :=
  mem_ofList.trans List.mem_cons

/-- **A compaction's inputs are gone and its output is there**; no other segment comes or goes. -/
theorem mem_replace {set : SegmentSet} {inputs : List Priority} {output : Option Segment}
    {s : Segment} :
    s ∈ (set.replace inputs output).segments ↔
      (s ∈ set.segments ∧ s.priority ∉ inputs) ∨ output = some s := by
  simp [replace]

/-! ## Reading sets -/

/-- The number of segments. -/
def size (set : SegmentSet) : Nat := set.segments.length

/-- There is no segment. -/
def isEmpty (set : SegmentSet) : Bool := set.segments.isEmpty

/-- The priorities, newest first. -/
def priorities (set : SegmentSet) : List Priority := set.segments.map (·.priority)

/-- The greatest priority. -/
def newestPriority? (set : SegmentSet) : Option Priority := set.priorities.head?

/-- The bytes that the files of the segments take. -/
def byteSize (set : SegmentSet) : Nat :=
  set.segments.foldr (fun segment others => segment.byteSize + others) 0

/-- The entry of a key in the first segment that has it; a segment that cannot be searched stops
the look-up. -/
def lookupIn (key : Bytes) : List Segment → Except Error (Option Entry)
  | [] => .ok none
  | segment :: older =>
    match segment.lookup key with
    | .error e => .error e
    | .ok (some entry) => .ok (some entry)
    | .ok none => lookupIn key older

/-- The newest entry of a key, a tombstone included. -/
def lookup (set : SegmentSet) (key : Bytes) : Except Error (Option Entry) :=
  lookupIn key set.segments

/-- What a set is called in a text. -/
def text (set : SegmentSet) : String :=
  "SegmentSet \x7b segments: [" ++ ", ".intercalate (set.segments.map (·.text)) ++ "] \x7d"

end SegmentSet

end LsmTree
