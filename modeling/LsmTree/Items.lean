import LsmTree.Entry
import LsmTree.Error

/-!
# Items — what a scan yields, one step at a time

A scan yields items: entries, or an error where an entry cannot be read.  An `ItemStream` is
anything that yields items one at a time and says beforehand how many it may still yield; `drain`
takes them all, `take` some of them.  Every stream is finite, since each step uses up some of what
`remaining` counts.
-/

namespace LsmTree

/-- What a scan yields at one step. -/
abbrev Item := Except Error Entry

/-- A lower and an upper bound on the number of items to come; a missing upper bound says
nothing. -/
structure SizeHint where
  lower : Nat
  upper : Option Nat
  deriving DecidableEq

/-- A state that yields items one at a time. -/
class ItemStream (σ : Type) where
  /-- the next item and the state behind it, or nothing at the end -/
  next? : σ → Option (Item × σ)
  /-- what the stream says about the number of items to come -/
  sizeHint : σ → SizeHint
  /-- counts down with every item -/
  remaining : σ → Nat
  remaining_lt : ∀ {s item t}, next? s = some (item, t) → remaining t < remaining s

namespace ItemStream

variable {σ : Type} [ItemStream σ]

/-- All items of a stream. -/
def drain (s : σ) : List Item :=
  match _h : next? s with
  | none => []
  | some (item, t) => item :: drain t
termination_by remaining s
decreasing_by exact remaining_lt _h

/-- At most `n` items of a stream, and the state behind them. -/
def take : Nat → σ → List Item × σ
  | 0, s => ([], s)
  | n + 1, s =>
    match next? s with
    | none => ([], s)
    | some (item, t) =>
      let rest := take n t
      (item :: rest.1, rest.2)

/-- The size hints before the first item and after each item. -/
def hints (s : σ) : List SizeHint :=
  sizeHint s ::
    match _h : next? s with
    | none => []
    | some (_, t) => hints t
termination_by remaining s
decreasing_by exact remaining_lt _h

/-- Every step with the hint given before it, up to and with the step that finds the end. -/
def steps (s : σ) : List (SizeHint × Option Item) :=
  match _h : next? s with
  | none => [(sizeHint s, none)]
  | some (item, t) => (sizeHint s, some item) :: steps t
termination_by remaining s
decreasing_by exact remaining_lt _h

theorem drain_of_none {s : σ} (h : next? s = none) : drain s = [] := by
  unfold drain
  split <;> simp_all

theorem drain_of_some {s t : σ} {item : Item} (h : next? s = some (item, t)) :
    drain s = item :: drain t := by
  conv => lhs; unfold drain
  split <;> simp_all

theorem steps_of_none {s : σ} (h : next? s = none) : steps s = [(sizeHint s, none)] := by
  unfold steps
  split <;> simp_all

theorem steps_of_some {s t : σ} {item : Item} (h : next? s = some (item, t)) :
    steps s = (sizeHint s, some item) :: steps t := by
  conv => lhs; unfold steps
  split <;> simp_all

/-- The steps of a stream yield its items. -/
theorem filterMap_steps (s : σ) : (steps s).filterMap (·.2) = drain s := by
  fun_induction steps s with
  | case1 s h => exact (drain_of_none h).symm
  | case2 s item t h ih => rw [drain_of_some h, ← ih, List.filterMap_cons]

/-- States with the same next step yield the same items. -/
theorem drain_congr {s t : σ} (h : next? s = next? t) : drain s = drain t := by
  match hs : next? s with
  | none => rw [drain_of_none hs, drain_of_none (h ▸ hs)]
  | some (item, u) => rw [drain_of_some hs, drain_of_some (s := t) (h ▸ hs)]

/-- A stream has no more items than it counts. -/
theorem length_drain_le (s : σ) : (drain s).length ≤ remaining s := by
  fun_induction drain s with
  | case1 s h => simp
  | case2 s item t h ih =>
    have := remaining_lt h
    simp only [List.length_cons]
    omega

end ItemStream

/-! ## Lists -/

/-- A list yields its elements in order, and knows how many there are. -/
instance : ItemStream (List Item) where
  next?
    | [] => none
    | item :: rest => some (item, rest)
  sizeHint items := ⟨items.length, some items.length⟩
  remaining := List.length
  remaining_lt {s} := by cases s <;> simp

@[simp] theorem ItemStream.drain_list (items : List Item) : drain items = items := by
  induction items with
  | nil => exact drain_of_none rfl
  | cons item rest ih => rw [drain_of_some (t := rest) rfl, ih]

namespace Item

/-- All entries of a scan, or its first error. -/
def collect : List Item → Except Error (List Entry)
  | [] => .ok []
  | .error e :: _ => .error e
  | .ok entry :: rest => (entry :: ·) <$> collect rest

/-- The entries of a scan, its errors left out. -/
def entries : List Item → List Entry
  | [] => []
  | .error _ :: rest => entries rest
  | .ok entry :: rest => entry :: entries rest

/-- The errors of a scan. -/
def errors : List Item → List Error
  | [] => []
  | .error e :: rest => e :: errors rest
  | .ok _ :: rest => errors rest

@[simp] theorem collect_ok (es : List Entry) : collect (es.map .ok) = .ok es := by
  induction es with
  | nil => rfl
  | cons e es ih => simp [collect, ih, Functor.map, Except.map]

end Item

end LsmTree
