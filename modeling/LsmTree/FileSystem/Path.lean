import LsmTree.Error

/-!
# FileSystem/Path — texts that name files

A path is the list of the pieces of its text between slashes.  Read from the left, a piece that is
empty or `.` stays in the directory reached so far, `..` goes up, and every other piece is a name in
that directory.  An empty piece at the end, which is a slash at the end of the text, therefore still
asks for a directory.

A place is where a path can lead to: the names on the way from the root, with nothing to skip and
nowhere to go up.  `Path.normalize` finds it from the text alone (`Path.up_not_mem_normalize`);
`FileSystem/Walk` finds it in a file system, where links count too.
-/

namespace LsmTree

/-- The pieces of a text between slashes. -/
abbrev Path := List String

/-- The names on the way from the root to something in a file system. -/
abbrev Place := List String

namespace Place

/-- The place as a text that begins at the root. -/
def absoluteText (place : Place) : String := "/" ++ "/".intercalate place

/-- The place as a text that begins anywhere. -/
def relativeText (place : Place) : String := "/".intercalate place

end Place

namespace Path

/-- The piece that stays in the directory reached so far. -/
def here : String := "."

/-- The piece that leads to the directory above. -/
def up : String := ".."

/-- The piece leads nowhere. -/
def stays (piece : String) : Bool := piece = "" || piece = here

/-- The piece is a name, which something in a directory can have. -/
def isName (piece : String) : Bool := !stays piece && piece ≠ up

/-- The pieces of a text. -/
def ofText (text : String) : Path := (text.toList.splitOn '/').map String.ofList

/-- The path begins at the root wherever it is followed from: its text begins with a slash. -/
def isAbsolute : Path → Bool
  | "" :: _ :: _ => true
  | _ => false

/-! ## Texts that are paths -/

/-- The most bytes that a name may have. -/
def maxNameBytes : Nat := 255

/-- The most bytes that the text of a path may have. -/
def maxBytes : Nat := 4095

/-- Refuses a text with a NUL in it. -/
def refuseNul (text : String) : Except IoError Unit :=
  if text.toList.contains '\x00' then .error .invalidInput else .ok ()

/-- The pieces of a text, which is neither empty nor longer than `maxBytes`. -/
def pieces (text : String) : Except IoError Path :=
  if text = "" then .error .notFound
  else if maxBytes < text.utf8ByteSize then .error .invalidFilename
  else .ok (ofText text)

/-- The path that a text stands for. -/
def parse (text : String) : Except IoError Path := do
  refuseNul text
  pieces text

/-- The text of a name below a folder: one slash separates the two, unless the folder's text ends
with one or is empty. -/
def joinText (folder name : String) : String :=
  if folder = "" || folder.endsWith "/" then folder ++ name else folder ++ "/" ++ name

/-! ## Where a text leads without looking -/

/-- The place that a piece leads to from the place reached so far; nothing lies above the root. -/
def enter (reached : Place) (piece : String) : Place :=
  if stays piece then reached
  else if piece = up then reached.dropLast
  else reached ++ [piece]

/-- The place that a path from the root leads to if no link is on the way: each `..` takes away the
name before it. -/
def normalize (path : Path) : Place := path.foldl enter []

theorem up_not_mem_enter {reached : Place} (piece : String) (h : up ∉ reached) :
    up ∉ enter reached piece := by
  unfold enter
  split
  · exact h
  split
  · exact fun hmem => h ((List.dropLast_sublist reached).subset hmem)
  · rename_i hpiece
    simpa [h] using Ne.symm hpiece

/-- **A normalized path does not go up.** -/
theorem up_not_mem_normalize (path : Path) : up ∉ path.normalize := by
  have keeps : ∀ (rest : Path) (reached : Place), up ∉ reached → up ∉ rest.foldl enter reached := by
    intro rest
    induction rest with
    | nil => exact fun reached h => h
    | cons piece rest ih => exact fun reached h => ih _ (up_not_mem_enter piece h)
  exact keeps path [] (by simp)

/-! ## The end of a path -/

/-- How a path ends.  What is created, removed or renamed needs a name at the end of its path. -/
inductive Ending where
  /-- with a name, and perhaps a slash behind it -/
  | name (name : String) (slash : Bool)
  /-- with `.` -/
  | here
  /-- with `..` -/
  | up
  /-- there is nothing but slashes -/
  | root
  deriving DecidableEq

/-- The path up to its last piece that is not empty, and that piece. -/
def split (path : Path) : Path × Ending :=
  match path.reverse.dropWhile (· = "") with
  | [] => ([], .root)
  | last :: above =>
    (above.reverse,
      if last = here then .here
      else if last = up then .up
      else .name last (path.getLast? = some ""))

/-- The path without its last piece that leads somewhere, and without what follows that piece. -/
def parent? (path : Path) : Option Path :=
  match path.reverse.dropWhile stays with
  | [] => none
  | _ :: above => some (above.dropWhile stays).reverse

theorem isName_iff {piece : String} : isName piece ↔ stays piece = false ∧ piece ≠ up := by
  simp [isName]

/-- A name below a folder is split off again. -/
theorem split_concat (folder : Path) {name : String} (h : isName name) :
    split (folder ++ [name]) = (folder, .name name false) := by
  simp only [isName, stays, Bool.not_or, Bool.and_eq_true, Bool.not_eq_true',
    decide_eq_false_iff_not, decide_eq_true_eq, ne_eq] at h
  obtain ⟨⟨hempty, hhere⟩, hup⟩ := h
  simp [split, hempty, hhere, hup]

/-- A path is longer than the one to its parent. -/
theorem length_lt_of_parent? {path parent : Path} (h : path.parent? = some parent) :
    parent.length < path.length := by
  unfold parent? at h
  split at h
  · cases h
  · rename_i last above hdrop
    have hlength := (List.dropWhile_sublist stays (l := path.reverse)).length_le
    have habove := (List.dropWhile_sublist stays (l := above)).length_le
    rw [hdrop] at hlength
    simp only [Option.some.injEq] at h
    subst h
    simp only [List.length_cons, List.length_reverse] at *
    omega

end Path

end LsmTree
