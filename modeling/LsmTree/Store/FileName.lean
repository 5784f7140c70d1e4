import LsmTree.Priority
import LsmTree.FileSystem.Path

/-!
# Store/FileName — the names of a store's files

A store keeps every segment in a file `data<N>.dat`, where `N` is the segment's priority.  While a
segment is being written its file is called `data<N>.tmp`.  All other files in the folder are
foreign.  `StoreFile.ofName?` tells them apart (`StoreFile.ofName?_name`); it reads a number with
leading zeros too, which no file of the store is named by.  Every name of the store fits into a
directory (`StoreFile.isName_name`, `StoreFile.utf8ByteSize_name_le`).
-/

namespace LsmTree

/-- A file that belongs to the store. -/
inductive StoreFile where
  /-- a finished segment -/
  | segment (priority : Priority)
  /-- a segment whose writing has not ended, or never will -/
  | unfinished (priority : Priority)
  deriving DecidableEq

namespace StoreFile

/-- What the name of every file of the store begins with. -/
def stem : String := "data"

/-- What the name of a finished segment ends with. -/
def segmentExtension : String := "dat"

/-- What the name of an unfinished segment ends with. -/
def unfinishedExtension : String := "tmp"

/-- The stem, the priority in decimal digits, a dot and an extension. -/
def numbered (priority : Priority) (extension : String) : String :=
  stem ++ toString priority.toNat ++ "." ++ extension

/-- The name of a file of the store. -/
def name : StoreFile → String
  | segment priority => numbered priority segmentExtension
  | unfinished priority => numbered priority unfinishedExtension

/-- The place of a file of the store in its folder. -/
def path (folder : Path) (file : StoreFile) : Path := folder ++ [file.name]

/-- The number that a text of decimal digits stands for, if it is small enough for a priority. -/
def priorityOfDigits? (digits : List Char) : Option Priority :=
  if digits ≠ [] ∧ digits.all Char.isDigit then
    let n := Nat.ofDigitChars 10 digits 0
    if n < UInt64.size then some (UInt64.ofNat n) else none
  else none

/-- The file of the store whose name is the stem and then the given characters: decimal digits,
a dot and one of the two extensions. -/
def ofTail? (tail : List Char) : Option StoreFile := do
  let digits := tail.takeWhile (· ≠ '.')
  let priority ← priorityOfDigits? digits
  match tail.drop digits.length with
  | '.' :: extension =>
    if extension = segmentExtension.toList then some (segment priority)
    else if extension = unfinishedExtension.toList then some (unfinished priority)
    else none
  | _ => none

/-- The file of the store that a name stands for. -/
def ofName? (text : String) : Option StoreFile :=
  if stem.toList.isPrefixOf text.toList then ofTail? (text.toList.drop stem.toList.length)
  else none

/-! ## Names read back -/

theorem toList_numbered (priority : Priority) (extension : String) :
    (numbered priority extension).toList =
      stem.toList ++ (Nat.toDigits 10 priority.toNat ++ '.' :: extension.toList) := by
  simp [numbered, Nat.toString_eq_repr, Nat.toList_repr]

theorem priorityOfDigits?_toDigits (priority : Priority) :
    priorityOfDigits? (Nat.toDigits 10 priority.toNat) = some priority := by
  have hdigits : (Nat.toDigits 10 priority.toNat).all Char.isDigit = true :=
    List.all_eq_true.mpr fun c hc =>
      Nat.isDigit_of_mem_toDigits (by decide) (Nat.le_refl 10) hc
  have hlt : priority.toNat < UInt64.size := priority.toNat_lt
  unfold priorityOfDigits?
  rw [if_pos ⟨Nat.toDigits_ne_nil, hdigits⟩, Nat.ofDigitChars_ten_toDigits]
  simp only [hlt, if_true, UInt64.ofNat_toNat]

theorem takeWhile_toDigits (n : Nat) (rest : List Char) :
    (Nat.toDigits 10 n ++ '.' :: rest).takeWhile (· ≠ '.') = Nat.toDigits 10 n := by
  rw [List.takeWhile_append_of_pos, List.takeWhile_cons_of_neg (by simp), List.append_nil]
  intro c hc
  have hdigit := Nat.isDigit_of_mem_toDigits (by decide) (Nat.le_refl 10) hc
  simp only [ne_eq, decide_eq_true_eq]
  rintro rfl
  cases hdigit

theorem ofName?_numbered (priority : Priority) (extension : String) :
    ofName? (numbered priority extension) =
      if extension = segmentExtension then some (segment priority)
      else if extension = unfinishedExtension then some (unfinished priority)
      else none := by
  have hstem : stem.toList.isPrefixOf (numbered priority extension).toList := by
    rw [toList_numbered, List.isPrefixOf_iff_prefix]
    exact List.prefix_append _ _
  unfold ofName?
  rw [if_pos hstem, toList_numbered, List.drop_left]
  unfold ofTail?
  simp only [takeWhile_toDigits, priorityOfDigits?_toDigits]
  simp [String.toList_inj]

/-- **Every file of the store is known by its name.** -/
theorem ofName?_name (file : StoreFile) : ofName? file.name = some file := by
  cases file with
  | segment priority => exact (ofName?_numbered _ _).trans (if_pos rfl)
  | unfinished priority =>
    exact (ofName?_numbered _ _).trans ((if_neg (by decide)).trans (if_pos rfl))

/-! ## Names of the store in a folder -/

theorem isName_numbered (priority : Priority) (extension : String) :
    Path.isName (numbered priority extension) := by
  have hne : ∀ text : String, text.toList.head? ≠ some 'd' →
      numbered priority extension ≠ text := by
    rintro _ hhead rfl
    rw [toList_numbered] at hhead
    exact hhead rfl
  have hempty := hne "" (by decide)
  have hhere := hne Path.here (by decide)
  have hup := hne Path.up (by decide)
  simp [Path.isName, Path.stays, hempty, hhere, hup]

/-- A file of the store is named by a name, not by a way to stay or to go up. -/
theorem isName_name (file : StoreFile) : Path.isName file.name := by
  cases file <;> exact isName_numbered _ _

theorem utf8ByteSize_ofList_digits {digits : List Char} (h : ∀ c ∈ digits, c.isDigit) :
    (String.ofList digits).utf8ByteSize = digits.length := by
  induction digits with
  | nil => rfl
  | cons c rest ih =>
    have hc : c.utf8Size = 1 := by
      have hdigit := h c List.mem_cons_self
      simp only [Char.isDigit, Bool.and_eq_true, decide_eq_true_eq] at hdigit
      exact Char.utf8Size_eq_one_iff.mpr (UInt32.le_trans hdigit.2 (by decide))
    rw [String.ofList_cons, String.utf8ByteSize_append, String.utf8ByteSize_singleton, hc,
      ih fun d hd => h d (List.mem_cons_of_mem c hd), List.length_cons, Nat.add_comm]

theorem utf8ByteSize_numbered_le (priority : Priority) {extension : String}
    (h : extension.utf8ByteSize = 3) :
    (numbered priority extension).utf8ByteSize ≤ Path.maxNameBytes := by
  have hdigits : (Nat.toDigits 10 priority.toNat).length ≤ 20 :=
    (Nat.length_toDigits_le_iff (by decide) (by decide)).mpr
      (Nat.lt_trans priority.toNat_lt (by decide))
  have hsize : (toString priority.toNat).utf8ByteSize =
      (Nat.toDigits 10 priority.toNat).length := by
    rw [Nat.toString_eq_repr, Nat.repr_eq_ofList_toDigits, utf8ByteSize_ofList_digits]
    exact fun c hc => Nat.isDigit_of_mem_toDigits (by decide) (Nat.le_refl 10) hc
  have hstem : stem.utf8ByteSize = 4 := rfl
  have hdot : ".".utf8ByteSize = 1 := rfl
  simp only [numbered, String.utf8ByteSize_append, hsize, hstem, hdot, h, Path.maxNameBytes]
  omega

/-- The names of the store are short enough for a directory. -/
theorem utf8ByteSize_name_le (file : StoreFile) : file.name.utf8ByteSize ≤ Path.maxNameBytes := by
  cases file <;> exact utf8ByteSize_numbered_le _ rfl

end StoreFile

end LsmTree
