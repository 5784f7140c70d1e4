import LsmTree.Store.FileName

/-!
# Proofs/Store/FileName — which names a file of the store is read from

A file of the store is read from its own name, and besides from the names that have zeros in front
of its number and are otherwise the same (`StoreFile.paddedName`); there are no others
(`StoreFile.ofName?_eq_some_iff`).  So files and names correspond one to one among the names without
such zeros, and only there (`StoreFile.reads_own_name_iff`).
-/

namespace LsmTree.StoreFile

/-! ## Decimal digits -/

/-- A digit is the one that its number is written as. -/
theorem digitChar_of_isDigit {c : Char} (h : c.isDigit = true) :
    c.toNat - '0'.toNat < 10 ∧ Nat.digitChar (c.toNat - '0'.toNat) = c := by
  obtain ⟨hlower, hupper⟩ := Char.isDigit_iff_toNat.mp h
  have hnine : '9'.toNat = '0'.toNat + 9 := rfl
  have hlt : c.toNat - '0'.toNat < 10 := by omega
  refine ⟨hlt, Char.toNat_inj.mp ?_⟩
  rw [Nat.toNat_digitChar_of_lt_ten hlt]
  exact Nat.add_sub_of_le hlower

/-- Digits behind a number that is not zero make up a longer number. -/
theorem toDigits_append_digits {digits : List Char} (h : ∀ c ∈ digits, c.isDigit = true) {n : Nat}
    (hn : 0 < n) :
    Nat.toDigits 10 n ++ digits = Nat.toDigits 10 (Nat.ofDigitChars 10 digits n) := by
  induction digits generalizing n with
  | nil => simp
  | cons c rest ih =>
    obtain ⟨hlt, hdigit⟩ := digitChar_of_isDigit (h c List.mem_cons_self)
    have hrest := ih (fun d hd => h d (List.mem_cons_of_mem c hd))
      (n := 10 * n + (c.toNat - '0'.toNat)) (by omega)
    rw [Nat.ofDigitChars_cons, ← hrest, ← Nat.toDigits_append_toDigits (by decide) hn hlt,
      Nat.toDigits_of_lt_base hlt, hdigit, List.append_assoc, List.singleton_append]

/-- **Digits are those of their number behind some zeros.** -/
theorem exists_zeros_append {digits : List Char} (hne : digits ≠ [])
    (h : ∀ c ∈ digits, c.isDigit = true) :
    ∃ zeros, digits =
      List.replicate zeros '0' ++ Nat.toDigits 10 (Nat.ofDigitChars 10 digits 0) := by
  induction digits with
  | nil => exact absurd rfl hne
  | cons c rest ih =>
    have hrest : ∀ d ∈ rest, d.isDigit = true := fun d hd => h d (List.mem_cons_of_mem c hd)
    obtain ⟨hlt, hdigit⟩ := digitChar_of_isDigit (h c List.mem_cons_self)
    rw [Nat.ofDigitChars_cons, Nat.mul_zero, Nat.zero_add]
    rcases Nat.eq_zero_or_pos (c.toNat - '0'.toNat) with hzero | hpos
    · obtain rfl : '0' = c := by rw [← hdigit, hzero]; rfl
      rw [hzero]
      by_cases hlast : rest = []
      · exact ⟨0, by rw [hlast]; rfl⟩
      · obtain ⟨zeros, hzeros⟩ := ih hlast hrest
        exact ⟨zeros + 1, congrArg _ hzeros⟩
    · refine ⟨0, ?_⟩
      rw [← toDigits_append_digits hrest hpos, Nat.toDigits_of_lt_base hlt, hdigit]
      rfl

/-- **A priority is read from its digits behind some zeros**, and from no other text. -/
theorem priorityOfDigits?_eq_some_iff {digits : List Char} {priority : Priority} :
    priorityOfDigits? digits = some priority ↔
      ∃ zeros, digits = List.replicate zeros '0' ++ Nat.toDigits 10 priority.toNat := by
  unfold priorityOfDigits?
  constructor
  · intro h
    obtain ⟨⟨hne, hall⟩, h⟩ := Option.ite_none_right_eq_some.mp h
    obtain ⟨hlt, hpriority⟩ := Option.ite_none_right_eq_some.mp h
    obtain rfl := Option.some.inj hpriority
    rw [UInt64.toNat_ofNat_of_lt' hlt]
    exact exists_zeros_append hne (List.all_eq_true.mp hall)
  · rintro ⟨zeros, rfl⟩
    have hread := priorityOfDigits?_toDigits priority
    obtain ⟨⟨-, hall⟩, hread⟩ := Option.ite_none_right_eq_some.mp hread
    refine Option.ite_none_right_eq_some.mpr ⟨⟨by simp [Nat.toDigits_ne_nil], ?_⟩, ?_⟩
    · rw [List.all_append, hall, Bool.and_true, List.all_replicate]
      split <;> rfl
    · rw [Nat.ofDigitChars_append, Nat.ofDigitChars_replicate_zero, Nat.mul_zero]
      exact hread

/-! ## Names with zeros in front of the number -/

variable {file other : StoreFile} {text : String} {zeros : Nat}

/-- The number in the name of a file. -/
def priority : StoreFile → Priority
  | segment priority => priority
  | unfinished priority => priority

/-- What the name of a file ends with. -/
def extension : StoreFile → String
  | segment _ => segmentExtension
  | unfinished _ => unfinishedExtension

/-- The name of a file with so many zeros in front of its number. -/
def paddedName (file : StoreFile) (zeros : Nat) : String :=
  stem ++ String.ofList (List.replicate zeros '0') ++ toString file.priority.toNat ++ "." ++
    file.extension

theorem paddedName_zero (file : StoreFile) : file.paddedName 0 = file.name := by
  cases file <;> simp [paddedName, name, numbered, priority, extension]

/-- What follows the stem in a name. -/
def paddedTail (file : StoreFile) (zeros : Nat) : List Char :=
  List.replicate zeros '0' ++ Nat.toDigits 10 file.priority.toNat ++ '.' :: file.extension.toList

theorem toList_paddedName (file : StoreFile) (zeros : Nat) :
    (file.paddedName zeros).toList = stem.toList ++ file.paddedTail zeros := by
  simp [paddedName, paddedTail, Nat.toString_eq_repr, Nat.toList_repr]

/-- Digits are told apart from the dot behind them. -/
theorem takeWhile_digits {digits rest : List Char} (h : ∀ c ∈ digits, c.isDigit = true) :
    (digits ++ '.' :: rest).takeWhile (· ≠ '.') = digits := by
  rw [List.takeWhile_append_of_pos, List.takeWhile_cons_of_neg (by simp), List.append_nil]
  intro c hc
  simp only [ne_eq, decide_eq_true_eq]
  rintro rfl
  cases h _ hc

/-- The extension tells the kind of the file. -/
theorem ofExtension_eq_some_iff {priority : Priority} {ending : List Char} :
    (if ending = segmentExtension.toList then some (segment priority)
      else if ending = unfinishedExtension.toList then some (unfinished priority)
      else none) = some file ↔ priority = file.priority ∧ ending = file.extension.toList := by
  have hne : unfinishedExtension.toList ≠ segmentExtension.toList := by decide
  constructor
  · intro h
    split at h
    · obtain rfl := Option.some.inj h
      exact ⟨rfl, ‹_›⟩
    · obtain ⟨hending, hfile⟩ := Option.ite_none_right_eq_some.mp h
      obtain rfl := Option.some.inj hfile
      exact ⟨rfl, hending⟩
  · rintro ⟨rfl, rfl⟩
    cases file with
    | segment priority => exact if_pos rfl
    | unfinished priority => exact (if_neg hne).trans (if_pos rfl)

/-- A file is read from digits, a dot and its extension. -/
theorem ofTail?_eq_some_iff {tail : List Char} :
    ofTail? tail = some file ↔ ∃ digits, priorityOfDigits? digits = some file.priority ∧
      tail = digits ++ '.' :: file.extension.toList := by
  constructor
  · intro h
    obtain ⟨priority, hpriority, hrest⟩ := Option.bind_eq_some_iff.mp h
    have hdigits : tail.takeWhile (· ≠ '.') = tail.take (tail.takeWhile (· ≠ '.')).length :=
      List.prefix_iff_eq_take.mp (List.takeWhile_prefix _)
    split at hrest
    · rename_i ending hdrop
      obtain ⟨rfl, rfl⟩ := ofExtension_eq_some_iff.mp hrest
      refine ⟨_, hpriority, ?_⟩
      rw [← hdrop]
      conv => rhs; lhs; rw [hdigits]
      rw [List.take_append_drop]
    · cases hrest
  · rintro ⟨digits, hpriority, rfl⟩
    obtain ⟨⟨-, hall⟩, -⟩ := Option.ite_none_right_eq_some.mp hpriority
    refine Option.bind_eq_some_iff.mpr ⟨file.priority, ?_⟩
    rw [takeWhile_digits (List.all_eq_true.mp hall), List.drop_left]
    exact ⟨hpriority, ofExtension_eq_some_iff.mpr ⟨rfl, rfl⟩⟩

/-- **A file is read from its name with any number of zeros**, and from no other text. -/
theorem ofName?_eq_some_iff : ofName? text = some file ↔ ∃ zeros, text = file.paddedName zeros := by
  have hdrop : ∀ tail : List Char, (stem.toList ++ tail).drop stem.toList.length = tail :=
    fun _ => List.drop_left
  unfold ofName?
  constructor
  · intro h
    obtain ⟨hstem, htail⟩ := Option.ite_none_right_eq_some.mp h
    obtain ⟨tail, htext⟩ := List.isPrefixOf_iff_prefix.mp hstem
    rw [← htext, hdrop] at htail
    obtain ⟨digits, hdigits, rfl⟩ := ofTail?_eq_some_iff.mp htail
    obtain ⟨zeros, rfl⟩ := priorityOfDigits?_eq_some_iff.mp hdigits
    exact ⟨zeros, String.toList_inj.mp (htext.symm.trans (file.toList_paddedName zeros).symm)⟩
  · rintro ⟨zeros, rfl⟩
    refine Option.ite_none_right_eq_some.mpr ⟨?_, ?_⟩
    · rw [toList_paddedName, List.isPrefixOf_iff_prefix]
      exact List.prefix_append _ _
    · rw [toList_paddedName, hdrop]
      exact ofTail?_eq_some_iff.mpr ⟨_, priorityOfDigits?_eq_some_iff.mpr ⟨zeros, rfl⟩, rfl⟩

theorem ofName?_paddedName (file : StoreFile) (zeros : Nat) :
    ofName? (file.paddedName zeros) = some file := ofName?_eq_some_iff.mpr ⟨zeros, rfl⟩

/-- The zeros can be counted. -/
theorem paddedName_inj {zeros' : Nat} :
    file.paddedName zeros = other.paddedName zeros' ↔ file = other ∧ zeros = zeros' := by
  refine ⟨fun h => ?_, fun ⟨hfile, hzeros⟩ => by rw [hfile, hzeros]⟩
  obtain rfl : file = other := by
    rw [← Option.some_inj, ← ofName?_paddedName file zeros, h, ofName?_paddedName]
  have hlength := congrArg (List.length ∘ String.toList) h
  simp only [Function.comp_apply, toList_paddedName, paddedTail, List.length_append,
    List.length_replicate] at hlength
  exact ⟨rfl, by omega⟩

/-! ## Names without them -/

/-- **Without zeros in front a file is read from its own name only.** -/
theorem eq_name_of_ofName? (h : ofName? text = some file)
    (hplain : ∀ zeros, text ≠ file.paddedName (zeros + 1)) : text = file.name := by
  obtain ⟨zeros, rfl⟩ := ofName?_eq_some_iff.mp h
  cases zeros with
  | zero => exact file.paddedName_zero
  | succ zeros => exact absurd rfl (hplain zeros)

theorem name_ne_paddedName (file other : StoreFile) (zeros : Nat) :
    file.name ≠ other.paddedName (zeros + 1) := by
  rw [← paddedName_zero, ne_eq, paddedName_inj]
  exact fun h => Nat.succ_ne_zero zeros h.2.symm

/-- Being read as a file and being its name are the same but for zeros in front. -/
theorem read_iff_name_iff :
    (ofName? text = some file ↔ text = file.name) ↔
      ∀ zeros, text ≠ file.paddedName (zeros + 1) := by
  constructor
  · rintro h zeros rfl
    exact file.name_ne_paddedName file zeros (h.mp (ofName?_paddedName file (zeros + 1))).symm
  · intro hplain
    refine ⟨fun h => eq_name_of_ofName? h hplain, ?_⟩
    rintro rfl
    exact ofName?_name file

/-- Of two names of one file at least one has zeros in front. -/
theorem exists_zeros_of_ne {text' : String} (h : ofName? text = some file)
    (h' : ofName? text' = some file) (hne : text ≠ text') :
    ∃ zeros, text = file.paddedName (zeros + 1) ∨ text' = file.paddedName (zeros + 1) := by
  obtain ⟨zeros, rfl⟩ := ofName?_eq_some_iff.mp h
  obtain ⟨zeros', rfl⟩ := ofName?_eq_some_iff.mp h'
  rcases zeros with _ | zeros
  · rcases zeros' with _ | zeros'
    · exact absurd rfl hne
    · exact ⟨zeros', .inr rfl⟩
  · exact ⟨zeros, .inl rfl⟩

/-- A file is opened by the name it was found under, unless that has zeros in front. -/
theorem path_eq_iff {folder : Path} (h : ofName? text = some file) :
    file.path folder = folder ++ [text] ↔ ∀ zeros, text ≠ file.paddedName (zeros + 1) := by
  rw [← read_iff_name_iff, path]
  simp [h, eq_comm]

/-- **Files and names correspond one to one where no zeros stand in front of a number.**  A text is
read as a file if it is the file's name with any number of zeros.  So being read as the file and
being its name are the same for all texts but those with at least one zero; of two names that are
read as one file, at least one has such zeros; and the name that a file is opened by is the one it
was found under unless that has them. -/
theorem reads_own_name_iff (text : String) (file : StoreFile) :
    (ofName? text = some file ↔ ∃ zeros, text = file.paddedName zeros) ∧
    ((ofName? text = some file ↔ text = file.name) ↔
      ∀ zeros, text ≠ file.paddedName (zeros + 1)) ∧
    (∀ other, ofName? text = some file → ofName? other = some file → text ≠ other →
      ∃ zeros, text = file.paddedName (zeros + 1) ∨ other = file.paddedName (zeros + 1)) ∧
    ∀ folder : Path, ofName? text = some file →
      (file.path folder = folder ++ [text] ↔ ∀ zeros, text ≠ file.paddedName (zeros + 1)) :=
  ⟨ofName?_eq_some_iff, read_iff_name_iff, fun _ => exists_zeros_of_ne, fun _ => path_eq_iff⟩

/-- A name with a zero in front of its number is read as a file that has another name, and is opened
by that one. -/
theorem zero_in_front_is_read :
    ofName? "data01.dat" = some (.segment 1) ∧ "data01.dat" ≠ (segment 1).name ∧
      ofName? "data1.dat" = some (.segment 1) ∧
      (segment 1).path ["store"] ≠ ["store"] ++ ["data01.dat"] := by
  decide

end LsmTree.StoreFile
