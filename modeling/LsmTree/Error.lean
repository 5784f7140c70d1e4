import LsmTree.Text.Quoted

/-!
# Error — why an operation fails

Four kinds of cause: the file system refuses (`IoError`), a file is damaged (`Corruption`), the
engine is in the wrong state (`busy`, `closed`), or a rule of the engine itself is broken
(`internal`).  `Error.message` is the one place where a cause becomes text.
-/

namespace LsmTree

/-- Why the file system refuses a request. -/
inductive IoError where
  /-- there is nothing under the name -/
  | notFound
  /-- there is something under the name already -/
  | alreadyExists
  /-- a file is needed and the name is a directory's -/
  | isADirectory
  /-- a directory is needed and the name is something else's -/
  | notADirectory
  /-- the directory still has entries -/
  | directoryNotEmpty
  /-- links lead in a circle -/
  | filesystemLoop
  /-- there is a NUL in the name, a directory is to move below itself, one is to be removed under the
  name `.`, or a file is to be longer than files can be -/
  | invalidInput
  /-- the name is longer than names may be -/
  | invalidFilename
  /-- the root, or a directory under the name `.` or `..`, cannot be moved -/
  | resourceBusy
  /-- the buffer takes no more bytes -/
  | writeZero
  /-- the object cannot be mapped into memory -/
  | uncategorized
  deriving DecidableEq

/-- What is wrong with a file of the store. -/
inductive Corruption where
  /-- the file ends before its header does -/
  | truncatedHeader
  /-- the number of entries is negative, or their index does not fit into the file -/
  | invalidEntryCount (raw : Int)
  /-- an index slot does not point at a record -/
  | invalidOffset (raw : Int)
  /-- the length of a key is negative or runs past the end of the file -/
  | invalidKeyLength (raw : Int)
  /-- the length of a value is negative or runs past the end of the file -/
  | invalidValueLength (raw : Int)
  /-- no priority is left above the greatest one in use -/
  | priorityExhausted (priority : UInt64)
  deriving DecidableEq

/-- Why an operation of the store fails. -/
inductive Error where
  /-- the file system refused -/
  | io (cause : IoError)
  /-- the file was written in a format of another version -/
  | invalidVersion (raw : UInt64)
  /-- a file is damaged -/
  | corrupt (cause : Corruption)
  /-- the same background work is running already -/
  | busy
  /-- the engine was closed -/
  | closed
  /-- a rule of the engine is broken -/
  | internal (text : String)
  deriving DecidableEq

/-- The name of a cause. -/
def IoError.name : IoError → String
  | notFound => "NotFound"
  | alreadyExists => "AlreadyExists"
  | isADirectory => "IsADirectory"
  | notADirectory => "NotADirectory"
  | directoryNotEmpty => "DirectoryNotEmpty"
  | filesystemLoop => "FilesystemLoop"
  | invalidInput => "InvalidInput"
  | invalidFilename => "InvalidFilename"
  | resourceBusy => "ResourceBusy"
  | writeZero => "WriteZero"
  | uncategorized => "Uncategorized"

/-- The damage in words. -/
def Corruption.text : Corruption → String
  | truncatedHeader => "TruncatedHeader"
  | invalidEntryCount raw => s!"InvalidEntryCount({raw})"
  | invalidOffset raw => s!"InvalidOffset({raw})"
  | invalidKeyLength raw => s!"InvalidKeyLength({raw})"
  | invalidValueLength raw => s!"InvalidValueLength({raw})"
  | priorityExhausted priority => s!"PriorityExhausted({priority.toNat})"

namespace Error

/-- The kind of a failure, one word. -/
def kind : Error → String
  | io _ => "Io"
  | invalidVersion _ => "InvalidVersion"
  | corrupt _ => "Corrupt"
  | busy => "Busy"
  | closed => "Closed"
  | internal _ => "Internal"

/-- What a failure says: the name of the cause for the file system's refusals, and for all others
the kind with its details. -/
def message : Error → String
  | io cause => cause.name
  | invalidVersion raw => s!"LsmKvError: InvalidVersion({raw.toNat})"
  | corrupt cause => s!"LsmKvError: Corrupt({cause.text})"
  | busy => "LsmKvError: Busy"
  | closed => "LsmKvError: Closed"
  | internal text => "LsmKvError: Internal(" ++ Text.Quoted.encode text ++ ")"

/-- The failure was caused by another one, that of the file system. -/
def hasSource : Error → Bool
  | io _ => true
  | _ => false

end Error

/-! ## What an outcome tells of its parts -/

section

variable {ε α β : Type} {result : Except ε α} {b : β} {e : ε}

theorem bind_eq_ok_iff {f : α → Except ε β} :
    result >>= f = .ok b ↔ ∃ a, result = .ok a ∧ f a = .ok b := by
  cases result <;> simp [bind, Except.bind]

theorem bind_eq_error_iff {f : α → Except ε β} :
    result >>= f = .error e ↔ result = .error e ∨ ∃ a, result = .ok a ∧ f a = .error e := by
  cases result <;> simp [bind, Except.bind]

theorem map_eq_ok_iff {f : α → β} : f <$> result = .ok b ↔ ∃ a, result = .ok a ∧ f a = b := by
  cases result <;> simp [Functor.map, Except.map]

end

end LsmTree
