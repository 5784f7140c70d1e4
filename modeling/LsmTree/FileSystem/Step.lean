import LsmTree.FileSystem.Walk

/-!
# FileSystem/Step — single changes to a file system, and sequences of them

Each change is **atomic**: it is done as a whole or it fails and leaves the file system as it was,
which is why a change is a function into `Except`.  A `FileStep` names one change, so that a
sequence of them is a list: `perform` runs a list up to the first step that fails, and a crash is
the same list cut short.
-/

namespace LsmTree

namespace FileSystem

/-! ## Single changes -/

/-- Writes a file as a whole, creating it or replacing its content. -/
def write (fs : FileSystem) (path : Path) (image : Image) : Except IoError FileSystem := do
  let place ← fs.resolveNew path
  match fs.node? place with
  | some .directory => throw .isADirectory
  | some (.file _) | some (.link _) | none => return fs.put place (.file image)

/-- Removes a file or a link.  With a slash behind its name it is taken for a directory. -/
def remove (fs : FileSystem) (path : Path) : Except IoError FileSystem := do
  match ← fs.locate path with
  | (directory, .name name slash) =>
    match ← fs.find directory name with
    | none => throw .notFound
    | some .directory => throw .isADirectory
    | some (.file _) | some (.link _) =>
      if slash then throw .notADirectory else return fs.erase (directory ++ [name])
  | _ => throw .isADirectory

/-- Removes an empty directory. -/
def removeDirectory (fs : FileSystem) (path : Path) : Except IoError FileSystem := do
  match ← fs.locate path with
  | (directory, .name name _) =>
    match ← fs.find directory name with
    | none => throw .notFound
    | some .directory =>
      if (fs.children (directory ++ [name])).isEmpty then return fs.erase (directory ++ [name])
      else throw .directoryNotEmpty
    | some (.file _) | some (.link _) => throw .notADirectory
  | (_, .here) => throw .invalidInput
  | (_, .up) => throw .directoryNotEmpty
  | (_, .root) => throw .resourceBusy

/-- Creates a directory. -/
def makeDirectory (fs : FileSystem) (path : Path) : Except IoError FileSystem := do
  match ← fs.locate path with
  | (directory, .name name _) =>
    match ← fs.find directory name with
    | some _ => throw .alreadyExists
    | none => return fs.put (directory ++ [name]) .directory
  | _ => throw .alreadyExists

/-- Creates a link.  A slash behind its name would make it a directory's. -/
def makeLink (fs : FileSystem) (path target : Path) : Except IoError FileSystem := do
  match ← fs.locate path with
  | (directory, .name name slash) =>
    match ← fs.find directory name with
    | some _ => throw .alreadyExists
    | none =>
      if slash then throw .notFound else return fs.put (directory ++ [name]) (.link target)
  | _ => throw .alreadyExists

/-- The file system without a place and everything below it. -/
def eraseBelow (fs : FileSystem) (place : Place) : FileSystem :=
  ⟨fs.nodes.filter fun other _ => !place.isPrefixOf other⟩

/-- The file system with everything at and below one place moved to another. -/
def move (fs : FileSystem) (source target : Place) : FileSystem :=
  let moved := fs.nodes.toList.filterMap fun (place, node) =>
    if source.isPrefixOf place then some (target ++ place.drop source.length, node) else none
  ⟨(fs.eraseBelow source).nodes.insertMany moved⟩

/-- The file system with what is at one place put in place of what is at another, if anything is.
A file or link replaces all but a directory, a directory an empty directory; nothing can move below
itself or take the place of a directory it lies in. -/
def relocate (fs : FileSystem) (source : Place) (node : Node) (target : Place)
    (replaced : Option Node) : Except IoError FileSystem :=
  if source = target then .ok fs
  else if source.isPrefixOf target then .error .invalidInput
  else if target.isPrefixOf source then .error .directoryNotEmpty
  else
    match node, replaced with
    | .directory, none => .ok (fs.move source target)
    | .directory, some .directory =>
      if (fs.children target).isEmpty then .ok ((fs.erase target).move source target)
      else .error .directoryNotEmpty
    | .directory, some _ => .error .notADirectory
    | _, some .directory => .error .isADirectory
    | node, _ => .ok ((fs.erase source).put target node)

/-- Gives a file, link or directory another name.  A slash behind either name is only for
directories. -/
def rename (fs : FileSystem) (path newPath : Path) : Except IoError FileSystem := do
  match ← fs.locate path, ← fs.locate newPath with
  | (directory, .name name slash), (newDirectory, .name newName newSlash) =>
    match ← fs.find directory name with
    | none => throw .notFound
    | some node =>
      let replaced ← fs.find newDirectory newName
      if !node.isDirectory && (slash || newSlash) then throw .notADirectory
      else fs.relocate (directory ++ [name]) node (newDirectory ++ [newName]) replaced
  | _, _ => throw .resourceBusy

end FileSystem

/-! ## Steps and sequences of steps -/

/-- One change to a file system. -/
inductive FileStep where
  /-- writes a file as a whole -/
  | write (path : Path) (image : Image)
  /-- removes a file or a link -/
  | remove (path : Path)
  /-- removes an empty directory -/
  | removeDirectory (path : Path)
  /-- creates a directory -/
  | makeDirectory (path : Path)
  /-- creates a link -/
  | makeLink (path target : Path)
  /-- gives a file, link or directory another name -/
  | rename (path newPath : Path)

namespace FileSystem

/-- The file system after a step. -/
def apply (fs : FileSystem) : FileStep → Except IoError FileSystem
  | .write path image => fs.write path image
  | .remove path => fs.remove path
  | .removeDirectory path => fs.removeDirectory path
  | .makeDirectory path => fs.makeDirectory path
  | .makeLink path target => fs.makeLink path target
  | .rename path newPath => fs.rename path newPath

/-- Runs steps in order up to the first that fails: why it failed, and the file system that the
steps before it left. -/
def perform (fs : FileSystem) : List FileStep → Except IoError Unit × FileSystem
  | [] => (.ok (), fs)
  | step :: rest =>
    match fs.apply step with
    | .ok fs => fs.perform rest
    | .error cause => (.error cause, fs)

@[simp] theorem perform_nil (fs : FileSystem) : fs.perform [] = (.ok (), fs) := rfl

theorem perform_cons_ok {fs after : FileSystem} {step : FileStep} (rest : List FileStep)
    (h : fs.apply step = .ok after) : fs.perform (step :: rest) = after.perform rest := by
  simp [perform, h]

theorem perform_cons_error {fs : FileSystem} {step : FileStep} {cause : IoError}
    (rest : List FileStep) (h : fs.apply step = .error cause) :
    fs.perform (step :: rest) = (.error cause, fs) := by
  simp [perform, h]

/-- A sequence goes well if its first step does and then the others do. -/
theorem perform_cons_eq_ok {fs after : FileSystem} {step : FileStep} {rest : List FileStep}
    (h : fs.perform (step :: rest) = (.ok (), after)) :
    ∃ next, fs.apply step = .ok next ∧ next.perform rest = (.ok (), after) := by
  cases hs : fs.apply step with
  | ok next => exact ⟨next, rfl, by rwa [perform_cons_ok rest hs] at h⟩
  | error cause =>
    rw [perform_cons_error rest hs] at h
    cases h

/-- **Sequences run one after the other**: the second starts where the first ended, if the first
ended well. -/
theorem perform_append {fs after : FileSystem} {first : List FileStep} (second : List FileStep)
    (h : fs.perform first = (.ok (), after)) :
    fs.perform (first ++ second) = after.perform second := by
  induction first generalizing fs with
  | nil =>
    obtain ⟨_, rfl⟩ := Prod.mk.inj h
    rfl
  | cons step rest ih =>
    cases hs : fs.apply step with
    | ok next =>
      rw [perform_cons_ok rest hs] at h
      rw [List.cons_append, perform_cons_ok _ hs, ih h]
    | error cause =>
      rw [perform_cons_error rest hs] at h
      cases h

end FileSystem

end LsmTree
