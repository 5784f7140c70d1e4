import LsmTree.FileSystem.Step

/-!
# FileSystem/Tree — creating and removing several directories

Creating a directory together with those above it, and removing one together with all it holds, take
more than one step.  Where a later step fails the earlier ones have been done, so both tell the
outcome and the file system they leave.
-/

namespace LsmTree.FileSystem

/-- A request to have a directory: it is fulfilled if there is one already. -/
def orPresent (fs : FileSystem) (path : Path) (cause : IoError) :
    Except IoError Unit × FileSystem :=
  (if fs.isDirectory path then .ok () else .error cause, fs)

/-- Creates a directory and those above it that are missing; one that is there already is fine. -/
def makeDirectories (fs : FileSystem) (path : Path) : Except IoError Unit × FileSystem :=
  match fs.makeDirectory path with
  | .ok fs => (.ok (), fs)
  | .error .notFound =>
    match _h : path.parent? with
    | none => (.error .notFound, fs)
    | some parent =>
      match fs.makeDirectories parent with
      | (.error cause, fs) => (.error cause, fs)
      | (.ok (), fs) =>
        match fs.makeDirectory path with
        | .ok fs => (.ok (), fs)
        | .error cause => fs.orPresent path cause
  | .error cause => fs.orPresent path cause
termination_by path.length
decreasing_by exact Path.length_lt_of_parent? (by assumption)

/-- The file system with nothing left below a place. -/
def clear (fs : FileSystem) (place : Place) : FileSystem :=
  ⟨fs.nodes.filter fun other _ => other = place || !place.isPrefixOf other⟩

/-- Removes a directory with everything in it, or a link.  The directory is emptied first, and then
removed under the path given; if emptying it has cut this path, it is left empty. -/
def removeTree (fs : FileSystem) (path : Path) : Except IoError Unit × FileSystem :=
  match fs.inspect path with
  | .error cause => (.error cause, fs)
  | .ok place =>
    match fs.node? place with
    | none => (.error .notFound, fs)
    | some (.file _) => (.error .notADirectory, fs)
    | some (.link _) => fs.perform [.remove path]
    | some .directory =>
      match (fs.clear place).perform [.removeDirectory path] with
      | (.error .notFound, fs) => (.ok (), fs)
      | outcome => outcome

end LsmTree.FileSystem
