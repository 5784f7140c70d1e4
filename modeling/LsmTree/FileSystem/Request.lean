import LsmTree.FileSystem.Tree

/-!
# FileSystem/Request — changes in which files go by texts

A `FileRequest` is a change as somebody outside asks for it, with a text for every file.  A request
fails if one of its texts is no path, and which fault is told if there are several is settled here:
a NUL in any text first, then a link's target, and the new name of a file only when the directory
that holds the file was found.
-/

namespace LsmTree

/-- A change to a file system that is asked for. -/
inductive FileRequest where
  /-- writes a file as a whole -/
  | write (name : String) (image : Image)
  /-- removes a file or a link -/
  | remove (name : String)
  /-- removes a directory with everything in it, or a link -/
  | removeTree (name : String)
  /-- creates a directory and those above it -/
  | makeDirectories (name : String)
  /-- gives a file, link or directory another name -/
  | rename (name newName : String)
  /-- creates a link -/
  | makeLink (name target : String)

/-- The texts of a request. -/
def FileRequest.texts : FileRequest → List String
  | write name _ | remove name | removeTree name | makeDirectories name => [name]
  | rename name newName => [name, newName]
  | makeLink name target => [name, target]

/-- Reads the texts of a request, and carries it out if they are paths. -/
def FileSystem.attempt (fs : FileSystem) (request : FileRequest) :
    Except IoError (Except IoError Unit × FileSystem) := do
  request.texts.forM Path.refuseNul
  match request with
  | .write name image => return fs.perform [.write (← Path.pieces name) image]
  | .remove name => return fs.perform [.remove (← Path.pieces name)]
  | .removeTree name => return fs.removeTree (← Path.pieces name)
  | .makeDirectories name => return fs.makeDirectories (← Path.pieces name)
  | .rename name newName =>
    let path ← Path.pieces name
    let _ ← fs.locate path
    return fs.perform [.rename path (← Path.pieces newName)]
  | .makeLink name target =>
    let target ← Path.pieces target
    return fs.perform [.makeLink (← Path.pieces name) target]

/-- How a request ends, and the file system it leaves. -/
def FileSystem.answer (fs : FileSystem) (request : FileRequest) :
    Except IoError Unit × FileSystem :=
  match fs.attempt request with
  | .error cause => (.error cause, fs)
  | .ok outcome => outcome

end LsmTree
