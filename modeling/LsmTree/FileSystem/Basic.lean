import Std.Data.TreeMap
import LsmTree.Error
import LsmTree.Format.Image
import LsmTree.FileSystem.Path

/-!
# FileSystem/Basic — a tree of files

A `FileSystem` says for every place below its root what is there: a file with its content, a
directory, or a symbolic link.  What is at a place, and what a directory lists, are the two views of
a file system.  How paths lead to places is in `FileSystem/Walk`, and what changes a file system in
`FileSystem/Step`.
-/

namespace LsmTree

/-- What is found at a place in the file system. -/
inductive Node where
  /-- a regular file -/
  | file (image : Image)
  /-- a directory -/
  | directory
  /-- a symbolic link; its target is followed from the directory that the link is in -/
  | link (target : Path)

namespace Node

/-- The node is a regular file. -/
def isFile : Node → Bool
  | file _ => true
  | _ => false

/-- The node is a directory. -/
def isDirectory : Node → Bool
  | directory => true
  | _ => false

end Node

/-- The files, directories and links below a root directory, each under the names that lead
to it. -/
structure FileSystem where
  nodes : Std.TreeMap Place Node := {}

namespace FileSystem

/-! ## Places -/

/-- What is at a place; the root is always a directory. -/
def node? (fs : FileSystem) (place : Place) : Option Node :=
  if place = [] then some .directory else fs.nodes[place]?

/-- The file system with a node put at a place. -/
def put (fs : FileSystem) (place : Place) (node : Node) : FileSystem :=
  ⟨fs.nodes.insert place node⟩

/-- The file system with nothing left at a place. -/
def erase (fs : FileSystem) (place : Place) : FileSystem := ⟨fs.nodes.erase place⟩

/-- The names directly below a place, with what is there, in the order of the names. -/
def children (fs : FileSystem) (place : Place) : List (String × Node) :=
  fs.nodes.toList.filterMap fun (other, node) =>
    match other.getLast? with
    | some name => if other.dropLast = place then some (name, node) else none
    | none => none

@[simp] theorem node?_nil (fs : FileSystem) : fs.node? [] = some .directory := if_pos rfl

theorem node?_put (fs : FileSystem) {place : Place} (node : Node) (other : Place)
    (h : place ≠ []) :
    (fs.put place node).node? other = if other = place then some node else fs.node? other := by
  unfold put node?
  by_cases ho : other = []
  · simp [ho, h.symm]
  · simp only [ho, if_false, Std.TreeMap.getElem?_insert, Std.compare_eq_iff_eq,
      eq_comm (a := place)]

theorem node?_put_self (fs : FileSystem) {place : Place} (node : Node) (h : place ≠ []) :
    (fs.put place node).node? place = some node := by
  rw [node?_put fs node place h, if_pos rfl]

theorem node?_erase (fs : FileSystem) {place : Place} (other : Place) (h : place ≠ []) :
    (fs.erase place).node? other = if other = place then none else fs.node? other := by
  unfold erase node?
  by_cases ho : other = []
  · simp [ho, h.symm]
  · simp only [ho, if_false, Std.TreeMap.getElem?_erase, Std.compare_eq_iff_eq,
      eq_comm (a := place)]

/-- **A directory lists what is directly below it**, and nothing else. -/
theorem mem_children_iff (fs : FileSystem) (place : Place) (name : String) (node : Node) :
    (name, node) ∈ fs.children place ↔ fs.node? (place ++ [name]) = some node := by
  have hne : place ++ [name] ≠ [] := by simp
  unfold children node?
  rw [if_neg hne, List.mem_filterMap, ← Std.TreeMap.mem_toList_iff_getElem?_eq_some]
  constructor
  · rintro ⟨⟨below, other⟩, hmem, h⟩
    cases hlast : below.getLast? with
    | none => simp [hlast] at h
    | some last =>
      simp only [hlast, Option.ite_none_right_eq_some, Option.some.injEq, Prod.mk.injEq] at h
      obtain ⟨rfl, rfl, rfl⟩ := h
      obtain ⟨above, rfl⟩ := List.getLast?_eq_some_iff.mp hlast
      rwa [List.dropLast_concat]
  · intro hmem
    exact ⟨(place ++ [name], node), hmem, by simp⟩

end FileSystem

end LsmTree
