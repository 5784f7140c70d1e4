import LsmTree.FileSystem.Path

/-!
# Engine/Settings — how an engine is set up
-/

namespace LsmTree

/-- When a request to compact is followed. -/
inductive CompactionPolicy where
  /-- at most once between two flushes, since without a new segment there is nothing to gain -/
  | oncePerFlush
  /-- whenever there are two segments -/
  | always
  deriving DecidableEq

/-- The name of a policy. -/
def CompactionPolicy.name : CompactionPolicy → String
  | oncePerFlush => "OncePerFlush"
  | always => "Always"

/-- How an engine is set up. -/
structure Settings where
  /-- the text of the path of the folder -/
  path : String := ".lsm.data"
  /-- the bytes in the active memtable from which on a write rotates it out: 64 MiB unless set -/
  threshold : UInt64 := 64 * 1024 * 1024
  policy : CompactionPolicy := .oncePerFlush
  deriving DecidableEq

/-- The folder that an engine keeps its segments in. -/
def Settings.folder (settings : Settings) : Except IoError Path :=
  Path.parse (Path.ofText settings.path).normalize.absoluteText

end LsmTree
