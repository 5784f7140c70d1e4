import LsmTree.FileSystem.Step
import LsmTree.Proofs.FileSystem.Ways

/-!
# Proofs/FileSystem/Written — a file that was written is read back

A way to a file leads through directories and links, and writing the file changes none of them.  So
the path that a file was written under leads to that file afterwards, through the same links
(`FileSystem.map_of_write`).
-/

namespace LsmTree.FileSystem

variable {fs after : FileSystem} {path : Path} {place directory : Place} {image : Image}

/-! ## The way to a file that is written -/

/-- A walk to where a file is to be written ends at no link, since links are followed. -/
theorem not_link_of_walk (hstart : fs.Rooted directory)
    (h : fs.walk .create directory path = .ok (.arrived place)) (target : Path) :
    fs.node? place ≠ some (.link target) := by
  induction path generalizing directory with
  | nil =>
    obtain rfl : directory = place := by simpa [walk] using h
    simp [hstart.node?]
  | cons piece rest ih =>
    cases walk_cons_iff.mp h with
    | stay _ h => exact ih hstart h
    | up _ h => exact ih hstart.dropLast h
    | enter _ hnode h => exact ih (hstart.concat hnode) h
    | follow _ _ _ _ houtcome => cases houtcome
    | arrive _ _ _ hlink houtcome =>
      cases houtcome
      intro hnode
      cases hlink target hnode

/-- A file that is put where it is free or a file is takes the place of no directory or link. -/
theorem node?_put_of_keeps (hplace : place ≠ [])
    (hfile : ∀ node, fs.node? place = some node → node.isFile = true) {other : Place} {node : Node}
    (hnode : fs.node? other = some node) (hkept : node.isFile = false) :
    (fs.put place (.file image)).node? other = some node := by
  rw [node?_put fs _ other hplace, if_neg, hnode]
  rintro rfl
  cases hkept.symm.trans (hfile node hnode)

/-- **A walk goes the same way** once a file is put where it is free or a file is. -/
theorem walk_put {outcome : Walk} (hplace : place ≠ [])
    (hfile : ∀ node, fs.node? place = some node → node.isFile = true)
    (h : fs.walk .create directory path = .ok outcome) :
    (fs.put place (.file image)).walk .follow directory path = .ok outcome := by
  induction path generalizing directory with
  | nil => exact h
  | cons piece rest ih =>
    refine walk_cons_iff.mpr ?_
    cases walk_cons_iff.mp h with
    | stay hstays h => exact .stay hstays (ih h)
    | up hup h => exact .up hup (ih h)
    | enter hname hnode h =>
      exact .enter hname.follow (node?_put_of_keeps hplace hfile hnode rfl) (ih h)
    | follow target hname hnode _ houtcome =>
      exact .follow target hname.follow (node?_put_of_keeps hplace hfile hnode rfl) (by simp)
        houtcome
    | arrive hname hrest hnode hlink houtcome =>
      have hthere := node?_put fs (.file image) (directory ++ [piece]) hplace
      refine .arrive hname.follow hrest ?_ (fun target hfound => ?_) houtcome
      · rw [hthere]
        split
        · simp
        · exact hnode
      · rw [hthere] at hfound
        split at hfound
        · cases hfound
        · cases hlink target hfound

/-- The path leads to the same place. -/
theorem locateFrom_put (hplace : place ≠ [])
    (hfile : ∀ node, fs.node? place = some node → node.isFile = true) {links : Nat}
    (h : fs.locateFrom .create links path = .ok directory) :
    (fs.put place (.file image)).locateFrom .follow links path = .ok directory := by
  induction links using Nat.strongRecOn generalizing path with
  | ind links ih =>
    rcases locateFrom_eq_ok_iff.mp h with harrived | ⟨fewer, other, rfl, hother, hrest⟩
    · exact locateFrom_eq_ok_iff.mpr (.inl (walk_put hplace hfile harrived))
    · have hgo := ih fewer (Nat.lt_succ_self fewer) hrest
      exact locateFrom_eq_ok_iff.mpr
        (.inr ⟨fewer, other, rfl, walk_put hplace hfile hother, hgo⟩)

/-- No link is where a file is to be written. -/
theorem not_link_of_locateFrom {links : Nat} (h : fs.locateFrom .create links path = .ok place)
    (target : Path) : fs.node? place ≠ some (.link target) := by
  induction links using Nat.strongRecOn generalizing path with
  | ind links ih =>
    rcases locateFrom_eq_ok_iff.mp h with harrived | ⟨fewer, other, rfl, -, hrest⟩
    · exact not_link_of_walk (rooted_nil fs) harrived target
    · exact ih fewer (Nat.lt_succ_self fewer) hrest

/-! ## Reading what was written -/

/-- A path under which a file can be written leads to no directory. -/
theorem write_eq_ok_iff :
    fs.write path image = .ok after ↔
      ∃ place, fs.resolveNew path = .ok place ∧ fs.node? place ≠ some .directory ∧
        after = fs.put place (.file image) := by
  unfold write
  cases hplace : fs.resolveNew path with
  | error cause => simp [bind, Except.bind]
  | ok place =>
    simp only [bind, Except.bind, Except.ok.injEq, exists_eq_left']
    rcases hnode : fs.node? place with _ | ⟨other⟩ | _ | ⟨target⟩ <;>
      simp [throw, throwThe, MonadExceptOf.throw, pure, Except.pure, eq_comm]

/-- Where a file can be written there is a file or nothing. -/
theorem isFile_of_resolveNew (hplace : fs.resolveNew path = .ok place)
    (hdirectory : fs.node? place ≠ some .directory) (node : Node)
    (hnode : fs.node? place = some node) : node.isFile = true := by
  rcases node with ⟨other⟩ | _ | ⟨target⟩
  · rfl
  · exact absurd hnode hdirectory
  · exact absurd hnode (not_link_of_locateFrom hplace target)

/-- **A file that was written is read back** under its path. -/
theorem map_of_write (h : fs.write path image = .ok after) : after.map path = .ok image := by
  obtain ⟨place, hplace, hdirectory, rfl⟩ := write_eq_ok_iff.mp h
  have hroot : place ≠ [] := by
    rintro rfl
    exact hdirectory (node?_nil fs)
  have hresolve : (fs.put place (.file image)).resolve path = .ok place :=
    locateFrom_put hroot (isFile_of_resolveNew hplace hdirectory) hplace
  simp [map, read, hresolve, node?_put_self fs _ hroot, bind, Except.bind, pure, Except.pure]

end LsmTree.FileSystem
