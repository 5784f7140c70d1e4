import LsmTree.Proofs.FileSystem.Folder
import LsmTree.Proofs.FileSystem.Written

/-!
# Proofs/FileSystem/Moved — a file that was written is read back under its new name

What is written under a name may go through a link, and then it is the link that takes the new name.
A link that has moved within its folder leads where it led before, unless the way now goes through
the link itself; and such a way, if it ever ends, ends where the link leads.  So whatever links are
about, what is read under the new name is what was written under the old one
(`FileSystem.eq_of_write_rename_map`).
-/

namespace LsmTree.FileSystem

variable {fs before after : FileSystem} {atEnd : AtEnd} {folder path target : Path}
  {place goal found other : Place} {name newName : String} {image : Image}

/-! ## Ways to one place -/

/-- **A path leads to one place**, however many links may be followed. -/
theorem locateFrom_unique {links others : Nat} (h : fs.locateFrom atEnd links path = .ok place)
    (h' : fs.locateFrom atEnd others path = .ok other) : place = other := by
  induction links using Nat.strongRecOn generalizing path others with
  | ind links ih =>
    rcases locateFrom_eq_ok_iff.mp h with harrived | ⟨fewer, next, rfl, hnext, hrest⟩ <;>
      rcases locateFrom_eq_ok_iff.mp h' with harrived' | ⟨fewer', next', rfl, hnext', hrest'⟩
    · cases harrived.symm.trans harrived'
      rfl
    · cases harrived.symm.trans hnext'
    · cases hnext.symm.trans harrived'
    · cases hnext.symm.trans hnext'
      exact ih fewer (Nat.lt_succ_self fewer) hrest hrest'

/-- **A way to a link goes on where the link leads.** -/
theorem locateFrom_linked (hname : Path.isName name)
    (hlink : fs.node? (place ++ [name]) = some (.link target)) {links others : Nat}
    (hfolder : fs.locateFrom .follow others folder = .ok place)
    (hdirectory : fs.node? place = some .directory)
    (h : fs.locateFrom .follow links (folder ++ [name]) = .ok found) :
    ∃ fewer, fs.locateFrom .follow fewer (linked place target) = .ok found := by
  induction others using Nat.strongRecOn generalizing folder links with
  | ind others ih =>
    rcases locateFrom_eq_ok_iff.mp hfolder with harrived | ⟨fewer, next, rfl, hnext, hrest⟩
    · have hwalk := walk_concat .follow hname harrived hdirectory
      rcases locateFrom_eq_ok_iff.mp h with hend | ⟨fewer, sent, -, hsent, hgo⟩
      · rw [hwalk] at hend
        have hlast := admits_of_walk hname hend
        rw [walk_cons hlast, hlink] at hend
        simp at hend
      · rw [hwalk] at hsent
        have hlast := admits_of_walk hname hsent
        rw [walk_cons hlast, hlink] at hsent
        obtain rfl : linked place target = sent := by simpa using hsent
        exact ⟨fewer, hgo⟩
    · have hwalk := walk_concat_redirected .follow hname hnext
      rcases locateFrom_eq_ok_iff.mp h with hend | ⟨less, sent, -, hsent, hgo⟩
      · cases hwalk.symm.trans hend
      · cases hwalk.symm.trans hsent
        exact ih fewer (Nat.lt_succ_self fewer) hrest hgo

/-- A path is mapped if it leads to a file. -/
theorem map_iff_resolve :
    fs.map path = .ok image ↔
      ∃ place, fs.resolve path = .ok place ∧ fs.node? place = some (.file image) := by
  unfold map read
  rcases hplace : fs.resolve path with cause | place
  · cases cause <;> simp [bind, Except.bind]
  · rcases hnode : fs.node? place with _ | _ | _ | _ <;>
      simp [hnode, bind, Except.bind, pure, Except.pure, throw, throwThe, MonadExceptOf.throw]

/-! ## A link that has moved -/

section Moved

variable
  (hkept : ∀ other node, other ≠ place ++ [newName] → after.node? other = some node →
    before.node? other = some node)
  (hnew : after.node? (place ++ [newName]) = some (.link target))

include hkept hnew

/-- A walk that does not end at nothing goes as before, or it is sent where the link leads. -/
theorem walk_of_moved {start : Place} {outcome : Walk}
    (hend : ∀ found, outcome = .arrived found → after.node? found ≠ none)
    (h : after.walk .follow start path = .ok outcome) :
    before.walk .follow start path = .ok outcome ∨
      ∃ rest, outcome = .redirected (linked place target ++ rest) := by
  induction path generalizing start with
  | nil => exact .inl h
  | cons piece rest ih =>
    have hthere {node : Node} (hnode : after.node? (start ++ [piece]) = some node)
        (hkind : ∀ target, node ≠ .link target) : before.node? (start ++ [piece]) = some node := by
      refine hkept _ _ (fun heq => ?_) hnode
      rw [heq, hnew] at hnode
      exact hkind target (Option.some.inj hnode).symm
    cases walk_cons_iff.mp h with
    | stay hstays h =>
      rw [walk_stay hstays]
      exact ih h
    | up hup h =>
      rw [hup, walk_up]
      exact ih h
    | enter hname hnode h =>
      rw [walk_directory hname (hthere hnode (by simp))]
      exact ih h
    | follow other hname hnode hfollowed houtcome =>
      by_cases heq : start ++ [piece] = place ++ [newName]
      · obtain ⟨rfl, -⟩ := List.append_inj' heq rfl
        rw [heq, hnew] at hnode
        cases hnode
        exact .inr ⟨rest, houtcome⟩
      · exact .inl (walk_cons_iff.mpr
          (.follow other hname (hkept _ _ heq hnode) hfollowed houtcome))
    | arrive hname hrest hnode hlink houtcome =>
      left
      rcases hfound : after.node? (start ++ [piece]) with _ | ⟨image⟩ | _ | ⟨other⟩
      · exact absurd hfound (hend _ houtcome)
      · have hfile := hthere hfound (by simp)
        exact walk_cons_iff.mpr
          (.arrive hname hrest (by simp [hfile]) (by simp [hfile]) houtcome)
      · exact absurd hfound hnode
      · cases hlink other hfound

variable {many : Nat} (hleads : before.locateFrom .follow many (linked place target) = .ok goal)
  (hfile : before.node? goal = some (.file image))

include hleads hfile

/-- **A way leads where it led before, or where the link leads.** -/
theorem locateFrom_of_moved {links : Nat} (hend : after.node? found ≠ none)
    (h : after.locateFrom .follow links path = .ok found) :
    (∃ links, before.locateFrom .follow links path = .ok found) ∨ found = goal := by
  -- behind the link nothing else can follow on the way, since a file is where it leads
  have hlast (rest : Path) {links : Nat}
      (hgo : before.locateFrom .follow links (linked place target ++ rest) = .ok found) :
      found = goal := by
    cases rest with
    | nil =>
      rw [List.append_nil] at hgo
      exact locateFrom_unique hgo hleads
    | cons piece rest =>
      obtain ⟨directory, hdirectory, hrooted, -⟩ := locateFrom_prefix (List.cons_ne_nil _ _) hgo
      rw [locateFrom_unique hdirectory hleads] at hrooted
      cases hrooted.node?.symm.trans hfile
  induction links using Nat.strongRecOn generalizing path with
  | ind links ih =>
    rcases locateFrom_eq_ok_iff.mp h with harrived | ⟨fewer, next, rfl, hnext, hrest⟩
    · have hwalk := walk_of_moved hkept hnew (by rintro _ ⟨⟩; exact hend) harrived
      rcases hwalk with hwalk | ⟨rest, hsent⟩
      · exact .inl ⟨0, locateFrom_eq_ok_iff.mpr (.inl hwalk)⟩
      · cases hsent
    · have hgo := ih fewer (Nat.lt_succ_self fewer) hrest
      have hwalk := walk_of_moved hkept hnew (by rintro _ ⟨⟩) hnext
      rcases hgo with ⟨links, hgo⟩ | heq
      · rcases hwalk with hwalk | ⟨rest, hsent⟩
        · exact .inl ⟨links + 1, locateFrom_eq_ok_iff.mpr (.inr ⟨links, next, rfl, hwalk, hgo⟩)⟩
        · obtain rfl := Walk.redirected.inj hsent
          exact .inr (hlast rest hgo)
      · exact .inr heq

/-- **What is read through the moved link is what was there before.** -/
theorem eq_of_map_moved (hname : Path.isName newName) {links : Nat}
    (hfolder : before.locateFrom .follow links folder = .ok place) {read : Image}
    (h : after.map (folder ++ [newName]) = .ok read) : read = image := by
  obtain ⟨found, hfound, hread⟩ := map_iff_resolve.mp h
  -- the folder is still where it was
  obtain ⟨directory, hdirectory, hrooted, -⟩ :=
    locateFrom_prefix (List.cons_ne_nil newName []) hfound
  have hthere := hrooted.node?
  obtain rfl : directory = place := by
    rcases locateFrom_of_moved hkept hnew hleads hfile (by simp [hthere]) hdirectory with
      ⟨many, hsame⟩ | rfl
    · exact locateFrom_unique hsame hfolder
    · have hne : directory ≠ place ++ [newName] := by
        rintro rfl
        cases hnew.symm.trans hthere
      cases (hkept _ _ hne hthere).symm.trans hfile
  obtain ⟨fewer, hgo⟩ := locateFrom_linked hname hnew hdirectory hthere hfound
  obtain rfl : found = goal := by
    rcases locateFrom_of_moved hkept hnew hleads hfile (by simp [hread]) hgo with
      ⟨many, hsame⟩ | heq
    · exact locateFrom_unique hsame hleads
    · exact heq
  have hne : found ≠ directory ++ [newName] := by
    rintro rfl
    cases hnew.symm.trans hread
  cases (hkept _ _ hne hread).symm.trans hfile
  rfl

end Moved

/-! ## A file that has moved -/

/-- **What is written under one name and renamed is read under the other**, whatever links are
about. -/
theorem eq_of_write_rename_map {written : FileSystem} {read : Image} (hname : Path.isName name)
    (hshort : name.utf8ByteSize ≤ Path.maxNameBytes) (hname' : Path.isName newName)
    (hshort' : newName.utf8ByteSize ≤ Path.maxNameBytes) (hne : name ≠ newName)
    (hwrite : fs.write (folder ++ [name]) image = .ok written)
    (hrename : written.rename (folder ++ [name]) (folder ++ [newName]) = .ok after)
    (hmap : after.map (folder ++ [newName]) = .ok read) : read = image := by
  obtain ⟨goal, hgoal, hfree, rfl⟩ := write_eq_ok_iff.mp hwrite
  have hroot : goal ≠ [] := by
    rintro rfl
    exact hfree (node?_nil fs)
  have hthere := node?_put_self fs (.file image) hroot
  have hleads : (fs.put goal (.file image)).locateFrom .follow maxLinks (folder ++ [name]) =
      .ok goal := locateFrom_put hroot (isFile_of_resolveNew hgoal hfree) hgoal
  obtain ⟨place, hfolder⟩ := directoryAt_of_rename hname hrename
  obtain ⟨hplace, hdirectory⟩ := directoryAt_eq_ok_iff.mp hfolder
  by_cases hlink : ∃ target, (fs.put goal (.file image)).node? (place ++ [name]) =
      some (.link target)
  · obtain ⟨target, hlink⟩ := hlink
    obtain ⟨fewer, hgo⟩ := locateFrom_linked hname hlink hplace hdirectory hleads
    obtain ⟨-, rfl⟩ :=
      eq_put_erase_of_rename hfolder hname hshort hname' hshort' hne rfl hlink hrename
    refine eq_of_map_moved (fun other node hother hnode => ?_) (node?_put_self _ _ (by simp)) hgo
      hthere hname' hplace hmap
    rw [node?_put _ _ _ (by simp), if_neg hother, node?_erase _ _ (by simp),
      Option.ite_none_left_eq_some] at hnode
    exact hnode.2
  · obtain rfl : place ++ [name] = goal := Except.ok.inj
      ((locateFrom_concat .follow hname hshort (not_exists.mp hlink) hfolder).symm.trans hleads)
    obtain ⟨-, rfl⟩ :=
      eq_put_erase_of_rename hfolder hname hshort hname' hshort' hne rfl hthere hrename
    obtain ⟨other, hother⟩ := directoryAt_of_map hname' hmap
    have hwithin := (within_put ((fs.put (place ++ [name]) (.file image)).erase (place ++ [name]))
      image (show place ++ [newName] ≠ [] by simp)).trans (within_erase _ (by simp))
    rw [hwithin.place_eq hother hfolder] at hother
    rw [map_name hother hname' hshort' (node?_put_self _ _ (by simp))] at hmap
    exact (Except.ok.inj hmap).symm

end LsmTree.FileSystem
