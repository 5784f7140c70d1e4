import LsmTree.Proofs.FileSystem.Ways

/-!
# Proofs/FileSystem/Folder — what a step does to the names in a folder

In a folder that is there, a step on a name changes what is below the folder's place at that name
and nothing else.  A step that went well tells that the folder was there; so the same equations say
what a step does and what follows from its success.
-/

namespace LsmTree.FileSystem

variable {fs after : FileSystem} {folder path : Path} {place : Place} {name newName : String}
  {image : Image} {node : Node}

/-! ## Steps in a folder that is there -/

theorem remove_name (h : fs.directoryAt folder = .ok place) (hname : Path.isName name)
    (hshort : name.utf8ByteSize ≤ Path.maxNameBytes) :
    fs.remove (folder ++ [name]) =
      match fs.node? (place ++ [name]) with
      | none => .error .notFound
      | some .directory => .error .isADirectory
      | some _ => .ok (fs.erase (place ++ [name])) := by
  unfold remove
  rw [locate_concat hname h]
  simp only [find_eq_ok hshort, bind, Except.bind]
  rcases fs.node? (place ++ [name]) with _ | _ | _ | _ <;> rfl

theorem write_name (h : fs.directoryAt folder = .ok place) (hname : Path.isName name)
    (hshort : name.utf8ByteSize ≤ Path.maxNameBytes)
    (hlink : ∀ target, fs.node? (place ++ [name]) ≠ some (.link target)) :
    fs.write (folder ++ [name]) image =
      match fs.node? (place ++ [name]) with
      | some .directory => .error .isADirectory
      | _ => .ok (fs.put (place ++ [name]) (.file image)) := by
  unfold write resolveNew
  rw [locateFrom_concat .create hname hshort hlink h]
  simp only [bind, Except.bind]
  rcases fs.node? (place ++ [name]) with _ | _ | _ | _ <;> rfl

theorem not_isPrefixOf_name (place : Place) (hne : name ≠ newName) :
    (place ++ [name]).isPrefixOf (place ++ [newName]) = false := by
  rw [Bool.eq_false_iff, ne_eq, List.isPrefixOf_iff_prefix, List.prefix_append_right_inj,
    List.cons_prefix_cons]
  exact fun h => hne h.1

theorem relocate_name (hne : name ≠ newName) (hkind : node.isDirectory = false)
    (replaced : Option Node) :
    fs.relocate (place ++ [name]) node (place ++ [newName]) replaced =
      match replaced with
      | some .directory => .error .isADirectory
      | _ => .ok ((fs.erase (place ++ [name])).put (place ++ [newName]) node) := by
  unfold relocate
  rw [if_neg (by simpa using hne), if_neg (by simp [not_isPrefixOf_name place hne]),
    if_neg (by simp [not_isPrefixOf_name place hne.symm])]
  rcases node with _ | _ | _
  · rcases replaced with _ | _ | _ | _ <;> rfl
  · cases hkind
  · rcases replaced with _ | _ | _ | _ <;> rfl

theorem rename_name (h : fs.directoryAt folder = .ok place) (hname : Path.isName name)
    (hshort : name.utf8ByteSize ≤ Path.maxNameBytes) (hname' : Path.isName newName)
    (hshort' : newName.utf8ByteSize ≤ Path.maxNameBytes) (hne : name ≠ newName)
    (hkind : node.isDirectory = false) (hnode : fs.node? (place ++ [name]) = some node) :
    fs.rename (folder ++ [name]) (folder ++ [newName]) =
      match fs.node? (place ++ [newName]) with
      | some .directory => .error .isADirectory
      | _ => .ok ((fs.erase (place ++ [name])).put (place ++ [newName]) node) := by
  unfold rename
  rw [locate_concat hname h, locate_concat hname' h]
  simp only [find_eq_ok hshort, find_eq_ok hshort', hnode, bind, Except.bind, Bool.or_self,
    Bool.and_false, Bool.false_eq_true, if_false]
  exact relocate_name hne hkind _

theorem map_name (h : fs.directoryAt folder = .ok place) (hname : Path.isName name)
    (hshort : name.utf8ByteSize ≤ Path.maxNameBytes)
    (hnode : fs.node? (place ++ [name]) = some (.file image)) :
    fs.map (folder ++ [name]) = .ok image := by
  have hresolve : fs.resolve (folder ++ [name]) = .ok (place ++ [name]) :=
    locateFrom_concat .follow hname hshort (by simp [hnode]) h
  simp [map, read, hresolve, hnode, bind, Except.bind, pure, Except.pure]

theorem sync_of_directoryAt (h : fs.directoryAt path = .ok place) : fs.sync path = .ok () := by
  obtain ⟨hplace, hnode⟩ := directoryAt_eq_ok_iff.mp h
  simp [sync, hplace, hnode, bind, Except.bind, pure, Except.pure]

theorem list_of_directoryAt (h : fs.directoryAt path = .ok place) :
    fs.list path = .ok (fs.children place) := map_eq_ok_iff.mpr ⟨place, h, rfl⟩

/-! ## What the success of a step tells -/

theorem directoryAt_of_locate {ending : Path.Ending} (hname : Path.isName name)
    (h : fs.locate (folder ++ [name]) = .ok (place, ending)) : fs.directoryAt folder = .ok place := by
  unfold locate at h
  rw [Path.split_concat folder hname] at h
  obtain ⟨directory, hfolder, hfound⟩ := bind_eq_ok_iff.mp h
  rw [hfolder, (Prod.mk.inj (Except.ok.inj hfound)).1]

theorem directoryAt_of_remove (hname : Path.isName name)
    (h : fs.remove (folder ++ [name]) = .ok after) : ∃ place, fs.directoryAt folder = .ok place := by
  obtain ⟨found, hlocate, -⟩ := bind_eq_ok_iff.mp h
  exact ⟨found.1, directoryAt_of_locate hname hlocate⟩

theorem directoryAt_of_rename (hname : Path.isName name)
    (h : fs.rename (folder ++ [name]) path = .ok after) :
    ∃ place, fs.directoryAt folder = .ok place := by
  obtain ⟨found, hlocate, -⟩ := bind_eq_ok_iff.mp h
  exact ⟨found.1, directoryAt_of_locate hname hlocate⟩

theorem directoryAt_of_write (hname : Path.isName name)
    (h : fs.write (folder ++ [name]) image = .ok after) :
    ∃ place, fs.directoryAt folder = .ok place := by
  obtain ⟨found, hlocate, -⟩ := bind_eq_ok_iff.mp h
  obtain ⟨directory, hfolder, -⟩ := directoryAt_of_locateFrom hname hlocate
  exact ⟨directory, hfolder⟩

theorem directoryAt_of_map (hname : Path.isName name)
    (h : fs.map (folder ++ [name]) = .ok image) : ∃ place, fs.directoryAt folder = .ok place := by
  unfold map read resolve at h
  cases hlocate : fs.locateFrom .follow maxLinks (folder ++ [name]) with
  | error cause => cases cause <;> simp [hlocate, bind, Except.bind] at h
  | ok found =>
    obtain ⟨directory, hfolder, -⟩ := directoryAt_of_locateFrom hname hlocate
    exact ⟨directory, hfolder⟩

/-- A file that is mapped is there under its name, if no link is. -/
theorem node?_of_map (hfolder : fs.directoryAt folder = .ok place) (hname : Path.isName name)
    (hshort : name.utf8ByteSize ≤ Path.maxNameBytes)
    (hlink : ∀ target, fs.node? (place ++ [name]) ≠ some (.link target))
    (h : fs.map (folder ++ [name]) = .ok image) :
    fs.node? (place ++ [name]) = some (.file image) := by
  have hresolve : fs.resolve (folder ++ [name]) = .ok (place ++ [name]) :=
    locateFrom_concat .follow hname hshort hlink hfolder
  rcases hnode : fs.node? (place ++ [name]) with _ | other | _ | target
  · simp [map, read, hresolve, hnode, bind, Except.bind] at h
  · simpa [map, read, hresolve, hnode, bind, Except.bind, pure, Except.pure] using h
  · simp [map, read, hresolve, hnode, bind, Except.bind] at h
  · exact absurd hnode (hlink target)

/-- **A name that was removed is gone**, and nothing else is. -/
theorem eq_erase_of_remove (hname : Path.isName name)
    (hshort : name.utf8ByteSize ≤ Path.maxNameBytes)
    (h : fs.remove (folder ++ [name]) = .ok after) :
    ∃ place, fs.directoryAt folder = .ok place ∧ after = fs.erase (place ++ [name]) := by
  obtain ⟨place, hfolder⟩ := directoryAt_of_remove hname h
  refine ⟨place, hfolder, ?_⟩
  rw [remove_name hfolder hname hshort] at h
  rcases hnode : fs.node? (place ++ [name]) with _ | _ | _ | _ <;> rw [hnode] at h
  · cases h
  · exact (Except.ok.inj h).symm
  · cases h
  · exact (Except.ok.inj h).symm

/-- **A file that was written holds what was written**, and nothing else changed; it took no
directory's place. -/
theorem eq_put_of_write (hname : Path.isName name)
    (hshort : name.utf8ByteSize ≤ Path.maxNameBytes)
    (hlink : ∀ place, fs.directoryAt folder = .ok place →
      ∀ target, fs.node? (place ++ [name]) ≠ some (.link target))
    (h : fs.write (folder ++ [name]) image = .ok after) :
    ∃ place, fs.directoryAt folder = .ok place ∧ fs.node? (place ++ [name]) ≠ some .directory ∧
      after = fs.put (place ++ [name]) (.file image) := by
  obtain ⟨place, hfolder⟩ := directoryAt_of_write hname h
  refine ⟨place, hfolder, ?_⟩
  rw [write_name hfolder hname hshort (hlink place hfolder)] at h
  split at h
  · cases h
  · exact ⟨‹_›, (Except.ok.inj h).symm⟩

/-- **A file or link that was renamed is under its new name**, and no longer under the old one; it
took no directory's place. -/
theorem eq_put_erase_of_rename (hfolder : fs.directoryAt folder = .ok place)
    (hname : Path.isName name) (hshort : name.utf8ByteSize ≤ Path.maxNameBytes)
    (hname' : Path.isName newName) (hshort' : newName.utf8ByteSize ≤ Path.maxNameBytes)
    (hne : name ≠ newName) (hkind : node.isDirectory = false)
    (hnode : fs.node? (place ++ [name]) = some node)
    (h : fs.rename (folder ++ [name]) (folder ++ [newName]) = .ok after) :
    fs.node? (place ++ [newName]) ≠ some .directory ∧
      after = (fs.erase (place ++ [name])).put (place ++ [newName]) node := by
  rw [rename_name hfolder hname hshort hname' hshort' hne hkind hnode] at h
  split at h
  · cases h
  · exact ⟨‹_›, (Except.ok.inj h).symm⟩

/-! ## The folder stays -/

/-- A folder that two file systems agree on is at one place. -/
theorem Within.place_eq {other : Place} (h : after.Within fs)
    (hafter : after.directoryAt folder = .ok other) (hfs : fs.directoryAt folder = .ok place) :
    other = place := by
  rw [directoryAt_of_within h hafter] at hfs
  exact Except.ok.inj hfs

/-- What takes no directory's or link's place leaves all folders. -/
theorem within_of_put {new : Node} (hplace : place ≠ [])
    (hfile : ∀ node, fs.node? place = some node → node.isFile = true) :
    fs.Within (fs.put place new) := by
  intro other node hnode h
  rw [node?_put fs _ other hplace]
  split
  · rename_i heq
    rw [heq] at h
    rw [hfile node h] at hnode
    cases hnode
  · exact h

theorem within_of_erase (hplace : place ≠ [])
    (hfile : ∀ node, fs.node? place = some node → node.isFile = true) :
    fs.Within (fs.erase place) := by
  intro other node hnode h
  rw [node?_erase fs other hplace]
  split
  · rename_i heq
    rw [heq] at h
    rw [hfile node h] at hnode
    cases hnode
  · exact h

/-! ## Removing several files -/

/-- What can be removed has a name that is short enough. -/
theorem short_of_remove (hname : Path.isName name)
    (h : fs.remove (folder ++ [name]) = .ok after) : name.utf8ByteSize ≤ Path.maxNameBytes := by
  obtain ⟨place, hfolder⟩ := directoryAt_of_remove hname h
  unfold remove at h
  rw [locate_concat hname hfolder] at h
  obtain ⟨found, hfound, hrest⟩ := bind_eq_ok_iff.mp h
  obtain rfl := Except.ok.inj hfound
  obtain ⟨node, hfind, -⟩ := bind_eq_ok_iff.mp hrest
  exact (find_eq_ok_iff.mp hfind).1

/-- **Files that were removed are gone**, and nothing else is. -/
theorem node?_of_perform_removes (h : fs.directoryAt folder = .ok place) {names : List String}
    (hnames : ∀ name ∈ names, Path.isName name ∧
      ∀ node, fs.node? (place ++ [name]) = some node → node.isFile = true)
    (hperform : fs.perform (names.map fun name => .remove (folder ++ [name])) = (.ok (), after)) :
    after.directoryAt folder = .ok place ∧
      ∀ other, after.node? other =
        if other ∈ names.map (place ++ [·]) then none else fs.node? other := by
  induction names generalizing fs with
  | nil =>
    obtain ⟨-, rfl⟩ := Prod.mk.inj hperform
    exact ⟨h, by simp⟩
  | cons name rest ih =>
    obtain ⟨hname, hfile⟩ := hnames name List.mem_cons_self
    obtain ⟨removed, hremove, hrest⟩ := perform_cons_eq_ok hperform
    obtain ⟨place', hfolder, rfl⟩ := eq_erase_of_remove hname (short_of_remove hname hremove) hremove
    obtain rfl : place = place' := Except.ok.inj (h.symm.trans hfolder)
    have hne : place ++ [name] ≠ [] := by simp
    obtain ⟨hdirectory, hafter⟩ := ih (directoryAt_of_within (within_of_erase hne hfile) h)
      (fun other hother => ⟨(hnames other (List.mem_cons_of_mem _ hother)).1, fun node hnode => by
        rw [node?_erase fs _ hne, Option.ite_none_left_eq_some] at hnode
        exact (hnames other (List.mem_cons_of_mem _ hother)).2 node hnode.2⟩) hrest
    refine ⟨hdirectory, fun other => ?_⟩
    rw [hafter, node?_erase fs _ hne]
    by_cases hother : other = place ++ [name]
    · simp [hother]
    · simp only [hother, if_false, List.map_cons, List.mem_cons, false_or]

/-- **Files that are there can all be removed.** -/
theorem perform_remove_names (h : fs.directoryAt folder = .ok place) {names : List String}
    (hnodup : names.Nodup)
    (hnames : ∀ name ∈ names, Path.isName name ∧ name.utf8ByteSize ≤ Path.maxNameBytes ∧
      ∃ image, fs.node? (place ++ [name]) = some (.file image)) :
    ∃ after, fs.perform (names.map fun name => .remove (folder ++ [name])) = (.ok (), after) := by
  induction names generalizing fs with
  | nil => exact ⟨fs, rfl⟩
  | cons name rest ih =>
    obtain ⟨hname, hshort, image, hnode⟩ := hnames name List.mem_cons_self
    obtain ⟨hnew, hrest⟩ := List.nodup_cons.mp hnodup
    have hne : place ++ [name] ≠ [] := by simp
    have hremove : fs.apply (.remove (folder ++ [name])) = .ok (fs.erase (place ++ [name])) := by
      rw [apply, remove_name h hname hshort, hnode]
    have hstays : (fs.erase (place ++ [name])).directoryAt folder = .ok place :=
      directoryAt_of_within (within_of_erase hne (by simp [hnode, Node.isFile])) h
    obtain ⟨after, hperform⟩ := ih hstays hrest fun other hother => by
      obtain ⟨hname', hshort', image', hnode'⟩ := hnames other (List.mem_cons_of_mem _ hother)
      refine ⟨hname', hshort', image', ?_⟩
      rw [node?_erase fs _ hne, if_neg, hnode']
      simp only [List.append_cancel_left_eq, List.cons.injEq, and_true]
      rintro rfl
      exact hnew hother
    exact ⟨after, by rw [List.map_cons, perform_cons_ok _ hremove, hperform]⟩

/-! ## What a folder lists -/

/-- **A folder lists every name once.** -/
theorem pairwise_children (fs : FileSystem) (place : Place) :
    (fs.children place).Pairwise fun a b => a.1 ≠ b.1 := by
  have hkeys := Std.TreeMap.distinct_keys_toList (t := fs.nodes)
  unfold children
  refine List.Pairwise.filterMap _ ?_ hkeys
  rintro ⟨first, node⟩ ⟨second, node'⟩ hne ⟨name, _⟩ hname ⟨name', _⟩ hname' rfl
  -- a place is the directory it is in and its last name, so one name means one place
  refine hne ?_
  dsimp only at hname hname'
  split at hname
  · rename_i last hlast
    split at hname'
    · rename_i last' hlast'
      obtain ⟨above, rfl⟩ := List.getLast?_eq_some_iff.mp hlast
      obtain ⟨above', rfl⟩ := List.getLast?_eq_some_iff.mp hlast'
      simp only [List.dropLast_concat, Option.ite_none_right_eq_some, Option.some.injEq,
        Prod.mk.injEq] at hname hname'
      rw [hname.1, hname'.1, hname.2.1, hname'.2.1]
      exact Std.ReflCmp.compare_self
    · cases hname'
  · cases hname

end LsmTree.FileSystem
