import LsmTree.Proofs.Store.Files

/-!
# Proofs/Store/Steps — what single file steps do to the segments of a folder

A folder that stores segments goes on to store them while unfinished files come and go.  Putting a
file under a segment's name adds the segment, and taking the file away removes it.
-/

namespace LsmTree

namespace FileSystem

variable {fs : FileSystem} {folder : Path} {place : Place} {segments older : List Segment}
  {image : Image} {priority : Priority} {s : Segment}

/-- No link in the folder has a name of the store. -/
def LinkFree (fs : FileSystem) (place : Place) : Prop :=
  ∀ (file : StoreFile) target, fs.node? (place ++ [file.name]) ≠ some (.link target)

theorem LinkFree.of_within {after : FileSystem} (h : fs.LinkFree place) (hwithin : after.Within fs) :
    after.LinkFree place :=
  fun file target hnode => h file target (hwithin _ _ rfl hnode)

/-- The names of the store in the folder are free or files'. -/
def Plain (fs : FileSystem) (place : Place) : Prop :=
  ∀ (file : StoreFile) node, fs.node? (place ++ [file.name]) = some node → node.isFile = true

theorem Plain.linkFree (h : fs.Plain place) : fs.LinkFree place :=
  fun file target hnode => absurd (h file _ hnode) (by simp [Node.isFile])

theorem Plain.ne_directory (h : fs.Plain place) (file : StoreFile) :
    fs.node? (place ++ [file.name]) ≠ some .directory :=
  fun hnode => absurd (h file _ hnode) (by simp [Node.isFile])

theorem Plain.of_within {after : FileSystem} (h : fs.Plain place) (hwithin : after.Within fs) :
    after.Plain place := by
  intro file node hnode
  cases hfile : node.isFile with
  | true => rfl
  | false => rw [← hfile, h file node (hwithin _ _ hfile hnode)]

/-! ## A directory under a name of the store -/

theorem LinkFree.put_directory (h : fs.LinkFree place) (name : String) :
    (fs.put (place ++ [name]) .directory).LinkFree place := by
  intro file target
  rw [node?_put fs _ _ (by simp)]
  split
  · simp
  · exact h file target

/-- Among files it is the only one. -/
theorem Plain.eq_of_directory (h : fs.Plain place) {taken file : StoreFile}
    (hnode : (fs.put (place ++ [taken.name]) .directory).node? (place ++ [file.name]) =
      some .directory) : file = taken := by
  rw [node?_put fs _ _ (by simp)] at hnode
  split at hnode
  · rename_i heq
    exact StoreFile.name_inj.mp (by simpa using heq)
  · exact absurd hnode (h.ne_directory file)

/-! ## What leads to a folder

A finished file takes its name from whatever has it, so a link under that name goes.  This does no
harm where the folder is found without such links. -/

/-- All directories and links of the second file system are in the first, but for links that have a
name of the store. -/
def Keeps (after fs : FileSystem) (place : Place) : Prop :=
  ∀ other node, node.isFile = false → fs.node? other = some node →
    (∀ file : StoreFile, other = place ++ [file.name] → node = .directory) →
      after.node? other = some node

theorem Keeps.refl (fs : FileSystem) (place : Place) : Keeps fs fs place := fun _ _ _ h _ => h

theorem Keeps.trans {first second third : FileSystem} (h : Keeps first second place)
    (h' : Keeps second third place) : Keeps first third place :=
  fun other node hnode hthird hname => h other node hnode (h' other node hnode hthird hname) hname

theorem Within.keeps {after : FileSystem} (h : fs.Within after) : Keeps after fs place :=
  fun other node hnode hthere _ => h other node hnode hthere

theorem LinkFree.within {core after : FileSystem} (h : core.LinkFree place) (hcore : core.Within fs)
    (hkeeps : Keeps after fs place) : core.Within after := by
  intro other node hnode hthere
  refine hkeeps other node hnode (hcore other node hnode hthere) ?_
  rintro file rfl
  match node with
  | .directory => rfl
  | .link target => exact absurd hthere (h file target)

/-- No unfinished file of the folder is a link, and the folder is found without the links in it that
have a name of the store. -/
structure Steady (fs : FileSystem) (folder : Path) (place : Place) : Prop where
  unlinked : ∀ priority target,
    fs.node? (place ++ [(StoreFile.unfinished priority).name]) ≠ some (.link target)
  found : ∃ core : FileSystem, core.LinkFree place ∧ core.Within fs ∧
    core.directoryAt folder = .ok place

theorem LinkFree.steady (h : fs.LinkFree place) (hfolder : fs.directoryAt folder = .ok place) :
    fs.Steady folder place :=
  ⟨fun priority target => h (.unfinished priority) target, fs, h, .refl fs, hfolder⟩

theorem Steady.directory (h : fs.Steady folder place) : fs.directoryAt folder = .ok place := by
  obtain ⟨core, -, hwithin, hfolder⟩ := h.found
  exact directoryAt_of_within hwithin hfolder

theorem Steady.of_keeps {after : FileSystem} (h : fs.Steady folder place)
    (hwithin : after.Within fs) (hkeeps : Keeps after fs place) : after.Steady folder place := by
  obtain ⟨core, hlinks, hcore, hfolder⟩ := h.found
  exact ⟨fun priority target hnode => h.unlinked priority target (hwithin _ _ rfl hnode),
    core, hlinks, hlinks.within hcore hkeeps, hfolder⟩

/-- What is neither a link nor a directory is a file. -/
theorem Steady.isFile (h : fs.Steady folder place)
    (hdirectory : fs.node? (place ++ [(StoreFile.unfinished priority).name]) ≠ some .directory)
    (node : Node) (hnode : fs.node? (place ++ [(StoreFile.unfinished priority).name]) = some node) :
    node.isFile = true := by
  rcases node with ⟨image⟩ | _ | ⟨target⟩
  · rfl
  · exact absurd hnode hdirectory
  · exact absurd hnode (h.unlinked priority target)

/-! ## Changes to files of the store only -/

/-- The second file system became the first without anything new but finished segments of a
folder: all that went are finished and unfinished ones. -/
structure Beside (after fs : FileSystem) (place : Place) : Prop where
  within : after.Within fs
  kept : Keeps after fs place
  unfinished : ∀ name priority, StoreFile.ofName? name = some (.unfinished priority) →
    after.node? (place ++ [name]) = fs.node? (place ++ [name]) ∨
      after.node? (place ++ [name]) = none
  foreign : ∀ name, StoreFile.ofName? name = none →
    after.node? (place ++ [name]) = fs.node? (place ++ [name])

theorem Beside.refl (fs : FileSystem) (place : Place) : Beside fs fs place :=
  ⟨.refl fs, .refl fs place, fun _ _ _ => .inl rfl, fun _ _ => rfl⟩

theorem Beside.trans {first second third : FileSystem} (h : Beside first second place)
    (h' : Beside second third place) : Beside first third place where
  within := h.within.trans h'.within
  kept := h.kept.trans h'.kept
  unfinished name priority hname := by
    rcases h.unfinished name priority hname with heq | hnone
    · rw [heq]
      exact h'.unfinished name priority hname
    · exact .inr hnone
  foreign name hname := (h.foreign name hname).trans (h'.foreign name hname)

/-- A step that changes a file of the store only, and leaves no unfinished one. -/
theorem beside_of_nodes {after : FileSystem} (hwithin : after.Within fs)
    (hkept : Keeps after fs place)
    (hnodes : ∀ name, after.node? (place ++ [name]) = fs.node? (place ++ [name]) ∨
      (∃ priority, name = (StoreFile.segment priority).name) ∨
      (∃ priority, name = (StoreFile.unfinished priority).name) ∧
        after.node? (place ++ [name]) = none) : Beside after fs place where
  within := hwithin
  kept := hkept
  unfinished name priority hname := by
    rcases hnodes name with heq | ⟨other, rfl⟩ | ⟨-, hnone⟩
    · exact .inl heq
    · simp [StoreFile.ofName?_name] at hname
    · exact .inr hnone
  foreign name hname := by
    rcases hnodes name with heq | ⟨other, rfl⟩ | ⟨⟨other, rfl⟩, -⟩
    · exact heq
    · simp [StoreFile.ofName?_name] at hname
    · simp [StoreFile.ofName?_name] at hname

theorem beside_erase {priority : Priority} {image : Image}
    (hnode : fs.node? (place ++ [(StoreFile.segment priority).name]) = some (.file image)) :
    Beside (fs.erase (place ++ [(StoreFile.segment priority).name])) fs place := by
  refine beside_of_nodes (within_erase fs (by simp))
    (within_of_erase (by simp) (by simp [hnode, Node.isFile])).keeps fun name => ?_
  rw [node?_erase fs _ (by simp)]
  split
  · rename_i heq
    exact .inr (.inl ⟨priority, by simpa using heq⟩)
  · exact .inl rfl

/-! ## Changes that others make -/

/-- The files were changed by others, who left the finished segments of the folder alone: they came
and went only under other names, or where no file was.  The folder is found at its place still. -/
structure Spares (after fs : FileSystem) (folder : Path) (place : Place) : Prop where
  steady : after.Steady folder place
  segments : ∀ name image priority, StoreFile.ofName? name = some (.segment priority) →
    (after.node? (place ++ [name]) = some (.file image) ↔
      fs.node? (place ++ [name]) = some (.file image))
  short : ∀ name, after.node? (place ++ [name]) ≠ none →
    name.utf8ByteSize ≤ Path.maxNameBytes

theorem Stores.of_spares {after : FileSystem} (h : fs.Stores folder place segments)
    (hspares : Spares after fs folder place) : after.Stores folder place segments where
  filed := h.filed
  directory := hspares.steady.directory
  mirrors name image priority hname :=
    (hspares.segments name image priority hname).trans (h.mirrors name image priority hname)
  short := hspares.short

/-! ## Unfinished files -/

theorem Stores.short_put (h : fs.Stores folder place segments) {name : String} (node : Node)
    (hshort : name.utf8ByteSize ≤ Path.maxNameBytes) (other : String)
    (hother : (fs.put (place ++ [name]) node).node? (place ++ [other]) ≠ none) :
    other.utf8ByteSize ≤ Path.maxNameBytes := by
  rw [node?_put fs _ _ (by simp)] at hother
  split at hother
  · rename_i heq
    obtain rfl : other = name := by simpa using heq
    exact hshort
  · exact h.short other hother

theorem Stores.short_erase (h : fs.Stores folder place segments) (name other : String)
    (hother : (fs.erase (place ++ [name])).node? (place ++ [other]) ≠ none) :
    other.utf8ByteSize ≤ Path.maxNameBytes := by
  rw [node?_erase fs _ (by simp)] at hother
  split at hother
  · exact absurd rfl hother
  · exact h.short other hother

theorem ne_unfinished_of_segment {name : String} {other : Priority}
    (hname : StoreFile.ofName? name = some (.segment priority)) :
    place ++ [name] ≠ place ++ [(StoreFile.unfinished other).name] := by
  intro heq
  obtain rfl : name = (StoreFile.unfinished other).name := by simpa using heq
  simp [StoreFile.ofName?_name] at hname

/-- **An unfinished file may come.** -/
theorem Stores.put_unfinished (h : fs.Stores folder place segments) (image : Image)
    (hfile : ∀ node, fs.node? (place ++ [(StoreFile.unfinished priority).name]) = some node →
      node.isFile = true) :
    (fs.put (place ++ [(StoreFile.unfinished priority).name]) (.file image)).Stores
      folder place segments where
  filed := h.filed
  directory := directoryAt_of_within (within_of_put (by simp) hfile) h.directory
  mirrors := h.mirrors.congr fun name other hname => by
    rw [node?_put fs _ _ (by simp), if_neg (ne_unfinished_of_segment hname)]
  short := h.short_put _ (StoreFile.utf8ByteSize_name_le _)

/-- **An unfinished file may go.** -/
theorem Stores.erase_unfinished (h : fs.Stores folder place segments)
    (hfile : ∀ node, fs.node? (place ++ [(StoreFile.unfinished priority).name]) = some node →
      node.isFile = true) :
    (fs.erase (place ++ [(StoreFile.unfinished priority).name])).Stores folder place segments where
  filed := h.filed
  directory := directoryAt_of_within (within_of_erase (by simp) hfile) h.directory
  mirrors := h.mirrors.congr fun name other hname => by
    rw [node?_erase fs _ (by simp), if_neg (ne_unfinished_of_segment hname)]
  short := h.short_erase _

/-- **A directory may come**, under whatever free name. -/
theorem Stores.put_directory (h : fs.Stores folder place segments) {name : String}
    (hshort : name.utf8ByteSize ≤ Path.maxNameBytes)
    (hfree : fs.node? (place ++ [name]) = none) :
    (fs.put (place ++ [name]) .directory).Stores folder place segments where
  filed := h.filed
  directory := by
    refine directoryAt_of_within (fun other node hnode hother => ?_) h.directory
    rw [node?_put fs _ _ (by simp), if_neg, hother]
    rintro rfl
    simp [hfree] at hother
  mirrors other image priority hname := by
    rw [node?_put fs _ _ (by simp), ← h.mirrors other image priority hname]
    split
    · rename_i heq
      simp [heq, hfree]
    · exact Iff.rfl
  short := h.short_put _ hshort

/-! ## Finished files -/

theorem exists_other_iff {newer : List Segment} (hne : priority ≠ s.priority) :
    (∃ t ∈ newer ++ s :: older, t.priority = priority ∧ t.image = image) ↔
      ∃ t ∈ newer ++ older, t.priority = priority ∧ t.image = image := by
  refine exists_congr fun t => and_congr_left fun ht => ?_
  rw [List.mem_append, List.mem_append, List.mem_cons]
  refine or_congr_right (or_iff_right ?_)
  rintro rfl
  exact hne ht.1.symm

theorem Mirrors.put_segment {newer : List Segment} (h : fs.Mirrors place (newer ++ older))
    (hother : ∀ t ∈ newer ++ older, t.priority ≠ s.priority) :
    (fs.put (place ++ [(StoreFile.segment s.priority).name]) (.file s.image)).Mirrors place
      (newer ++ s :: older) := by
  intro name image priority hname
  rw [node?_put fs _ _ (by simp)]
  by_cases heq : name = (StoreFile.segment s.priority).name
  · subst heq
    obtain rfl : s.priority = priority := by
      simpa [StoreFile.ofName?_name] using hname
    rw [if_pos rfl, Option.some.injEq, Node.file.injEq]
    refine ⟨fun himage => ⟨rfl, s, by simp, rfl, himage⟩, ?_⟩
    rintro ⟨-, t, ht, hpriority, rfl⟩
    rcases (by simpa [or_left_comm] using ht : t = s ∨ t ∈ newer ∨ t ∈ older) with rfl | ht
    · rfl
    · exact absurd hpriority (hother t (List.mem_append.mpr ht))
  · rw [if_neg (by simpa using heq), h name image priority hname]
    refine and_congr_right fun hcanonical => (exists_other_iff ?_).symm
    rintro rfl
    exact heq hcanonical

theorem Mirrors.erase_segment {newer : List Segment} (h : fs.Mirrors place (newer ++ s :: older))
    (hother : ∀ t ∈ newer ++ older, t.priority ≠ s.priority) :
    (fs.erase (place ++ [(StoreFile.segment s.priority).name])).Mirrors place (newer ++ older) := by
  intro name image priority hname
  rw [node?_erase fs _ (by simp)]
  by_cases heq : name = (StoreFile.segment s.priority).name
  · subst heq
    obtain rfl : s.priority = priority := by
      simpa [StoreFile.ofName?_name] using hname
    simp only [if_pos, reduceCtorEq, true_and, false_iff, not_exists, not_and]
    exact fun t ht hpriority => absurd hpriority (hother t ht)
  · rw [if_neg (by simpa using heq), h name image priority hname]
    refine and_congr_right fun hcanonical => exists_other_iff ?_
    rintro rfl
    exact heq hcanonical

/-- **A finished file adds its segment.** -/
theorem Stores.put_segment (newer : List Segment) (h : fs.Stores folder place (newer ++ older))
    (hfiled : Segment.Filed folder (newer ++ s :: older))
    (hfile : ∀ node, fs.node? (place ++ [(StoreFile.segment s.priority).name]) = some node →
      node.isFile = true) :
    (fs.put (place ++ [(StoreFile.segment s.priority).name]) (.file s.image)).Stores
      folder place (newer ++ s :: older) where
  filed := hfiled
  directory := directoryAt_of_within (within_of_put (by simp) hfile) h.directory
  mirrors := h.mirrors.put_segment fun _ ht => hfiled.priority_ne ht
  short := h.short_put _ (StoreFile.utf8ByteSize_name_le _)

/-- **A finished file that is taken away removes its segment.** -/
theorem Stores.erase_segment (newer : List Segment)
    (h : fs.Stores folder place (newer ++ s :: older)) :
    (fs.erase (place ++ [(StoreFile.segment s.priority).name])).Stores
      folder place (newer ++ older) where
  filed := h.filed.sublist (by simp)
  directory := by
    have hnode := h.mirrors.file (s := s) (by simp)
    exact directoryAt_of_within (within_of_erase (by simp) (by simp [hnode, Node.isFile]))
      h.directory
  mirrors := h.mirrors.erase_segment fun _ ht => h.filed.priority_ne ht
  short := h.short_erase _

/-! ## Giving a segment its name -/

/-- **A segment's file takes its name**, unless a directory has it. -/
theorem rename_stores (newer : List Segment) (hsteady : fs.Steady folder place)
    {file : StoreFile} (hfile : fs.node? (place ++ [file.name]) = some (.file s.image))
    (hne : file ≠ .segment s.priority)
    (herased : (fs.erase (place ++ [file.name])).Stores folder place (newer ++ older))
    (hfiled : Segment.Filed folder (newer ++ s :: older)) :
    (fs.node? (place ++ [(StoreFile.segment s.priority).name]) = some .directory ∧
      fs.rename (file.path folder) ((StoreFile.segment s.priority).path folder) =
        .error .isADirectory) ∨
    fs.node? (place ++ [(StoreFile.segment s.priority).name]) ≠ some .directory ∧
    ∃ after, fs.rename (file.path folder) ((StoreFile.segment s.priority).path folder) =
        .ok after ∧ after.Stores folder place (newer ++ s :: older) ∧ after.Within fs ∧
      Keeps after fs place ∧
      ∀ other, after.node? other =
        if other = place ++ [(StoreFile.segment s.priority).name] then some (.file s.image)
        else if other = place ++ [file.name] then none
        else fs.node? other := by
  have hrename := rename_file hsteady.directory hne hfile
  by_cases hdirectory :
      fs.node? (place ++ [(StoreFile.segment s.priority).name]) = some .directory
  · rw [hdirectory] at hrename
    exact .inl ⟨hdirectory, hrename⟩
  · let after := (fs.erase (place ++ [file.name])).put
      (place ++ [(StoreFile.segment s.priority).name]) (.file s.image)
    have hnodes (other : Place) : after.node? other =
        if other = place ++ [(StoreFile.segment s.priority).name] then some (.file s.image)
        else if other = place ++ [file.name] then none
        else fs.node? other := by
      rw [node?_put _ _ _ (by simp), node?_erase _ _ (by simp)]
    have hwithin : after.Within fs := (within_put _ _ (by simp)).trans (within_erase fs (by simp))
    have hkeeps : Keeps after fs place := by
      intro other node hnode hother hname
      rw [hnodes, if_neg, if_neg, hother]
      · rintro rfl
        obtain rfl := Option.some.inj (hother.symm.trans hfile)
        cases hnode
      · rintro rfl
        obtain rfl := hname _ rfl
        exact hdirectory hother
    refine .inr ⟨hdirectory, after, hrename.trans ?_, ⟨hfiled,
      (hsteady.of_keeps hwithin hkeeps).directory,
      herased.mirrors.put_segment fun _ ht => hfiled.priority_ne ht,
      herased.short_put _ (StoreFile.utf8ByteSize_name_le _)⟩, hwithin, hkeeps, hnodes⟩
    split
    · exact absurd ‹_› hdirectory
    · rfl

/-- **A stored segment can be opened.** -/
theorem Stores.load (h : fs.Stores folder place segments) (hs : s ∈ segments) :
    Segment.load fs s.path s.priority = .ok s := by
  have hmap := map_file h.directory (h.mirrors.file hs)
  rw [← h.filed.path_eq s hs] at hmap
  exact Segment.load_eq_ok_iff.mpr ⟨hmap, rfl, rfl⟩

/-! ## A folder to begin with -/

/-- A file system with nothing but an empty folder. -/
def ofFolder (name : String) : FileSystem := ({} : FileSystem).put [name] .directory

theorem node?_ofFolder (name : String) (other : Place) :
    (ofFolder name).node? other =
      if other = [name] ∨ other = [] then some .directory else none := by
  rw [ofFolder, node?_put _ _ _ (by simp)]
  by_cases hname : other = [name]
  · simp [hname]
  by_cases hroot : other = []
  · simp [hroot]
  · simp [hname, hroot, node?]

theorem directoryAt_ofFolder {name : String} (hname : Path.isName name)
    (hshort : name.utf8ByteSize ≤ Path.maxNameBytes) :
    (ofFolder name).directoryAt [name] = .ok [name] := by
  have hwalk : (ofFolder name).walk .follow [] [name] = .ok (.arrived [name]) :=
    walk_name hname (find_eq_ok hshort) (by simp [node?_ofFolder])
  exact directoryAt_eq_ok_iff.mpr
    ⟨locateFrom_eq_ok_iff.mpr (.inl hwalk), by simp [node?_ofFolder]⟩

/-- **An empty folder stores no segments.** -/
theorem stores_of_empty (hfolder : fs.directoryAt folder = .ok place)
    (hempty : ∀ name, fs.node? (place ++ [name]) = none) : fs.Stores folder place [] where
  filed := ⟨by simp, by simp, .nil⟩
  directory := hfolder
  mirrors name image priority _ := by simp [hempty]
  short name hnode := absurd (hempty name) hnode

theorem plain_of_empty (hempty : ∀ name, fs.node? (place ++ [name]) = none) : fs.Plain place :=
  fun file node hnode => by simp [hempty] at hnode

theorem node?_within_ofFolder (name other : String) :
    (ofFolder name).node? ([name] ++ [other]) = none := by
  simp [node?_ofFolder]

theorem stores_ofFolder {name : String} (hfolder : (ofFolder name).directoryAt folder = .ok [name]) :
    (ofFolder name).Stores folder [name] [] := stores_of_empty hfolder (node?_within_ofFolder name)

theorem plain_ofFolder (name : String) : (ofFolder name).Plain [name] :=
  plain_of_empty (node?_within_ofFolder name)

theorem linkFree_ofFolder (name : String) : (ofFolder name).LinkFree [name] :=
  (plain_ofFolder name).linkFree

end FileSystem

end LsmTree
