import LsmTree.Proofs.FileSystem.Folder
import LsmTree.Proofs.SegmentSet
import LsmTree.Store.Load

/-!
# Proofs/Store/Files — the files of a store in its folder

A folder **mirrors** segments if the regular files that read as finished segments are theirs, byte
for byte, each under the name of its priority (`FileSystem.Mirrors`).  What a folder mirrors is
determined by the folder (`FileSystem.Mirrors.unique`).  A folder is **well formed** if each such
file holds entries in key order and has the name that the store itself would give it; this is all
that opening a store asks for.
-/

namespace LsmTree

/-! ## Names -/

namespace StoreFile

variable {file other : StoreFile} {text : String}

theorem name_inj : file.name = other.name ↔ file = other := by
  refine ⟨fun h => ?_, fun h => h ▸ rfl⟩
  rw [← Option.some_inj, ← ofName?_name, ← ofName?_name, h]

/-- What reads as a file of the store is a name. -/
theorem isName_of_ofName? (h : ofName? text = some file) : Path.isName text := by
  unfold ofName? at h
  split at h
  · rename_i hstem
    obtain ⟨rest, hrest⟩ := List.isPrefixOf_iff_prefix.mp hstem
    have hne : ∀ other : String, other.toList.head? ≠ some 'd' → text ≠ other := by
      rintro _ hhead rfl
      rw [← hrest] at hhead
      exact hhead rfl
    have hempty := hne "" (by decide)
    have hhere := hne Path.here (by decide)
    have hup := hne Path.up (by decide)
    simp [Path.isName, Path.stays, hempty, hhere, hup]
  · cases h

end StoreFile

/-! ## Folders of segments -/

/-- **A segment is opened from the file under its path.** -/
theorem Segment.load_eq_ok_iff {fs : FileSystem} {path : Path} {priority : Priority} {s : Segment} :
    Segment.load fs path priority = .ok s ↔
      fs.map path = .ok s.image ∧ s.priority = priority ∧ s.path = path := by
  unfold load
  cases hmap : fs.map path with
  | error cause => simp
  | ok image =>
    simp only [ofImage_eq_ok_iff, Except.ok.injEq]
    exact ⟨fun ⟨hpriority, hpath, himage⟩ => ⟨himage.symm, hpriority, hpath⟩,
      fun ⟨himage, hpriority, hpath⟩ => ⟨hpriority, hpath, himage.symm⟩⟩

/-- **A path opens as a segment** if it leads to a file whose header can be read. -/
theorem Segment.exists_load_iff {fs : FileSystem} {path : Path} {priority : Priority} :
    (∃ s, Segment.load fs path priority = .ok s) ↔
      ∃ image header, fs.map path = .ok image ∧ Header.decode image = .ok header := by
  constructor
  · rintro ⟨s, hload⟩
    exact ⟨s.image, s.header, (load_eq_ok_iff.mp hload).1, s.readable⟩
  · rintro ⟨image, header, hmap, hdecode⟩
    exact ⟨⟨priority, path, image, header, hdecode⟩, load_eq_ok_iff.mpr ⟨hmap, rfl, rfl⟩⟩

namespace FileSystem

section Names

variable {fs : FileSystem} {folder : Path} {place : Place} {image : Image}

/-! The names of a store's files are names, and short ones, so a step on them goes to the entry of
its folder. -/

theorem map_file (h : fs.directoryAt folder = .ok place) {file : StoreFile}
    (hnode : fs.node? (place ++ [file.name]) = some (.file image)) :
    fs.map (file.path folder) = .ok image :=
  map_name h (StoreFile.isName_name file) (StoreFile.utf8ByteSize_name_le file) hnode

theorem remove_file (h : fs.directoryAt folder = .ok place) (file : StoreFile) :
    fs.remove (file.path folder) =
      match fs.node? (place ++ [file.name]) with
      | none => .error .notFound
      | some .directory => .error .isADirectory
      | some _ => .ok (fs.erase (place ++ [file.name])) :=
  remove_name h (StoreFile.isName_name file) (StoreFile.utf8ByteSize_name_le file)

theorem write_file (h : fs.directoryAt folder = .ok place) {file : StoreFile}
    (hlink : ∀ target, fs.node? (place ++ [file.name]) ≠ some (.link target)) :
    fs.write (file.path folder) image =
      match fs.node? (place ++ [file.name]) with
      | some .directory => .error .isADirectory
      | _ => .ok (fs.put (place ++ [file.name]) (.file image)) :=
  write_name h (StoreFile.isName_name file) (StoreFile.utf8ByteSize_name_le file) hlink

theorem rename_file (h : fs.directoryAt folder = .ok place) {file other : StoreFile}
    (hne : file ≠ other) (hnode : fs.node? (place ++ [file.name]) = some (.file image)) :
    fs.rename (file.path folder) (other.path folder) =
      match fs.node? (place ++ [other.name]) with
      | some .directory => .error .isADirectory
      | _ => .ok ((fs.erase (place ++ [file.name])).put (place ++ [other.name]) (.file image)) :=
  rename_name h (StoreFile.isName_name file) (StoreFile.utf8ByteSize_name_le file)
    (StoreFile.isName_name other) (StoreFile.utf8ByteSize_name_le other)
    (mt StoreFile.name_inj.mp hne) rfl hnode

end Names

/-- The finished segments among the files of a folder are the given ones. -/
def Mirrors (fs : FileSystem) (place : Place) (segments : List Segment) : Prop :=
  ∀ name image priority, StoreFile.ofName? name = some (.segment priority) →
    (fs.node? (place ++ [name]) = some (.file image) ↔
      name = (StoreFile.segment priority).name ∧
        ∃ s ∈ segments, s.priority = priority ∧ s.image = image)

/-- The files that read as finished segments have the names that the store gives them. -/
def Canonical (fs : FileSystem) (place : Place) : Prop :=
  ∀ name image priority, fs.node? (place ++ [name]) = some (.file image) →
    StoreFile.ofName? name = some (.segment priority) → name = (StoreFile.segment priority).name

/-- The files of finished segments in a folder are whole and named as the store names them, and no
name in the folder is longer than names may be. -/
structure WellFormed (fs : FileSystem) (place : Place) : Prop where
  canonical : ∀ name image priority, fs.node? (place ++ [name]) = some (.file image) →
    StoreFile.ofName? name = some (.segment priority) → name = (StoreFile.segment priority).name
  whole : ∀ image priority,
    fs.node? (place ++ [(StoreFile.segment priority).name]) = some (.file image) →
      ∃ es, Segment.Table es ∧ image = Segment.encode es
  short : ∀ name, fs.node? (place ++ [name]) ≠ none → name.utf8ByteSize ≤ Path.maxNameBytes

variable {fs after : FileSystem} {place : Place} {segments others : List Segment}

theorem Mirrors.file_iff (h : fs.Mirrors place segments) {priority : Priority} {image : Image} :
    fs.node? (place ++ [(StoreFile.segment priority).name]) = some (.file image) ↔
      ∃ s ∈ segments, s.priority = priority ∧ s.image = image := by
  rw [h _ _ _ (StoreFile.ofName?_name _)]
  exact and_iff_right rfl

theorem Mirrors.file (h : fs.Mirrors place segments) {s : Segment} (hs : s ∈ segments) :
    fs.node? (place ++ [(StoreFile.segment s.priority).name]) = some (.file s.image) :=
  h.file_iff.mpr ⟨s, hs, rfl, rfl⟩

/-- A folder mirrors the same segments as long as its finished segments stay. -/
theorem Mirrors.congr (h : fs.Mirrors place segments)
    (heq : ∀ name priority, StoreFile.ofName? name = some (.segment priority) →
      after.node? (place ++ [name]) = fs.node? (place ++ [name])) :
    after.Mirrors place segments := by
  intro name image priority hname
  rw [heq name priority hname]
  exact h name image priority hname

/-- What a folder mirrors is well formed. -/
theorem Mirrors.wellFormed (h : fs.Mirrors place segments) (hintact : ∀ s ∈ segments, s.Intact)
    (hshort : ∀ name, fs.node? (place ++ [name]) ≠ none →
      name.utf8ByteSize ≤ Path.maxNameBytes) : fs.WellFormed place where
  canonical name image priority hnode hname := ((h name image priority hname).mp hnode).1
  whole image priority hnode := by
    obtain ⟨s, hs, -, rfl⟩ := h.file_iff.mp hnode
    exact ⟨s.entries, (hintact s hs).table, (hintact s hs).image_eq⟩
  short := hshort

/-- **A folder determines what it mirrors.** -/
theorem Mirrors.unique (h : fs.Mirrors place segments) (h' : fs.Mirrors place others)
    (hpath : ∀ s ∈ segments, ∀ t ∈ others, s.priority = t.priority → s.path = t.path)
    (hsorted : segments.Pairwise fun a b => b.priority < a.priority)
    (hsorted' : others.Pairwise fun a b => b.priority < a.priority) : segments = others := by
  have hmem : ∀ s, s ∈ segments ↔ s ∈ others := fun s => by
    constructor
    · intro hs
      obtain ⟨t, ht, hpriority, himage⟩ := h'.file_iff.mp (h.file hs)
      rwa [Segment.ext_image hpriority.symm (hpath s hs t ht hpriority.symm) himage.symm]
    · intro hs
      obtain ⟨t, ht, hpriority, himage⟩ := h.file_iff.mp (h'.file hs)
      rwa [Segment.ext_image hpriority.symm (hpath t ht s hs hpriority).symm himage.symm]
  have hne : ∀ {xs : List Segment}, xs.Pairwise (fun a b => b.priority < a.priority) → xs.Nodup := by
    intro xs hxs
    rw [List.nodup_iff_pairwise_ne]
    refine hxs.imp fun {a b} hlt heq => ?_
    rw [heq] at hlt
    exact UInt64.lt_irrefl _ hlt
  have hperm : segments.Perm others :=
    (List.perm_ext_iff_of_nodup (hne hsorted) (hne hsorted')).mpr hmem
  refine hperm.eq_of_pairwise ?_ hsorted hsorted'
  intro a b _ _ hab hba
  exact absurd (UInt64.lt_trans hab hba) (UInt64.lt_irrefl _)

end FileSystem

/-! ## Stores that own their segments -/

/-- The segments are whole and of one folder, each at the place of its priority, newest first. -/
structure Segment.Filed (folder : Path) (segments : List Segment) : Prop where
  intact : ∀ s ∈ segments, s.Intact
  path_eq : ∀ s ∈ segments, s.path = (StoreFile.segment s.priority).path folder
  descending : segments.Pairwise fun a b => b.priority < a.priority

/-- The folder is there, and its finished segments are the given ones. -/
structure FileSystem.Stores (fs : FileSystem) (folder : Path) (place : Place)
    (segments : List Segment) : Prop where
  filed : Segment.Filed folder segments
  directory : fs.directoryAt folder = .ok place
  mirrors : fs.Mirrors place segments
  short : ∀ name, fs.node? (place ++ [name]) ≠ none → name.utf8ByteSize ≤ Path.maxNameBytes

/-- The segments are in the store's folder, and the next priority is above them all. -/
structure Store.Owns (store : Store) (segments : List Segment) : Prop where
  filed : Segment.Filed store.folder segments
  below : ∀ s ∈ segments, s.priority < store.counter.next

variable {fs : FileSystem} {folder : Path} {place : Place} {segments : List Segment}

theorem FileSystem.Stores.wellFormed (h : fs.Stores folder place segments) : fs.WellFormed place :=
  h.mirrors.wellFormed h.filed.intact h.short

/-- **A folder stores one list of segments.** -/
theorem FileSystem.Stores.unique (h : fs.Stores folder place segments) {others : List Segment}
    (hfiled : Segment.Filed folder others) (hmirrors : fs.Mirrors place others) :
    others = segments :=
  hmirrors.unique h.mirrors
    (fun s hs t ht heq => by rw [hfiled.path_eq s hs, h.filed.path_eq t ht, heq])
    hfiled.descending h.filed.descending

/-- Older segments alone are filed as well. -/
theorem Segment.Filed.sublist {others : List Segment} (h : Segment.Filed folder segments)
    (hsub : others.Sublist segments) : Segment.Filed folder others where
  intact s hs := h.intact s (hsub.subset hs)
  path_eq s hs := h.path_eq s (hsub.subset hs)
  descending := h.descending.sublist hsub

/-- **No other segment has a segment's priority.** -/
theorem Segment.Filed.priority_ne {s : Segment} {newer older : List Segment}
    (h : Segment.Filed folder (newer ++ s :: older)) {t : Segment} (ht : t ∈ newer ++ older) :
    t.priority ≠ s.priority := by
  have hpairwise := h.descending
  rw [List.pairwise_append] at hpairwise
  obtain ⟨-, hs, hnewer⟩ := hpairwise
  intro heq
  rcases List.mem_append.mp ht with ht | ht
  · have hlt := hnewer t ht s List.mem_cons_self
    rw [heq] at hlt
    exact UInt64.lt_irrefl _ hlt
  · have hlt := (List.pairwise_cons.mp hs).1 t ht
    rw [heq] at hlt
    exact UInt64.lt_irrefl _ hlt

end LsmTree
