import LsmTree.FileSystem.Basic

/-!
# FileSystem/Walk — the place a path leads to

A path is walked from the root through directories, `..` and links.  What a link at its end is taken
for depends on what the place is wanted for (`AtEnd`): to read what is there the walk goes on where
the link leads to (`resolve`), to tell what is there the link itself is the end (`inspect`), and to
write a file the end must in addition be fit for a file (`resolveNew`).  To create, remove or rename
something, only the directory it is in is walked to, and the end of the path is looked at apart
(`locate`).

A name in a directory is found where the directory is, and then the name (`locateFrom_concat`).
-/

namespace LsmTree.FileSystem

/-! ## Walking -/

/-- What a directory holds under a name. -/
def find (fs : FileSystem) (directory : Place) (name : String) : Except IoError (Option Node) :=
  if Path.maxNameBytes < name.utf8ByteSize then .error .invalidFilename
  else .ok (fs.node? (directory ++ [name]))

/-- What the end of a path is wanted for. -/
inductive AtEnd where
  /-- what is there: a link is followed -/
  | follow
  /-- what it names: a link is the end -/
  | stop
  /-- a file to write: a link is followed, and a slash behind the name is refused -/
  | create
  deriving DecidableEq

/-- Where a walk comes to: a place, or a link that sends it elsewhere. -/
inductive Walk where
  /-- the path ends at this place -/
  | arrived (place : Place)
  /-- the way goes on from the root along another path -/
  | redirected (path : Path)

/-- Walks a path from a directory up to its end or to the first link to follow.  The name at its end
may stand for nothing; every other has to be a directory's.  The root is its own parent. -/
def walk (fs : FileSystem) (atEnd : AtEnd) (directory : Place) : Path → Except IoError Walk
  | [] => .ok (.arrived directory)
  | piece :: rest =>
    if Path.stays piece then fs.walk atEnd directory rest
    else if piece = Path.up then fs.walk atEnd directory.dropLast rest
    else if atEnd = .create ∧ rest ≠ [] ∧ rest.all (· = "") then .error .isADirectory
    else
      match fs.find directory piece with
      | .error cause => .error cause
      | .ok (some .directory) => fs.walk atEnd (directory ++ [piece]) rest
      | .ok (some (.link target)) =>
        if rest = [] ∧ atEnd = .stop then .ok (.arrived (directory ++ [piece]))
        else if target.isAbsolute then .ok (.redirected (target ++ rest))
        else .ok (.redirected (directory ++ (target ++ rest)))
      | .ok (some (.file _)) =>
        if rest = [] then .ok (.arrived (directory ++ [piece])) else .error .notADirectory
      | .ok none => if rest = [] then .ok (.arrived (directory ++ [piece])) else .error .notFound

/-- Walks a path from the root through at most `links` links. -/
def locateFrom (fs : FileSystem) (atEnd : AtEnd) : Nat → Path → Except IoError Place
  | links, path =>
    match fs.walk atEnd [] path with
    | .error cause => .error cause
    | .ok (.arrived place) => .ok place
    | .ok (.redirected path) =>
      match links with
      | 0 => .error .filesystemLoop
      | links + 1 => fs.locateFrom atEnd links path

/-- The greatest number of links that are followed on the way to one place. -/
def maxLinks : Nat := 40

/-- The place a path leads to; if a link is at its end, the place of what the link leads to. -/
def resolve (fs : FileSystem) (path : Path) : Except IoError Place :=
  fs.locateFrom .follow maxLinks path

/-- The place a path names; if a link is at its end, the place of the link itself. -/
def inspect (fs : FileSystem) (path : Path) : Except IoError Place :=
  fs.locateFrom .stop maxLinks path

/-- The place where a file is written under a path. -/
def resolveNew (fs : FileSystem) (path : Path) : Except IoError Place :=
  fs.locateFrom .create maxLinks path

/-- The place of a directory. -/
def directoryAt (fs : FileSystem) (path : Path) : Except IoError Place := do
  let place ← fs.resolve path
  match fs.node? place with
  | some .directory => return place
  | some (.file _) => throw .notADirectory
  | some (.link _) | none => throw .notFound

/-- The directory that holds what a path names, and how the path ends. -/
def locate (fs : FileSystem) (path : Path) : Except IoError (Place × Path.Ending) := do
  let directory ← fs.directoryAt path.split.1
  return (directory, path.split.2)

/-! ## Reading -/

/-- The content of a file. -/
def read (fs : FileSystem) (path : Path) : Except IoError Image := do
  match fs.node? (← fs.resolve path) with
  | some (.file image) => return image
  | some .directory => throw .isADirectory
  | some (.link _) | none => throw .notFound

/-- The content of a file, mapped into memory; unlike reading, a directory may be opened for it and
is refused afterwards. -/
def map (fs : FileSystem) (path : Path) : Except IoError Image :=
  match fs.read path with
  | .error .isADirectory => .error .uncategorized
  | result => result

/-- Makes what happened at a path durable, which needs that the path leads somewhere. -/
def sync (fs : FileSystem) (path : Path) : Except IoError Unit := do
  match fs.node? (← fs.resolve path) with
  | some _ => return ()
  | none => throw .notFound

/-- The path leads to a directory. -/
def isDirectory (fs : FileSystem) (path : Path) : Bool := (fs.directoryAt path).isOk

/-- What a directory holds. -/
def list (fs : FileSystem) (path : Path) : Except IoError (List (String × Node)) :=
  fs.children <$> fs.directoryAt path

/-! ## A walk piece by piece -/

section Steps

variable {fs : FileSystem} {atEnd : AtEnd} {place : Place} {name piece : String} {rest path : Path}
  {node : Option Node} {outcome : Walk}

theorem find_eq_ok (h : name.utf8ByteSize ≤ Path.maxNameBytes) :
    fs.find place name = .ok (fs.node? (place ++ [name])) :=
  if_neg (Nat.not_lt.mpr h)

theorem find_eq_ok_iff : fs.find place name = .ok node ↔
    name.utf8ByteSize ≤ Path.maxNameBytes ∧ fs.node? (place ++ [name]) = node := by
  unfold find
  split
  · rename_i hlong
    simp [Nat.not_le.mpr hlong]
  · rename_i hshort
    simp [Nat.not_lt.mp hshort]

/-- A name that a walk looks up, with the rest of its path behind it. -/
structure Admits (atEnd : AtEnd) (name : String) (rest : Path) : Prop where
  isName : Path.isName name
  short : name.utf8ByteSize ≤ Path.maxNameBytes
  /-- a file that is to be written has no slash behind its name -/
  bare : ¬ (atEnd = .create ∧ rest ≠ [] ∧ rest.all (· = ""))

/-- The path that a link leads along. -/
def linked (place : Place) (target : Path) : Path :=
  if target.isAbsolute then target else place ++ target

/-- How a walk goes on with the first piece of its path. -/
inductive Goes (fs : FileSystem) (atEnd : AtEnd) (place : Place) (piece : String) (rest : Path)
    (outcome : Walk) : Prop
  | stay (hstays : Path.stays piece = true) (h : fs.walk atEnd place rest = .ok outcome)
  | up (hup : piece = Path.up) (h : fs.walk atEnd place.dropLast rest = .ok outcome)
  | enter (hname : Admits atEnd piece rest) (hnode : fs.node? (place ++ [piece]) = some .directory)
      (h : fs.walk atEnd (place ++ [piece]) rest = .ok outcome)
  | follow (target : Path) (hname : Admits atEnd piece rest)
      (hnode : fs.node? (place ++ [piece]) = some (.link target))
      (hfollowed : rest = [] → atEnd ≠ .stop)
      (houtcome : outcome = .redirected (linked place target ++ rest))
  | arrive (hname : Admits atEnd piece rest) (hrest : rest = [])
      (hnode : fs.node? (place ++ [piece]) ≠ some .directory)
      (hlink : ∀ target, fs.node? (place ++ [piece]) = some (.link target) → atEnd = .stop)
      (houtcome : outcome = .arrived (place ++ [piece]))

theorem walk_stay (h : Path.stays piece = true) :
    fs.walk atEnd place (piece :: rest) = fs.walk atEnd place rest := by
  rw [walk, if_pos h]

theorem walk_up : fs.walk atEnd place (Path.up :: rest) = fs.walk atEnd place.dropLast rest := rfl

/-- What is under a name decides. -/
theorem walk_cons (h : Admits atEnd name rest) :
    fs.walk atEnd place (name :: rest) =
      match fs.node? (place ++ [name]) with
      | some .directory => fs.walk atEnd (place ++ [name]) rest
      | some (.link target) =>
        if rest = [] ∧ atEnd = .stop then .ok (.arrived (place ++ [name]))
        else .ok (.redirected (linked place target ++ rest))
      | some (.file _) =>
        if rest = [] then .ok (.arrived (place ++ [name])) else .error .notADirectory
      | none => if rest = [] then .ok (.arrived (place ++ [name])) else .error .notFound := by
  have hpiece := Path.isName_iff.mp h.isName
  rw [walk, if_neg (by simp [hpiece.1]), if_neg hpiece.2, if_neg h.bare, find_eq_ok h.short]
  rcases fs.node? (place ++ [name]) with _ | ⟨image⟩ | _ | ⟨target⟩
  · rfl
  · rfl
  · rfl
  · by_cases habsolute : target.isAbsolute = true <;> simp [linked, habsolute]

theorem walk_directory (h : Admits atEnd name rest)
    (hnode : fs.node? (place ++ [name]) = some .directory) :
    fs.walk atEnd place (name :: rest) = fs.walk atEnd (place ++ [name]) rest := by
  rw [walk_cons h, hnode]

/-- A walk looks up only what it admits. -/
theorem admits_of_walk (hname : Path.isName name)
    (h : fs.walk atEnd place (name :: rest) = .ok outcome) : Admits atEnd name rest := by
  have hpiece := Path.isName_iff.mp hname
  rw [walk, if_neg (by simp [hpiece.1]), if_neg hpiece.2] at h
  split at h
  · cases h
  rename_i hbare
  cases hfind : fs.find place name with
  | error cause => simp [hfind] at h
  | ok node => exact ⟨hname, (find_eq_ok_iff.mp hfind).1, hbare⟩

/-- **A walk goes on from its first piece**, and there are five ways to do so. -/
theorem walk_cons_iff :
    fs.walk atEnd place (piece :: rest) = .ok outcome ↔ fs.Goes atEnd place piece rest outcome := by
  constructor
  · intro h
    by_cases hstays : Path.stays piece = true
    · exact .stay hstays (walk_stay hstays ▸ h)
    by_cases hup : piece = Path.up
    · exact .up hup (by rwa [hup, walk_up] at h)
    have hname := admits_of_walk (Path.isName_iff.mpr ⟨by simpa using hstays, hup⟩) h
    rcases hnode : fs.node? (place ++ [piece]) with _ | ⟨image⟩ | _ | ⟨target⟩ <;>
      rw [walk_cons hname, hnode] at h
    case some.directory => exact .enter hname hnode h
    all_goals
      dsimp only at h
      split at h
    · rename_i hrest
      exact .arrive hname hrest (by simp [hnode]) (by simp [hnode]) (Except.ok.inj h).symm
    · cases h
    · rename_i hrest
      exact .arrive hname hrest (by simp [hnode]) (by simp [hnode]) (Except.ok.inj h).symm
    · cases h
    · rename_i hrest
      exact .arrive hname hrest.1 (by simp [hnode]) (fun _ _ => hrest.2) (Except.ok.inj h).symm
    · rename_i hfollowed
      exact .follow target hname hnode (fun hrest hstop => hfollowed ⟨hrest, hstop⟩)
        (Except.ok.inj h).symm
  · intro h
    cases h with
    | stay hstays h => rwa [walk_stay hstays]
    | up hup h => rwa [hup, walk_up]
    | enter hname hnode h => rwa [walk_directory hname hnode]
    | follow target hname hnode hfollowed houtcome =>
      rw [walk_cons hname, hnode, houtcome]
      exact if_neg fun hstop => hfollowed hstop.1 hstop.2
    | arrive hname hrest hnode hlink houtcome =>
      rcases hthere : fs.node? (place ++ [piece]) with _ | ⟨image⟩ | _ | ⟨target⟩ <;>
        rw [walk_cons hname, hthere, houtcome]
      · exact if_pos hrest
      · exact if_pos hrest
      · exact absurd hthere hnode
      · exact if_pos ⟨hrest, hlink target hthere⟩

end Steps

/-! ## Names in a directory -/

theorem locate_concat {fs : FileSystem} {folder : Path} {directory : Place} {name : String}
    (hname : Path.isName name) (h : fs.directoryAt folder = .ok directory) :
    fs.locate (folder ++ [name]) = .ok (directory, .name name false) := by
  simp [locate, Path.split_concat folder hname, h, bind, Except.bind, pure, Except.pure]

/-- A walk to a name looks it up. -/
theorem find_of_walk {fs : FileSystem} {atEnd : AtEnd} {directory : Place} {name : String}
    {rest : Path} {outcome : Walk} (hname : Path.isName name)
    (h : fs.walk atEnd directory (name :: rest) = .ok outcome) :
    fs.find directory name = .ok (fs.node? (directory ++ [name])) :=
  find_eq_ok (admits_of_walk hname h).short

/-- A walk to a name ends there, unless a link is there. -/
theorem walk_name {fs : FileSystem} {atEnd : AtEnd} {directory : Place} {name : String}
    (hname : Path.isName name)
    (hfind : fs.find directory name = .ok (fs.node? (directory ++ [name])))
    (hlink : ∀ target, fs.node? (directory ++ [name]) ≠ some (.link target)) :
    fs.walk atEnd directory [name] = .ok (.arrived (directory ++ [name])) := by
  have hlast : Admits atEnd name [] := ⟨hname, (find_eq_ok_iff.mp hfind).1, by simp⟩
  by_cases hnode : fs.node? (directory ++ [name]) = some .directory
  · rw [walk_directory hlast hnode]
    rfl
  · exact walk_cons_iff.mpr
      (.arrive hlast rfl hnode (fun target hthere => absurd hthere (hlink target)) rfl)

/-- A walk that goes on behind nothing fails. -/
theorem walk_of_none {fs : FileSystem} {atEnd : AtEnd} {directory : Place} {name : String}
    {rest : Path} {outcome : Walk} (hname : Path.isName name)
    (hnone : fs.node? (directory ++ [name]) = none)
    (h : fs.walk atEnd directory (name :: rest) = .ok outcome) :
    outcome = .arrived (directory ++ [name]) := by
  obtain ⟨hpiece, hdown⟩ := Path.isName_iff.mp hname
  cases walk_cons_iff.mp h with
  | stay hstays => cases hpiece.symm.trans hstays
  | up hup => exact absurd hup hdown
  | enter _ hnode => cases hnone.symm.trans hnode
  | follow _ _ hnode => cases hnone.symm.trans hnode
  | arrive _ _ _ _ houtcome => exact houtcome

/-- **A way leads to a place** by one walk, or by one walk to a link and the way from there. -/
theorem locateFrom_eq_ok_iff {fs : FileSystem} {atEnd : AtEnd} {links : Nat} {path : Path}
    {place : Place} :
    fs.locateFrom atEnd links path = .ok place ↔
      fs.walk atEnd [] path = .ok (.arrived place) ∨
      ∃ fewer other, links = fewer + 1 ∧ fs.walk atEnd [] path = .ok (.redirected other) ∧
        fs.locateFrom atEnd fewer other = .ok place := by
  rw [locateFrom]
  rcases hwalk : fs.walk atEnd [] path with cause | ⟨found⟩ | ⟨other⟩
  · simp
  · simp
  · cases links <;> simp

theorem Admits.follow {atEnd : AtEnd} {piece : String} {rest others : Path}
    (h : Admits atEnd piece others) : Admits .follow piece rest :=
  ⟨h.isName, h.short, by simp⟩

theorem Admits.concat {atEnd : AtEnd} {piece name : String} {rest : Path}
    (h : Admits .follow piece rest) (hname : Path.isName name) :
    Admits atEnd piece (rest ++ [name]) := by
  refine ⟨h.isName, h.short, ?_⟩
  have hblank : name ≠ "" := by
    rintro rfl
    cases hname
  simp [hblank]

/-- A walk to a name in a directory is one to the directory, as long as no link ends it. -/
theorem walk_concat {fs : FileSystem} (atEnd : AtEnd) {name : String} (hname : Path.isName name)
    {folder : Path} {start directory : Place}
    (h : fs.walk .follow start folder = .ok (.arrived directory))
    (hdirectory : fs.node? directory = some .directory) :
    fs.walk atEnd start (folder ++ [name]) = fs.walk atEnd directory [name] := by
  induction folder generalizing start with
  | nil =>
    cases h
    rfl
  | cons piece rest ih =>
    rw [List.cons_append]
    cases walk_cons_iff.mp h with
    | stay hstays h =>
      rw [walk_stay hstays]
      exact ih h
    | up hup h =>
      rw [hup, walk_up]
      exact ih h
    | enter hpiece hnode h =>
      rw [walk_directory (hpiece.concat hname) hnode]
      exact ih h
    | follow _ _ _ _ houtcome => cases houtcome
    | arrive _ _ hnode _ houtcome =>
      cases houtcome
      exact absurd hdirectory hnode

/-- A link on the way is followed with the name behind it. -/
theorem walk_concat_redirected {fs : FileSystem} (atEnd : AtEnd) {name : String}
    (hname : Path.isName name) {folder path : Path} {start : Place}
    (h : fs.walk .follow start folder = .ok (.redirected path)) :
    fs.walk atEnd start (folder ++ [name]) = .ok (.redirected (path ++ [name])) := by
  induction folder generalizing start with
  | nil => cases h
  | cons piece rest ih =>
    rw [List.cons_append]
    cases walk_cons_iff.mp h with
    | stay hstays h =>
      rw [walk_stay hstays]
      exact ih h
    | up hup h =>
      rw [hup, walk_up]
      exact ih h
    | enter hpiece hnode h =>
      rw [walk_directory (hpiece.concat hname) hnode]
      exact ih h
    | follow target hpiece hnode _ houtcome =>
      cases houtcome
      exact walk_cons_iff.mpr (.follow target (hpiece.concat hname) hnode (by simp) (by simp))
    | arrive _ _ _ _ houtcome => cases houtcome

/-- A path leads to a directory if it leads to a place with a directory. -/
theorem directoryAt_eq_ok_iff {fs : FileSystem} {path : Path} {place : Place} :
    fs.directoryAt path = .ok place ↔
      fs.resolve path = .ok place ∧ fs.node? place = some .directory := by
  unfold directoryAt
  cases hplace : fs.resolve path with
  | error cause => simp [bind, Except.bind]
  | ok other =>
    simp only [bind, Except.bind]
    rcases hnode : fs.node? other with _ | ⟨image⟩ | _ | ⟨target⟩ <;>
      simp only [pure, Except.pure, throw, throwThe, MonadExceptOf.throw, reduceCtorEq, false_iff,
        Except.ok.injEq, not_and]
    · rintro rfl
      simp [hnode]
    · rintro rfl
      simp [hnode]
    · constructor
      · rintro rfl
        exact ⟨rfl, hnode⟩
      · exact fun h => h.1
    · rintro rfl
      simp [hnode]

/-- **A name in a directory is at the directory's place**, whatever links lead to the directory. -/
theorem locateFrom_concat {fs : FileSystem} (atEnd : AtEnd) {folder : Path} {directory : Place}
    {name : String} (hname : Path.isName name) (hshort : name.utf8ByteSize ≤ Path.maxNameBytes)
    (hlink : ∀ target, fs.node? (directory ++ [name]) ≠ some (.link target))
    (h : fs.directoryAt folder = .ok directory) :
    fs.locateFrom atEnd maxLinks (folder ++ [name]) = .ok (directory ++ [name]) := by
  obtain ⟨hfolder, hdirectory⟩ := directoryAt_eq_ok_iff.mp h
  have hlast := @walk_name fs atEnd directory name hname (find_eq_ok hshort) hlink
  clear h
  unfold resolve at hfolder
  generalize maxLinks = links at hfolder ⊢
  induction links using Nat.strongRecOn generalizing folder with
  | ind links ih =>
    rcases locateFrom_eq_ok_iff.mp hfolder with harrived | ⟨fewer, other, rfl, hother, hrest⟩
    · rw [← walk_concat atEnd hname harrived hdirectory] at hlast
      exact locateFrom_eq_ok_iff.mpr (.inl hlast)
    · have hgo := ih fewer (Nat.lt_succ_self fewer) hrest
      have hsent := walk_concat_redirected atEnd hname hother
      exact locateFrom_eq_ok_iff.mpr (.inr ⟨fewer, other ++ [name], rfl, hsent, hgo⟩)

end LsmTree.FileSystem
