import LsmTree.FileSystem.Tree

/-!
# Proofs/FileSystem/Ways — what the way to a place depends on

A way leads through directories and links only.  So a path that goes on behind a folder leads
through that folder (`FileSystem.locateFrom_prefix`), and a file system in which every directory and
link is one of another leads to the same folders (`FileSystem.directoryAt_of_within`); files may
come and go.  A folder that is there needs no making (`FileSystem.makeDirectories_of_directoryAt`).
-/

namespace LsmTree.FileSystem

variable {fs after : FileSystem} {folder path : Path} {place directory : Place}

/-! ## Folders on the way -/

/-- The place and everything above it are directories. -/
def Rooted (fs : FileSystem) (place : Place) : Prop :=
  ∀ above, above <+: place → fs.node? above = some .directory

theorem rooted_nil (fs : FileSystem) : fs.Rooted [] := fun above h => by
  rw [List.prefix_nil.mp h, node?_nil]

theorem Rooted.node? (h : fs.Rooted place) : fs.node? place = some .directory :=
  h place List.prefix_rfl

theorem Rooted.dropLast (h : fs.Rooted place) : fs.Rooted place.dropLast :=
  fun above habove => h above (habove.trans (List.dropLast_prefix place))

theorem Rooted.concat {name : String} (h : fs.Rooted place)
    (hnode : fs.node? (place ++ [name]) = some .directory) : fs.Rooted (place ++ [name]) := by
  intro above habove
  rcases List.prefix_concat_iff.mp habove with rfl | hprefix
  · exact hnode
  · exact h above hprefix

/-- **A walk behind a folder leads through the folder**: it comes to it and goes on, or it is sent
elsewhere on the way. -/
theorem walk_prefix {atEnd : AtEnd} {rest : Path} {outcome : Walk} (hrest : rest ≠ [])
    (hstart : fs.Rooted place) (h : fs.walk atEnd place (folder ++ rest) = .ok outcome) :
    (∃ directory, fs.walk .follow place folder = .ok (.arrived directory) ∧
      fs.Rooted directory ∧ fs.walk atEnd directory rest = .ok outcome) ∨
    ∃ other, fs.walk .follow place folder = .ok (.redirected other) ∧
      outcome = .redirected (other ++ rest) := by
  induction folder generalizing place with
  | nil => exact .inl ⟨place, rfl, hstart, h⟩
  | cons piece others ih =>
    rw [List.cons_append] at h
    cases walk_cons_iff.mp h with
    | stay hstays h =>
      rw [walk_stay hstays]
      exact ih hstart h
    | up hup h =>
      rw [hup, walk_up]
      exact ih hstart.dropLast h
    | enter hname hnode h =>
      rw [walk_directory hname.follow hnode]
      exact ih (hstart.concat hnode) h
    | follow target hname hnode _ houtcome =>
      refine .inr ⟨_, walk_cons_iff.mpr (.follow target hname.follow hnode (by simp) rfl), ?_⟩
      rw [houtcome, List.append_assoc]
    | arrive _ hnone => simp [hrest] at hnone

/-- **A path behind a folder leads through the folder.** -/
theorem locateFrom_prefix {atEnd : AtEnd} {rest : Path} (hrest : rest ≠ []) {links : Nat}
    (h : fs.locateFrom atEnd links (folder ++ rest) = .ok place) :
    ∃ directory, fs.locateFrom .follow links folder = .ok directory ∧ fs.Rooted directory ∧
      ∃ outcome, fs.walk atEnd directory rest = .ok outcome ∧
        ∀ other, outcome = .arrived other → other = place := by
  induction links using Nat.strongRecOn generalizing folder with
  | ind links ih =>
    obtain ⟨outcome, hwalk⟩ : ∃ outcome, fs.walk atEnd [] (folder ++ rest) = .ok outcome := by
      rcases locateFrom_eq_ok_iff.mp h with harrived | ⟨-, other, -, hother, -⟩
      · exact ⟨_, harrived⟩
      · exact ⟨_, hother⟩
    rcases walk_prefix hrest (rooted_nil fs) hwalk with
      ⟨directory, hfolder, hrooted, hgo⟩ | ⟨other, hfolder, rfl⟩
    · refine ⟨directory, locateFrom_eq_ok_iff.mpr (.inl hfolder), hrooted, outcome, hgo, ?_⟩
      rintro other rfl
      rw [locateFrom, hwalk] at h
      exact Except.ok.inj h
    · rcases locateFrom_eq_ok_iff.mp h with harrived | ⟨fewer, target, rfl, htarget, hlater⟩
      · simp [hwalk] at harrived
      · obtain rfl : other ++ rest = target := by simpa [hwalk] using htarget
        obtain ⟨directory, hother, hgo⟩ := ih fewer (Nat.lt_succ_self fewer) hlater
        exact ⟨directory, locateFrom_eq_ok_iff.mpr (.inr ⟨fewer, other, rfl, hfolder, hother⟩), hgo⟩

/-- A path may begin with a slash or not. -/
theorem directoryAt_blank (fs : FileSystem) (path : Path) :
    fs.directoryAt ("" :: path) = fs.directoryAt path := by
  have hwalk : fs.walk .follow [] ("" :: path) = fs.walk .follow [] path := rfl
  rw [directoryAt, directoryAt, resolve, resolve, locateFrom, hwalk, locateFrom]

/-- **What is found under a name in a folder was found in the folder**, unless a link is there. -/
theorem directoryAt_of_locateFrom {atEnd : AtEnd} {name : String} (hname : Path.isName name)
    (h : fs.locateFrom atEnd maxLinks (folder ++ [name]) = .ok place) :
    ∃ directory, fs.directoryAt folder = .ok directory ∧
      ((∀ target, fs.node? (directory ++ [name]) ≠ some (.link target)) →
        place = directory ++ [name]) := by
  obtain ⟨directory, hfolder, hrooted, outcome, hwalk, hplace⟩ :=
    locateFrom_prefix (List.cons_ne_nil name []) h
  refine ⟨directory, directoryAt_eq_ok_iff.mpr ⟨hfolder, hrooted.node?⟩, fun hlink => ?_⟩
  rw [walk_name hname (find_of_walk hname hwalk) hlink] at hwalk
  exact (hplace _ (Except.ok.inj hwalk).symm).symm

/-! ## Files do not matter -/

/-- Every directory and every link of the first file system is one of the second. -/
def Within (after fs : FileSystem) : Prop :=
  ∀ place node, node.isFile = false → after.node? place = some node → fs.node? place = some node

theorem Within.refl (fs : FileSystem) : fs.Within fs := fun _ _ _ h => h

theorem Within.trans {first second third : FileSystem} (h : first.Within second)
    (h' : second.Within third) : first.Within third :=
  fun place node hnode hfirst => h' place node hnode (h place node hnode hfirst)

theorem within_put (fs : FileSystem) (image : Image) (hplace : place ≠ []) :
    (fs.put place (.file image)).Within fs := by
  intro other node hnode h
  rw [node?_put fs _ other hplace] at h
  split at h
  · obtain rfl := Option.some.inj h
    cases hnode
  · exact h

theorem within_erase (fs : FileSystem) (hplace : place ≠ []) : (fs.erase place).Within fs := by
  intro other node hnode h
  rw [node?_erase fs other hplace] at h
  split at h
  · cases h
  · exact h

theorem walk_of_within {outcome : Walk} (h : after.Within fs)
    (hwalk : after.walk .follow directory path = .ok outcome)
    (hend : ∀ place, outcome = .arrived place → after.node? place = some .directory) :
    fs.walk .follow directory path = .ok outcome := by
  induction path generalizing directory with
  | nil => exact hwalk
  | cons piece rest ih =>
    refine walk_cons_iff.mpr ?_
    cases walk_cons_iff.mp hwalk with
    | stay hstays hgo => exact .stay hstays (ih hgo)
    | up hup hgo => exact .up hup (ih hgo)
    | enter hname hnode hgo => exact .enter hname (h _ _ rfl hnode) (ih hgo)
    | follow target hname hnode hfollowed houtcome =>
      exact .follow target hname (h _ _ rfl hnode) hfollowed houtcome
    | arrive _ _ hnode _ houtcome => exact absurd (hend _ houtcome) hnode

/-- **Fewer directories and links lead to no other folders.** -/
theorem directoryAt_of_within (h : after.Within fs)
    (hdirectory : after.directoryAt path = .ok place) : fs.directoryAt path = .ok place := by
  obtain ⟨hplace, hnode⟩ := directoryAt_eq_ok_iff.mp hdirectory
  refine directoryAt_eq_ok_iff.mpr ⟨?_, h _ _ rfl hnode⟩
  clear hdirectory
  unfold resolve at hplace ⊢
  generalize maxLinks = links at hplace ⊢
  induction links using Nat.strongRecOn generalizing path with
  | ind links ih =>
    rcases locateFrom_eq_ok_iff.mp hplace with harrived | ⟨fewer, other, rfl, hother, hrest⟩
    · have hwalk := walk_of_within h harrived (by rintro _ ⟨⟩; exact hnode)
      exact locateFrom_eq_ok_iff.mpr (.inl hwalk)
    · have hwalk := walk_of_within h hother (by rintro _ ⟨⟩)
      have hgo := ih fewer (Nat.lt_succ_self fewer) hrest
      exact locateFrom_eq_ok_iff.mpr (.inr ⟨fewer, other, rfl, hwalk, hgo⟩)

/-! ## Making a folder that is there -/

/-- A path without a name at its end has only slashes; one with a name has only slashes behind. -/
theorem split_cases (path : Path) :
    path.split = ([], .root) ∨
    ∃ last blanks ending, path = path.split.1 ++ last :: blanks ∧ path.split.2 = ending ∧
      (∀ name slash, ending = .name name slash → last = name ∧ Path.isName name) ∧
      ending ≠ .root := by
  unfold Path.split
  have hpath : path.reverse.takeWhile (· = "") ++ path.reverse.dropWhile (· = "") = path.reverse :=
    List.takeWhile_append_dropWhile
  rcases hdrop : path.reverse.dropWhile (· = "") with _ | ⟨last, above⟩
  · exact .inl rfl
  · right
    rw [hdrop] at hpath
    have hblank : last ≠ "" := by
      have hmore : path.reverse.dropWhile (· = "") ≠ [] := by simp [hdrop]
      have hhead := List.head_dropWhile_not (· = "") hmore
      simpa [hdrop] using hhead
    refine ⟨last, (path.reverse.takeWhile (· = "")).reverse, _, ?_, rfl, ?_, ?_⟩
    · have h := congrArg List.reverse hpath
      simpa using h.symm
    · intro name slash hending
      by_cases hhere : last = Path.here
      · simp [hhere] at hending
      by_cases hup : last = Path.up
      · simp only [if_neg hhere, if_pos hup, reduceCtorEq] at hending
      · simp only [hhere, hup, if_false, Path.Ending.name.injEq] at hending
        obtain ⟨rfl, -⟩ := hending
        exact ⟨rfl, by simp [Path.isName, Path.stays, hblank, hhere, hup]⟩
    · dsimp only
      split
      · simp
      · split <;> simp

/-- A directory is not made again. -/
theorem makeDirectory_of_directoryAt (h : fs.directoryAt path = .ok place) :
    fs.makeDirectory path = .error .alreadyExists := by
  obtain ⟨hplace, hnode⟩ := directoryAt_eq_ok_iff.mp h
  rcases split_cases path with hsplit | ⟨last, blanks, ending, hpath, hending, hname, hroot⟩
  · simp [makeDirectory, locate, hsplit, directoryAt, resolve, locateFrom, walk, bind, Except.bind,
      pure, Except.pure, throw, throwThe, MonadExceptOf.throw]
  · rw [hpath] at hplace
    obtain ⟨directory, hfolder, hrooted, outcome, hwalk, harrived⟩ :=
      locateFrom_prefix (List.cons_ne_nil last blanks) hplace
    have hdirectory : fs.directoryAt path.split.1 = .ok directory :=
      directoryAt_eq_ok_iff.mpr ⟨hfolder, hrooted.node?⟩
    have hlocate : fs.locate path = .ok (directory, ending) := by
      simp [locate, hdirectory, hending, bind, Except.bind, pure, Except.pure]
    unfold makeDirectory
    rw [hlocate]
    rcases ending with ⟨name, slash⟩ | _ | _ | _
    · obtain ⟨rfl, hname⟩ := hname name slash rfl
      have hfind := find_of_walk hname hwalk
      rcases hthere : fs.node? (directory ++ [last]) with _ | node
      · -- a way that ends at nothing has not come to the folder
        have hnowhere := walk_of_none hname hthere hwalk
        rw [← harrived _ hnowhere, hthere] at hnode
        cases hnode
      · simp [hfind, hthere, bind, Except.bind, throw, throwThe, MonadExceptOf.throw]
    · rfl
    · rfl
    · exact absurd rfl hroot

/-- **Making the directories of a folder that is there changes nothing.** -/
theorem makeDirectories_of_directoryAt (h : fs.directoryAt path = .ok place) :
    fs.makeDirectories path = (.ok (), fs) := by
  unfold makeDirectories
  rw [makeDirectory_of_directoryAt h]
  simp [orPresent, isDirectory, h, Except.isOk, Except.toBool]

end LsmTree.FileSystem
