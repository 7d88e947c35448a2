import MediaCatalog.Proofs.Database.Elsewhere
import MediaCatalog.Proofs.Disk.Listing
import MediaCatalog.Workspace.Files

/-!
Which files are listed below a directory. Every one is, once, unless it or a
directory on the way has the name under which libraries keep their databases, or
stands beside the database with a name that begins with the database's. Whether
something stands beside the database is told by the letters of the two paths.
-/

namespace MediaCatalog

section Places

variable {names : List Name} {here root : Path}

theorem Place.follow_append (place : Place) (names later : List Name) :
    place.follow (names ++ later) = (place.follow names).follow later := by
  induction names generalizing place with
  | nil => rfl
  | cons name names ih =>
      rw [List.cons_append, Place.follow, Place.follow]
      split <;> exact ih _

theorem Place.follow_down (hnames : ∀ name ∈ names, Path.LeadsDown name) (place : Place) :
    place.follow names = place ++ names := by
  induction names generalizing place with
  | nil => exact (List.append_nil place).symm
  | cons name names ih =>
      obtain ⟨hname, hrest⟩ := List.forall_mem_cons.mp hnames
      rw [Place.follow, if_neg hname.2, ih hrest, List.append_assoc, List.singleton_append]

/-- Names that lead down lead on from where a path leads. -/
theorem Path.placeFrom_joinNames (hnames : ∀ name ∈ names, Path.LeadsDown name) :
    (root.joinNames names).placeFrom here = root.placeFrom here ++ names := by
  have hparts : ∀ name ∈ names, Path.IsPart name := fun name hname => (hnames name hname).1
  have hstart : Disk.startOf here (root.joinNames names) = Disk.startOf here root := by
    rw [Disk.startOf, Path.isAbsolute_joinNames hparts, Disk.startOf]
  rw [Path.placeFrom, hstart, Path.names_joinNames hparts, Place.follow_append,
    Place.follow_down hnames]
  rfl

end Places

namespace Workspace

open Text

/-- What is passed over in the directory to which some names lead from the root:
what has the name of the directories that libraries have for their databases, and
beside the database whatever has a name that begins with the database's. -/
def PassedOver (store root : Path) (front : List Name) (name : Name) : Prop :=
  name = (Path.ofText Store.directoryName).bytes ∨
    ∃ own, store.fileName? = some own ∧ root.isAbsolute = store.isAbsolute ∧
      root.startsInDot = store.startsInDot ∧ root.names ++ front = store.names.dropLast ∧
      (Utf8.shown name).startsWith (Utf8.shown own) = true

variable {store root : Path} {front : List Name} {name : Name}

theorem sameParts_iff {path other : Path} : path.sameParts other = true ↔
    path.isAbsolute = other.isAbsolute ∧ path.startsInDot = other.startsInDot ∧
      path.names = other.names := by
  simp [Path.sameParts, and_assoc]

theorem parent?_of_fileName? {path : Path} {own : Name} (hown : path.fileName? = some own) :
    ∃ parent, path.parent? = some parent ∧ parent.names = path.names.dropLast ∧
      parent.isAbsolute = path.isAbsolute ∧ parent.startsInDot = path.startsInDot := by
  have hsome : path.names ≠ [] := by
    intro hnone
    simp [Path.fileName?, hnone] at hown
  obtain ⟨parent, hparent⟩ : ∃ parent, path.parent? = some parent := by
    unfold Path.parent?
    rw [if_neg (by simpa using hsome)]
    exact ⟨_, rfl⟩
  exact ⟨parent, hparent, Path.parent?_begins hparent hsome⟩

theorem isStoreFile_join (hfront : ∀ part ∈ front, Path.IsPart part)
    (hname : Path.LeadsDown name) :
    isStoreFile store ((root.joinNames front).join ⟨name⟩) = true ↔
      ∃ own, store.fileName? = some own ∧ root.isAbsolute = store.isAbsolute ∧
        root.startsInDot = store.startsInDot ∧ root.names ++ front = store.names.dropLast ∧
        (Utf8.shown name).startsWith (Utf8.shown own) = true := by
  have hlast := Path.fileName?_join (root.joinNames front) hname.1 hname.2
  obtain ⟨parent, hparent, hparents, habsolute, hdot⟩ := parent?_of_fileName? hlast
  rw [Path.names_join _ hname.1, List.dropLast_concat, Path.names_joinNames hfront] at hparents
  rw [Path.isAbsolute_join _ hname.1, Path.isAbsolute_joinNames hfront] at habsolute
  rw [Path.startsInDot_join _ hname.1, Path.startsInDot_joinNames hfront] at hdot
  unfold isStoreFile
  rw [hlast, hparent]
  cases hown : store.fileName? with
  | none => simp
  | some own =>
      obtain ⟨beside, hbeside, hbesides, hroot, hstore⟩ := parent?_of_fileName? hown
      simp only [hbeside, Bool.and_eq_true, sameParts_iff, hparents, hbesides, habsolute, hroot,
        hdot, hstore, Option.some.injEq, exists_eq_left']
      exact and_comm.trans (by simp only [and_assoc])

theorem isSkipped_join (hfront : ∀ part ∈ front, Path.IsPart part)
    (hname : Path.LeadsDown name) :
    isSkipped store ((root.joinNames front).join ⟨name⟩) = true ↔
      PassedOver store root front name := by
  rw [isSkipped, Path.fileName?_join _ hname.1 hname.2, Bool.or_eq_true,
    isStoreFile_join hfront hname]
  simp [PassedOver]

/-- Nothing is skipped on the way to what is not passed over. -/
theorem unskipped_iff {names : List Name} (hnot : isSkipped store root = false)
    (hnames : ∀ name ∈ names, Path.LeadsDown name) :
    Unskipped (isSkipped store) root names ↔
      ∀ front name rest, names = front ++ name :: rest → ¬ PassedOver store root front name := by
  constructor
  · rintro hkept front name rest rfl
    have hfront : ∀ part ∈ front, Path.IsPart part :=
      fun part hpart => (hnames part (List.mem_append_left _ hpart)).1
    rw [← isSkipped_join hfront (hnames name (by simp)), Bool.not_eq_true]
    have hprefix : front ++ [name] <+: front ++ name :: rest :=
      ⟨rest, by rw [List.append_assoc, List.singleton_append]⟩
    have hskip := hkept _ hprefix
    rwa [Path.joinNames_append] at hskip
  · rintro hkept _ ⟨rest, rfl⟩
    rename_i before
    rcases List.eq_nil_or_concat' before with rfl | ⟨front, name, rfl⟩
    · exact hnot
    · rw [List.append_assoc, List.singleton_append] at hkept hnames
      have hfront : ∀ part ∈ front, Path.IsPart part :=
        fun part hpart => (hnames part (List.mem_append_left _ hpart)).1
      have hskip := hkept front name rest rfl
      rw [← isSkipped_join hfront (hnames name (by simp)), Bool.not_eq_true] at hskip
      rwa [Path.joinNames_append]

section Listing

variable {ws : Workspace} {store : Store} {node : Node} {path : Path}
  (hroot : ws.disk.find? ws.here root = .ok node)

include hroot

/-- The files that are listed, in whatever order. -/
theorem perm_filesBelow :
    (ws.filesBelow store root).Perm (node.files (isSkipped store.path) root) := by
  unfold filesBelow
  rw [hroot]
  exact List.mergeSort_perm _ _

variable (hproper : ws.disk.Proper)

include hproper

theorem proper_of_find? : node.Proper := by
  obtain ⟨place, -, hat⟩ := Disk.find?_eq_ok.mp hroot
  exact hproper.at? hat

theorem nodup_filesBelow : (ws.filesBelow store root).Nodup := by
  rw [(perm_filesBelow hroot).nodup_iff]
  exact Node.nodup_files (proper_of_find? hroot hproper)

theorem mem_filesBelow (hnot : isSkipped store.path root = false) :
    path ∈ ws.filesBelow store root ↔ ∃ names file, node.at? names = some (.file file) ∧
      path = root.joinNames names ∧ ∀ front name rest, names = front ++ name :: rest →
        ¬ PassedOver store.path root front name := by
  have hnode := proper_of_find? hroot hproper
  rw [(perm_filesBelow hroot).mem_iff, Node.mem_files hnode]
  constructor
  · rintro ⟨names, file, hat, hkept, rfl⟩
    exact ⟨names, file, hat, rfl,
      (unskipped_iff hnot (Node.leadsDown_of_at? hnode hat)).mp hkept⟩
  · rintro ⟨names, file, hat, rfl, hkept⟩
    exact ⟨names, file, hat, (unskipped_iff hnot (Node.leadsDown_of_at? hnode hat)).mpr hkept, rfl⟩

theorem joinNames_of_listed (hlisted : path ∈ ws.filesBelow store root) :
    ∃ names, (∀ name ∈ names, Path.LeadsDown name) ∧ path = root.joinNames names := by
  have hnode := proper_of_find? hroot hproper
  rw [(perm_filesBelow hroot).mem_iff, Node.mem_files hnode] at hlisted
  obtain ⟨names, file, hat, -, hpath⟩ := hlisted
  exact ⟨names, Node.leadsDown_of_at? hnode hat, hpath⟩

/-- The path by which a file is listed has the size and time of this file. -/
theorem stat_of_listed {names : List Name} {file : File} {stat : Stat}
    (hat : node.at? names = some (.file file))
    (hstat : ws.disk.stat ws.here (root.joinNames names) = .ok stat) :
    stat = Disk.statOf (some file) := by
  obtain ⟨place, hplace, hnode⟩ := Disk.find?_eq_ok.mp hroot
  obtain ⟨found, face, hfound, hface, rfl⟩ := Disk.stat_eq_ok.mp hstat
  have hnames := Node.leadsDown_of_at? (hproper.at? hnode) hat
  have hbelow : found = place ++ names := by
    rw [Disk.place?_placeFrom hfound, Path.placeFrom_joinNames hnames, Disk.place?_placeFrom hplace]
  have hthere : ws.disk.at? found = some (.file file) := by
    rw [hbelow, Disk.at?, Entry.at?_append hnode, hat]
  rw [Disk.face?_eq_file.mpr hthere] at hface
  exact congrArg Disk.statOf (Option.some.inj hface).symm

end Listing

end Workspace

end MediaCatalog
