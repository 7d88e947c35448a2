import Mathlib.Data.List.Nodup
import MediaCatalog.Disk.Listing
import MediaCatalog.Proofs.Disk.Entries
import MediaCatalog.Proofs.Disk.Names

/-!
Which files a listing holds. In a tree whose names can be told from each other
every file is listed once, by the names that lead to it, unless something on the
way is skipped.
-/

namespace MediaCatalog

/-- What there is at a place below. -/
def Node.at? : Node → Place → Option Node
  | .file value, [] => some (.file value)
  | .file _, _ :: _ => none
  | .directory entries, place => Entry.at? entries place

/-- A name that an entry can have: a part of a path, which leads down. -/
def Path.LeadsDown (name : Name) : Prop :=
  IsPart name ∧ name ≠ dotDot

namespace Entry

/-- What there is under the name of an entry. -/
def node : Entry → Node
  | .file _ value => .file value
  | .directory _ entries => .directory entries

mutual

/-- The names of the entry and of all below it lead to them. -/
def Proper : Entry → Prop
  | .file own _ => Path.LeadsDown own
  | .directory own entries => Path.LeadsDown own ∧ AllProper entries

/-- No two entries have one name. -/
def AllProper : List Entry → Prop
  | [] => True
  | entry :: rest => Proper entry ∧ find? rest entry.name = none ∧ AllProper rest

end

variable {entries : List Entry} {entry : Entry} {place : Place} {name : Name} {node : Node}

theorem at?_cons (entry : Entry) (entries : List Entry) (name : Name) (place : Place) :
    at? (entry :: entries) (name :: place) =
      if entry.name = name then entry.node.at? place else at? entries (name :: place) := by
  by_cases hname : entry.name = name
  · subst hname
    rw [if_pos rfl, at?, find?_cons_self]
    cases entry with
    | directory => rfl
    | file => cases place <;> rfl
  · rw [if_neg hname, at?, at?, find?_cons_ne entry entries hname]

theorem at?_of_none (hnone : find? entries name = none) (place : Place) :
    at? entries (name :: place) = none := by
  rw [at?, hnone]

/-- What is below a place is told by what is there. -/
theorem at?_append (hat : at? entries place = some node) (below : Place) :
    at? entries (place ++ below) = node.at? below := by
  induction place generalizing entries with
  | nil =>
      obtain rfl : Node.directory entries = node := Option.some.inj hat
      rfl
  | cons name place ih =>
      rw [List.cons_append, at?]
      rw [at?] at hat
      split at hat
      · exact ih hat
      · split at hat
        · rename_i hlast
          obtain rfl := Option.some.inj hat
          obtain rfl : place = [] := List.isEmpty_iff.mp hlast
          cases below <;> rfl
        · cases hat
      · cases hat

theorem leadsDown_of_proper (hproper : Proper entry) : Path.LeadsDown entry.name := by
  cases entry with
  | file => exact hproper
  | directory => exact hproper.1

end Entry

/-- What is below has proper names. -/
def Node.Proper : Node → Prop
  | .file _ => True
  | .directory entries => Entry.AllProper entries

namespace Entry

variable {entries : List Entry} {entry : Entry} {place : Place} {found : Node}

/-- Whatever there is, it could be an entry. -/
theorem exists_node (node : Node) : ∃ entry : Entry, entry.node = node :=
  ⟨node.named [], by cases node <;> rfl⟩

theorem proper_node (hproper : Proper entry) : entry.node.Proper := by
  cases entry with
  | file => trivial
  | directory => exact hproper.2

mutual

/-- The names that lead somewhere lead down, to where names are proper. -/
theorem proper_at? : ∀ {entries : List Entry} {place : Place}, AllProper entries →
    at? entries place = some found → (∀ name ∈ place, Path.LeadsDown name) ∧ found.Proper
  | entries, [], hproper, hat => by
      obtain rfl : Node.directory entries = found := Option.some.inj hat
      exact ⟨by simp, hproper⟩
  | entry :: rest, name :: place, ⟨hentry, _, hrest⟩, hat => by
      rw [at?_cons] at hat
      split at hat
      · rename_i hname
        obtain ⟨hnames, hfound⟩ := proper_node_at? hentry hat
        refine ⟨?_, hfound⟩
        rw [List.forall_mem_cons, ← hname]
        exact ⟨leadsDown_of_proper hentry, hnames⟩
      · exact proper_at? hrest hat

theorem proper_node_at? : ∀ {entry : Entry} {place : Place}, Proper entry →
    entry.node.at? place = some found → (∀ name ∈ place, Path.LeadsDown name) ∧ found.Proper
  | .file _ _, [], _, hat => by
      obtain rfl := Option.some.inj hat
      exact ⟨by simp, trivial⟩
  | .directory _ _, _, ⟨_, hentries⟩, hat => proper_at? hentries hat

end

end Entry

/-- Nothing is skipped on the way from a path, which itself is on it. -/
def Unskipped (skip : Path → Bool) (path : Path) (names : List Name) : Prop :=
  ∀ front, front <+: names → skip (path.joinNames front) = false

section Unskipped

variable {skip : Path → Bool} {path : Path} {name : Name} {rest : List Name}

theorem unskipped_nil : Unskipped skip path [] ↔ skip path = false := by
  simp [Unskipped, Path.joinNames]

theorem unskipped_cons : Unskipped skip path (name :: rest) ↔
    skip path = false ∧ Unskipped skip (path.join ⟨name⟩) rest := by
  constructor
  · intro hnames
    exact ⟨hnames [] List.nil_prefix,
      fun front hfront => hnames (name :: front) ((List.prefix_cons_inj name).mpr hfront)⟩
  · rintro ⟨hpath, hrest⟩ front hfront
    rcases List.prefix_cons_iff.mp hfront with rfl | ⟨later, rfl, hlater⟩
    · exact hpath
    · exact hrest later hlater

end Unskipped

namespace Entry

variable {skip : Path → Bool} {listed : Path}

mutual

/-- What is listed at an entry is what the names below it lead to. -/
theorem mem_filesAt : ∀ {entry : Entry} {path : Path}, entry.node.Proper →
    (listed ∈ filesAt skip path entry ↔ ∃ names file, entry.node.at? names = some (.file file) ∧
      Unskipped skip path names ∧ listed = path.joinNames names)
  | .file own value, path, _ => by
      rw [filesAt]
      constructor
      · intro hlisted
        split at hlisted
        · cases hlisted
        · rename_i hskip
          exact ⟨[], value, rfl, unskipped_nil.mpr (by simpa using hskip),
            List.mem_singleton.mp hlisted⟩
      · rintro ⟨_ | ⟨name, names⟩, file, hat, hskip, rfl⟩
        · simp [unskipped_nil.mp hskip]
        · cases hat
  | .directory own entries, path, hentries => by
      rw [filesAt]
      cases hskip : skip path with
      | true =>
          simp only [if_true, List.not_mem_nil, false_iff]
          rintro ⟨names, file, -, hnames, -⟩
          exact absurd (hnames [] List.nil_prefix) (by simp [Path.joinNames, hskip])
      | false =>
          rw [if_neg (by simp), mem_filesIn hentries]
          constructor
          · rintro ⟨name, names, file, hat, hnames, rfl⟩
            exact ⟨name :: names, file, hat, unskipped_cons.mpr ⟨hskip, hnames⟩, rfl⟩
          · rintro ⟨_ | ⟨name, names⟩, file, hat, hnames, rfl⟩
            · cases hat
            · exact ⟨name, names, file, hat, (unskipped_cons.mp hnames).2, rfl⟩

theorem mem_filesIn : ∀ {entries : List Entry} {path : Path}, AllProper entries →
    (listed ∈ filesIn skip path entries ↔ ∃ name names file,
      at? entries (name :: names) = some (.file file) ∧
        Unskipped skip (path.join ⟨name⟩) names ∧ listed = path.joinNames (name :: names))
  | [], path, _ => by
      simp [filesIn, at?, find?]
  | entry :: rest, path, ⟨hentry, hfree, hrest⟩ => by
      rw [filesIn, List.mem_append, mem_filesAt (proper_node hentry), mem_filesIn hrest]
      constructor
      · rintro (⟨names, file, hat, hnames, rfl⟩ | ⟨name, names, file, hat, hnames, rfl⟩)
        · exact ⟨entry.name, names, file, by rw [at?_cons, if_pos rfl, hat], hnames, rfl⟩
        · refine ⟨name, names, file, ?_, hnames, rfl⟩
          rw [at?_cons, if_neg, hat]
          rintro rfl
          rw [at?_of_none hfree] at hat
          cases hat
      · rintro ⟨name, names, file, hat, hnames, rfl⟩
        rw [at?_cons] at hat
        split at hat
        · rename_i hname
          subst hname
          exact Or.inl ⟨names, file, hat, hnames, rfl⟩
        · exact Or.inr ⟨name, names, file, hat, hnames, rfl⟩

end

mutual

/-- What is listed at the entries of a directory is told apart by their names. -/
theorem nodup_filesAt : ∀ {entry : Entry} {path : Path}, entry.node.Proper →
    (filesAt skip path entry).Nodup
  | .file _ _, path, _ => by
      rw [filesAt]
      split
      · exact List.nodup_nil
      · exact List.nodup_singleton path
  | .directory _ _, path, hentries => by
      rw [filesAt]
      split
      · exact List.nodup_nil
      · exact nodup_filesIn hentries

theorem nodup_filesIn : ∀ {entries : List Entry} {path : Path}, AllProper entries →
    (filesIn skip path entries).Nodup
  | [], _, _ => List.nodup_nil
  | entry :: rest, path, ⟨hentry, hfree, hrest⟩ => by
      rw [filesIn, List.nodup_append]
      refine ⟨nodup_filesAt (proper_node hentry), nodup_filesIn hrest, ?_⟩
      rintro listed hfirst other hlater rfl
      obtain ⟨names, _, hat, -, hnames⟩ := (mem_filesAt (proper_node hentry)).mp hfirst
      obtain ⟨name, later, _, hother, -, hlater⟩ := (mem_filesIn hrest).mp hlater
      have hdown : ∀ part ∈ entry.name :: names, Path.LeadsDown part := by
        rw [List.forall_mem_cons]
        exact ⟨leadsDown_of_proper hentry, (proper_node_at? hentry hat).1⟩
      have hsame : entry.name :: names = name :: later :=
        Path.joinNames_injective (fun part hpart => (hdown part hpart).1)
          (fun part hpart => ((proper_at? hrest hother).1 part hpart).1) path
          (hnames.symm.trans hlater)
      obtain ⟨rfl, -⟩ := List.cons.inj hsame
      rw [at?_of_none hfree] at hother
      cases hother

end

end Entry

namespace Node

variable {skip : Path → Bool} {path listed : Path} {node : Node}

theorem files_node (skip : Path → Bool) (path : Path) (entry : Entry) :
    entry.node.files skip path = Entry.filesAt skip path entry := by
  cases entry <;> rfl

/-- The files at and below a path are listed by the names that lead to them. -/
theorem mem_files (hproper : node.Proper) :
    listed ∈ node.files skip path ↔ ∃ names file, node.at? names = some (.file file) ∧
      Unskipped skip path names ∧ listed = path.joinNames names := by
  obtain ⟨entry, rfl⟩ := Entry.exists_node node
  rw [files_node]
  exact Entry.mem_filesAt hproper

theorem nodup_files (hproper : node.Proper) : (node.files skip path).Nodup := by
  obtain ⟨entry, rfl⟩ := Entry.exists_node node
  rw [files_node]
  exact Entry.nodup_filesAt hproper

/-- Only names that lead down lead below. -/
theorem leadsDown_of_at? (hproper : node.Proper) {names : List Name} {found : Node}
    (hat : node.at? names = some found) : ∀ name ∈ names, Path.LeadsDown name := by
  cases node with
  | file =>
      cases names with
      | nil => simp
      | cons => cases hat
  | directory => exact (Entry.proper_at? hproper hat).1

end Node

/-- All names on the disk are proper. -/
def Disk.Proper (disk : Disk) : Prop :=
  Entry.AllProper disk.entries

theorem Disk.Proper.at? {disk : Disk} (hproper : disk.Proper) {place : Place} {node : Node}
    (hat : disk.at? place = some node) : node.Proper :=
  (Entry.proper_at? hproper hat).2

end MediaCatalog
