import Mathlib.Data.List.Basic
import MediaCatalog.Proofs.Disk.Entries

/-!
What lies beside a database does not touch it. Setting or removing something
changes what there is at no other place of the same directory, and the journal,
the log and the shared memory of a database lie in its directory under longer
names. So the tables in a file outlast all that becomes of the files that go
with it.
-/

namespace MediaCatalog

open Text

namespace Entry

variable {entries : List Entry} {node : Option Node} {name other : Name}

theorem name_named (name : Name) (node : Node) : (node.named name).name = name := by
  cases node <;> rfl

theorem find?_map_ne (entries : List Entry) (new : Entry) (hne : new.name ≠ name) :
    find? (entries.map fun entry => if entry.name = new.name then new else entry) name =
      find? entries name := by
  induction entries with
  | nil => rfl
  | cons entry rest ih =>
      by_cases hnew : entry.name = new.name
      · have hentry : entry.name ≠ name := hnew ▸ hne
        rw [List.map_cons, if_pos hnew, find?_cons_ne new _ hne, find?_cons_ne entry _ hentry]
        exact ih
      · rw [List.map_cons, if_neg hnew]
        by_cases hname : entry.name = name
        · subst hname
          rw [find?_cons_self, find?_cons_self]
        · rw [find?_cons_ne entry _ hname, find?_cons_ne entry _ hname]
          exact ih

theorem find?_put_ne (entries : List Entry) (new : Entry) (hne : new.name ≠ name) :
    find? (put entries new) name = find? entries name := by
  unfold put
  split
  · exact find?_map_ne entries new hne
  · cases hfound : find? entries name with
    | none =>
        rw [find?_append hfound, find?_cons_ne new [] hne]
        rfl
    | some entry =>
        unfold find? at hfound ⊢
        rw [List.find?_append, hfound, Option.some_or]

theorem find?_put_self (entries : List Entry) (new : Entry) :
    find? (put entries new) new.name = some new := by
  by_cases hfree : find? entries new.name = none
  · rw [put_of_none hfree, find?_append hfree, find?_cons_self]
  · have htaken : (entries.any fun entry => entry.name = new.name) = true := by
      simpa [find?] using hfree
    unfold put
    rw [if_pos htaken]
    clear hfree
    induction entries with
    | nil => simp at htaken
    | cons entry rest ih =>
        by_cases hname : entry.name = new.name
        · rw [List.map_cons, if_pos hname, find?_cons_self]
        · rw [List.map_cons, if_neg hname, find?_cons_ne entry _ hname]
          exact ih (by simpa [hname] using htaken)

theorem find?_drop_ne (entries : List Entry) (hne : other ≠ name) :
    find? (drop entries other) name = find? entries name := by
  unfold find? drop
  rw [List.find?_filter]
  congr 1
  funext entry
  by_cases hname : entry.name = name
  · simp [hname, hne.symm]
  · simp [hname]

/-- What is in the directory of a name. -/
def inside (entries : List Entry) (name : Name) : List Entry :=
  match find? entries name with
  | some (.directory _ inner) => inner
  | _ => []

theorem at?_inside (entries : List Entry) (first : Name) {place : Place} (hplace : place ≠ []) :
    at? entries (first :: place) = at? (inside entries first) place := by
  obtain ⟨next, place, rfl⟩ := List.exists_cons_of_ne_nil hplace
  unfold inside
  rw [at?]
  cases find? entries first with
  | none => rfl
  | some entry => cases entry <;> rfl

theorem at?_setAt_inside (entries : List Entry) (node : Option Node) (first : Name)
    {below : Place} (hbelow : below ≠ []) (place : Place) :
    at? (setAt entries node (first :: below)) (first :: place) =
      at? (setAt (inside entries first) node below) place := by
  obtain ⟨next, below, rfl⟩ := List.exists_cons_of_ne_nil hbelow
  change at? (put entries (.directory first (setAt (inside entries first) node (next :: below))))
    (first :: place) = _
  have hfound : find? (put entries
      (.directory first (setAt (inside entries first) node (next :: below)))) first = _ :=
    find?_put_self entries _
  rw [at?, hfound]

/-- The induction is on the names that the two places have in common. -/
theorem at?_setAt_sibling (hne : other ≠ name) (front : Place) :
    at? (setAt entries node (front ++ [other])) (front ++ [name]) =
      at? entries (front ++ [name]) := by
  induction front generalizing entries with
  | nil =>
      have hfound : find? (setAt entries node [other]) name = find? entries name := by
        cases node with
        | none => exact find?_drop_ne entries hne
        | some node => exact find?_put_ne entries _ (by rwa [name_named])
      simp only [List.nil_append, at?, hfound]
  | cons first front ih =>
      have hother : front ++ [other] ≠ [] := by simp
      have hname : front ++ [name] ≠ [] := by simp
      rw [List.cons_append, List.cons_append, at?_setAt_inside entries node first hother,
        at?_inside entries first hname]
      exact ih

theorem at?_setAt_self (node : Node) (front : Place) (name : Name) :
    at? (setAt entries (some node) (front ++ [name])) (front ++ [name]) = some node := by
  induction front generalizing entries with
  | nil =>
      have hfound := find?_put_self entries (node.named name)
      rw [name_named] at hfound
      simp only [List.nil_append, setAt, at?, hfound]
      cases node <;> rfl
  | cons first front ih =>
      have hname : front ++ [name] ≠ [] := by simp
      rw [List.cons_append, at?_setAt_inside entries (some node) first hname]
      exact ih

end Entry

namespace Place

/-- The files that go with a database. -/
def companions (place : Place) : List Place :=
  [place.journal, place.log, place.sharedMemory]

@[simp] theorem mem_companions {place companion : Place} :
    companion ∈ place.companions ↔
      companion = place.journal ∨ companion = place.log ∨ companion = place.sharedMemory := by
  simp [companions]

theorem companion_beside {place companion : Place} (hcompanion : companion ∈ place.companions) :
    ∃ ending, Utf8.encode ending ≠ [] ∧ companion = place.beside ending := by
  have hendings : Utf8.encode "-journal" ≠ [] ∧ Utf8.encode "-wal" ≠ [] ∧
      Utf8.encode "-shm" ≠ [] := by decide +kernel
  rcases mem_companions.mp hcompanion with rfl | rfl | rfl
  · exact ⟨_, hendings.1, rfl⟩
  · exact ⟨_, hendings.2.1, rfl⟩
  · exact ⟨_, hendings.2.2, rfl⟩

end Place

/-- The tables in a file, if it holds a database that has them. -/
def Content.tables? : Content → Option Catalog
  | .plain _ => none
  | .database tables _ => tables

theorem Content.tables?_of_isBlank {content : Content} (hblank : content.isBlank = true) :
    content.tables? = none := by
  cases content with
  | plain bytes => rfl
  | database tables journal => cases hblank

namespace Disk

/-- The tables of the database in the file at a place. -/
def tables? (disk : Disk) (place : Place) : Option Catalog :=
  match disk.at? place with
  | some (.file file) => file.content.tables?
  | _ => none

variable {disk : Disk} {place : Place}

theorem tables?_of_file {file : File} (hat : disk.at? place = some (.file file)) :
    disk.tables? place = file.content.tables? := by
  simp only [tables?, hat]

theorem tables?_of_none (hat : disk.at? place = none) : disk.tables? place = none := by
  simp only [tables?, hat]

/-- Tables that are written over themselves are there afterwards. -/
theorem tables?_rewritten {tables : Option Catalog} (htables : disk.tables? place = tables)
    {journal : Journal} {modified : Int} {holder : Option Holder} :
    (disk.setAt place (some (.file ⟨.database tables journal, modified, holder⟩))).tables? place =
      tables := by
  rcases List.eq_nil_or_concat' place with rfl | ⟨front, name, rfl⟩
  · exact htables
  · simp only [tables?, at?, setAt, Entry.at?_setAt_self, Content.tables?]

/-- Tables that are written over others take their place. -/
theorem tables?_overwritten {old catalog : Catalog} (hold : disk.tables? place = some old)
    {journal : Journal} {modified : Int} {holder : Option Holder} :
    (disk.setAt place
      (some (.file ⟨.database (some catalog) journal, modified, holder⟩))).tables? place =
        some catalog := by
  rcases List.eq_nil_or_concat' place with rfl | ⟨front, name, rfl⟩
  · cases hold
  · simp only [tables?, at?, setAt, Entry.at?_setAt_self, Content.tables?]

/-- Making a file with bytes in it where there is none gives no tables. -/
theorem tables?_makeFile_self (bytes : ByteArray) (now : Int) :
    (disk.makeFile place bytes now).tables? place = disk.tables? place := by
  unfold makeFile
  cases hat : disk.at? place with
  | some node => rfl
  | none =>
      have hplace : place ≠ [] := by
        rintro rfl
        cases hat
      obtain ⟨front, name, rfl⟩ := (List.eq_nil_or_concat' place).resolve_left hplace
      rw [tables?_of_none hat]
      simp only [tables?, at?, setAt, Entry.at?_setAt_self, Content.tables?]

section Beside

/-- Nothing that is done at a longer name in its directory reaches a database. -/
theorem tables?_setAt_beside {ending : String} (hending : Utf8.encode ending ≠ [])
    (node : Option Node) :
    (disk.setAt (place.beside ending) node).tables? place = disk.tables? place := by
  rcases List.eq_nil_or_concat' place with rfl | ⟨front, name, rfl⟩
  · rfl
  · have hbeside : Place.beside (front ++ [name]) ending =
        front ++ [name ++ Utf8.encode ending] := by
      simp [Place.beside]
    have hne : name ++ Utf8.encode ending ≠ name := by simpa using hending
    have hat : Entry.at? (Entry.setAt disk.entries node (front ++ [name ++ Utf8.encode ending]))
        (front ++ [name]) = Entry.at? disk.entries (front ++ [name]) :=
      Entry.at?_setAt_sibling hne front
    simp only [tables?, at?, setAt, hbeside, hat]

variable {companion : Place}

theorem tables?_setAt_companion (hcompanion : companion ∈ place.companions)
    (node : Option Node) : (disk.setAt companion node).tables? place = disk.tables? place := by
  obtain ⟨ending, hending, rfl⟩ := Place.companion_beside hcompanion
  exact tables?_setAt_beside hending node

theorem tables?_removeFile (hcompanion : companion ∈ place.companions) :
    (disk.removeFile companion).tables? place = disk.tables? place := by
  unfold removeFile
  split
  · exact tables?_setAt_companion hcompanion none
  · rfl

theorem tables?_makeFile (hcompanion : companion ∈ place.companions) (bytes : ByteArray)
    (now : Int) :
    (disk.makeFile companion bytes now).tables? place = disk.tables? place := by
  unfold makeFile
  split
  · exact tables?_setAt_companion hcompanion _
  · rfl

end Beside

end Disk

end MediaCatalog
