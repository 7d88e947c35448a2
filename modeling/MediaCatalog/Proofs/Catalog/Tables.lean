import Mathlib.Data.List.Nodup
import MediaCatalog.Identity.Maintenance

/-!
What the writes to a catalog leave in its tables. A record is found by its
path, so the rows of a table are told by membership and by look-up, and each
write is described once in both ways. Marks of missing files are set aside by
`FileRecord.cleared`: the cleaner changes nothing else.
-/

namespace MediaCatalog

/-- The record with its file taken to be there. -/
def FileRecord.cleared (file : FileRecord) : FileRecord :=
  { file with missing := false }

theorem FileRecord.cleared_of_unmarked {file : FileRecord} (hunmarked : file.missing = false) :
    file.cleared = file := by
  simp [FileRecord.cleared, ← hunmarked]

namespace Catalog

variable (catalog : Catalog)

/-- The primary key of the table of files. -/
def PathsDistinct : Prop :=
  (catalog.files.map FileRecord.path).Nodup

/-- Every content on record has a canonical identifier. -/
def AllSettled : Prop :=
  ∀ file ∈ catalog.files, (catalog.canonical? file.hash).isSome

section Rows

variable {catalog : Catalog}

theorem eq_of_path_eq (hpaths : catalog.PathsDistinct) {a b : FileRecord}
    (ha : a ∈ catalog.files) (hb : b ∈ catalog.files) (hpath : a.path = b.path) : a = b :=
  List.inj_on_of_nodup_map hpaths ha hb hpath

theorem mem_of_record? {path : String} {file : FileRecord}
    (hfile : catalog.record? path = some file) : file ∈ catalog.files :=
  List.mem_of_find?_eq_some hfile

theorem path_of_record? {path : String} {file : FileRecord}
    (hfile : catalog.record? path = some file) : file.path = path := by
  simpa using List.find?_some hfile

theorem path_ne_of_record?_none {path : String} (hnone : catalog.record? path = none) :
    ∀ file ∈ catalog.files, file.path ≠ path := by
  intro file hfile
  simpa using List.find?_eq_none.mp hnone file hfile

theorem record?_of_mem (hpaths : catalog.PathsDistinct) {file : FileRecord}
    (hfile : file ∈ catalog.files) : catalog.record? file.path = some file := by
  cases hfound : catalog.record? file.path with
  | none => exact absurd rfl (path_ne_of_record?_none hfound file hfile)
  | some found =>
      have hpath : found.path = file.path := path_of_record? hfound
      rw [eq_of_path_eq hpaths (mem_of_record? hfound) hfile hpath]

theorem record?_eq_some_iff (hpaths : catalog.PathsDistinct) {path : String}
    {file : FileRecord} :
    catalog.record? path = some file ↔ file ∈ catalog.files ∧ file.path = path := by
  constructor
  · intro hfile
    exact ⟨mem_of_record? hfile, path_of_record? hfile⟩
  · rintro ⟨hfile, rfl⟩
    exact record?_of_mem hpaths hfile

theorem mem_withHash {hash : String} {file : FileRecord} :
    file ∈ catalog.withHash hash ↔ file ∈ catalog.files ∧ file.hash = hash := by
  simp [withHash]

end Rows

section Writes

@[simp] theorem canonical_addFile (record : FileRecord) :
    (catalog.addFile record).canonical = catalog.canonical := rfl

@[simp] theorem tags_addFile (record : FileRecord) :
    (catalog.addFile record).tags = catalog.tags := rfl

theorem mem_addFile {record file : FileRecord} :
    file ∈ (catalog.addFile record).files ↔ file ∈ catalog.files ∨ file = record.cleared := by
  simp [addFile, FileRecord.cleared]

@[simp] theorem canonical_replaceFile (record : FileRecord) :
    (catalog.replaceFile record).canonical = catalog.canonical := rfl

@[simp] theorem tags_replaceFile (record : FileRecord) :
    (catalog.replaceFile record).tags = catalog.tags := rfl

theorem mem_replaceFile {record file : FileRecord} :
    file ∈ (catalog.replaceFile record).files ↔
      (file ∈ catalog.files ∧ file.path ≠ record.path) ∨
        (file = record.cleared ∧ ∃ old ∈ catalog.files, old.path = record.path) := by
  simp only [replaceFile, List.mem_map]
  constructor
  · rintro ⟨old, hold, rfl⟩
    by_cases hpath : old.path = record.path
    · right
      simp only [hpath, if_true]
      exact ⟨rfl, old, hold, hpath⟩
    · left
      simp only [hpath, if_false]
      exact ⟨hold, hpath⟩
  · rintro (⟨hfile, hpath⟩ | ⟨rfl, old, hold, hpath⟩)
    · exact ⟨file, hfile, by simp [hpath]⟩
    · exact ⟨old, hold, by simp [hpath, FileRecord.cleared]⟩

theorem map_path_replaceFile (record : FileRecord) :
    (catalog.replaceFile record).files.map FileRecord.path =
      catalog.files.map FileRecord.path := by
  simp only [replaceFile, List.map_map]
  apply List.map_congr_left
  intro file _
  by_cases hpath : file.path = record.path <;> simp [hpath]

@[simp] theorem canonical_removeFiles (records : List FileRecord) :
    (catalog.removeFiles records).canonical = catalog.canonical := by
  induction records generalizing catalog with
  | nil => rfl
  | cons record rest ih => exact ih (catalog.removeFile record.path)

@[simp] theorem tags_removeFiles (records : List FileRecord) :
    (catalog.removeFiles records).tags = catalog.tags := by
  induction records generalizing catalog with
  | nil => rfl
  | cons record rest ih => exact ih (catalog.removeFile record.path)

theorem files_removeFiles_sublist (records : List FileRecord) :
    (catalog.removeFiles records).files.Sublist catalog.files := by
  induction records generalizing catalog with
  | nil => exact List.Sublist.refl _
  | cons record rest ih =>
      exact (ih (catalog.removeFile record.path)).trans List.filter_sublist

theorem mem_removeFiles {records : List FileRecord} {file : FileRecord} :
    file ∈ (catalog.removeFiles records).files ↔
      file ∈ catalog.files ∧ ∀ stale ∈ records, file.path ≠ stale.path := by
  induction records generalizing catalog with
  | nil => simp [removeFiles]
  | cons record rest ih =>
      change file ∈ ((catalog.removeFile record.path).removeFiles rest).files ↔ _
      rw [ih]
      simp [removeFile, and_assoc]

/-- A record is found by its path, whatever else is changed of it. -/
theorem find?_map_of_path {change : FileRecord → FileRecord}
    (hpath : ∀ file, (change file).path = file.path) (files : List FileRecord) (path : String) :
    (files.map change).find? (fun file => file.path = path) =
      (files.find? fun file => file.path = path).map change := by
  rw [List.find?_map]
  simp only [Function.comp_def, hpath]

theorem record?_replaceFile (record : FileRecord) :
    (catalog.replaceFile record).record? record.path =
      (catalog.record? record.path).map fun _ => record.cleared := by
  have hsame (file : FileRecord) :
      (if file.path = record.path then record.cleared else file).path = file.path := by
    split
    · rename_i hpath
      exact hpath.symm
    · rfl
  refine (find?_map_of_path hsame catalog.files record.path).trans ?_
  rw [record?]
  cases hfound : catalog.files.find? fun file => file.path = record.path with
  | none => rfl
  | some file =>
      have hpath : file.path = record.path := by simpa using List.find?_some hfound
      rw [Option.map_some, if_pos hpath, Option.map_some]

theorem replaceFile_replaceFile (record : FileRecord) :
    (catalog.replaceFile record).replaceFile record = catalog.replaceFile record := by
  simp only [replaceFile, List.map_map, Catalog.mk.injEq, and_true]
  apply List.map_congr_left
  intro file _
  by_cases hpath : file.path = record.path <;> simp [hpath]

theorem record?_removeFiles {records : List FileRecord} {path : String}
    (hkept : ∀ stale ∈ records, stale.path ≠ path) :
    (catalog.removeFiles records).record? path = catalog.record? path := by
  induction records generalizing catalog with
  | nil => rfl
  | cons record rest ih =>
      have hfirst : (catalog.removeFile record.path).record? path = catalog.record? path := by
        simp only [record?, removeFile, List.find?_filter]
        congr 1
        funext file
        by_cases hpath : file.path = path
        · simp [hpath, (hkept record List.mem_cons_self).symm]
        · simp [hpath]
      rw [← hfirst]
      exact ih _ fun stale hstale => hkept stale (List.mem_cons_of_mem _ hstale)

theorem canonical?_addCanonical (hash key : String) (id : MediaId)
    (hnone : catalog.canonical? hash = none) :
    (catalog.addCanonical hash id).canonical? key =
      if key = hash then some id else catalog.canonical? key := by
  have hfind : catalog.canonical.find? (fun row => row.hash = hash) = none := by
    simpa [canonical?] using hnone
  by_cases hkey : key = hash
  · subst hkey
    simp [canonical?, addCanonical, hfind]
  · have hsym : ¬ hash = key := fun h => hkey h.symm
    simp [canonical?, addCanonical, hkey, hsym]

end Writes

section Marks

@[simp] theorem canonical_setMissing (path : String) (missing : Bool) :
    (catalog.setMissing path missing).2.canonical = catalog.canonical := rfl

@[simp] theorem tags_setMissing (path : String) (missing : Bool) :
    (catalog.setMissing path missing).2.tags = catalog.tags := rfl

theorem find?_map_cleared (files : List FileRecord) (path : String) :
    (files.map FileRecord.cleared).find? (fun file => file.path = path) =
      (files.find? fun file => file.path = path).map FileRecord.cleared :=
  @find?_map_of_path FileRecord.cleared (fun _ => rfl) files path

theorem record?_setMissing (path : String) :
    (catalog.setMissing path false).2.record? path =
      (catalog.record? path).map FileRecord.cleared := by
  have hsame (file : FileRecord) :
      (if file.path = path && file.missing != false then file.cleared else file).path =
        file.path := by
    split <;> rfl
  refine (find?_map_of_path hsame catalog.files path).trans ?_
  rw [record?]
  cases hfound : catalog.files.find? fun file => file.path = path with
  | none => rfl
  | some file =>
      have hpath : file.path = path := by simpa using List.find?_some hfound
      rw [Option.map_some, Option.map_some]
      cases hmissing : file.missing with
      | true => simp [hpath]
      | false => simp [FileRecord.cleared_of_unmarked hmissing]

theorem map_cleared_setMissing (path : String) (missing : Bool) :
    (catalog.setMissing path missing).2.files.map FileRecord.cleared =
      catalog.files.map FileRecord.cleared := by
  simp only [setMissing, List.map_map]
  apply List.map_congr_left
  intro file _
  simp only [Function.comp_apply]
  split <;> rfl

theorem markAll_cons (path : String) (rest : List String) :
    (catalog.markAll (path :: rest)).2 = ((catalog.setMissing path true).2.markAll rest).2 :=
  rfl

@[simp] theorem canonical_markAll (paths : List String) :
    (catalog.markAll paths).2.canonical = catalog.canonical := by
  induction paths generalizing catalog with
  | nil => rfl
  | cons path rest ih => rw [markAll_cons, ih, canonical_setMissing]

theorem map_cleared_markAll (paths : List String) :
    (catalog.markAll paths).2.files.map FileRecord.cleared =
      catalog.files.map FileRecord.cleared := by
  induction paths generalizing catalog with
  | nil => rfl
  | cons path rest ih => rw [markAll_cons, ih, map_cleared_setMissing]

end Marks

end Catalog

end MediaCatalog
