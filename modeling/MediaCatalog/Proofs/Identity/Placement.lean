import MediaCatalog.Proofs.Catalog.Tables
import MediaCatalog.Proofs.Identity.Issue

/-!
What becomes of a path in one transaction, before its content is settled. The
path is left with one new record, which comes by its own identifier in one of
five ways, and some records of files that are not there give way to it. A path
that is new to the catalog and one that was on record are described alike.
-/

namespace MediaCatalog.Registry

/-- How the new record of a path comes by its own identifier, which records
give way, and what is left of the supply. The first record is the one that the
path had before. -/
inductive Allotment (present : String → Bool) (before : Registry) :
    Option FileRecord → FileRecord → List FileRecord → IdSupply → Prop where
  /-- From the vanished files with its content, which agree on one. -/
  | adopted {new : FileRecord}
      (hsole : soleId? (before.vanished present new.hash) = some new.id) :
      Allotment present before none new (before.vanished present new.hash) before.supply
  /-- Fresh, for a path that was not on record. -/
  | issued {new : FileRecord} (hid : new.id = before.fresh.1) :
      Allotment present before none new [] before.fresh.2.supply
  /-- From the content it had, of which no other file is left. -/
  | takenOver {old new : FileRecord}
      (hcanonical : before.catalog.canonical? old.hash = some new.id)
      (hother : new.id ≠ old.id)
      (halone : ∀ file ∈ before.companions old, present file.path = false) :
      Allotment present before (some old) new (before.companions old) before.supply
  /-- Fresh, since a companion stays behind with the old content. -/
  | parted {old new : FileRecord}
      (hcanonical : before.catalog.canonical? old.hash = some old.id)
      (hshared : ∃ file ∈ before.companions old, present file.path = true)
      (hchanged : new.hash ≠ old.hash) (hid : new.id = before.fresh.1) :
      Allotment present before (some old) new [] before.fresh.2.supply
  /-- Its own. If the content changed, that was canonical for the old content
  exactly if no companion stays behind. -/
  | kept {old new : FileRecord} (hid : new.id = old.id)
      (hreason : new.hash ≠ old.hash → ∀ id, before.catalog.canonical? old.hash = some id →
        (id = old.id ↔ ∀ file ∈ before.companions old, present file.path = false)) :
      Allotment present before (some old) new [] before.supply

/-- The table of files once `new` stands for a path and `gone` gave way. -/
structure Placement (present : String → Bool) (before after : Registry)
    (old? : Option FileRecord) (new : FileRecord) (gone : List FileRecord) : Prop where
  allotment : Allotment present before old? new gone after.supply
  files : ∀ file, file ∈ after.catalog.files ↔
    file = new ∨ (file ∈ before.catalog.files ∧ file.path ≠ new.path ∧
      ∀ stale ∈ gone, file.path ≠ stale.path)
  paths : after.catalog.PathsDistinct
  tags : after.catalog.tags = before.catalog.tags

section Settle

variable (registry : Registry) (hash : String) (own : MediaId)

@[simp] theorem files_settle :
    (registry.settle hash own).2.catalog.files = registry.catalog.files := by
  unfold settle
  split <;> rfl

@[simp] theorem tags_settle :
    (registry.settle hash own).2.catalog.tags = registry.catalog.tags := by
  unfold settle
  split <;> rfl

@[simp] theorem supply_settle : (registry.settle hash own).2.supply = registry.supply := by
  unfold settle
  split <;> rfl

theorem canonical_settle :
    (registry.settle hash own).2.catalog.canonical =
      if (registry.catalog.canonical? hash).isSome then registry.catalog.canonical
      else registry.catalog.canonical ++ [⟨hash, own⟩] := by
  unfold settle
  split <;> simp_all [Catalog.addCanonical]

/-- The canonical identifiers after a content was settled: those there were,
and one more if it had none. -/
theorem canonical?_settle (key : String) :
    (registry.settle hash own).2.catalog.canonical? key =
      if key = hash then some ((registry.catalog.canonical? hash).getD own)
      else registry.catalog.canonical? key := by
  unfold settle
  split
  · rename_i id hid
    by_cases hkey : key = hash <;> simp [hkey, hid]
  · rename_i hnone
    rw [Catalog.canonical?_addCanonical _ _ _ _ hnone]
    simp [hnone]

theorem settle_answer :
    (registry.settle hash own).1 = (registry.catalog.canonical? hash).getD own := by
  unfold settle
  split <;> simp_all

/-- To settle a content only the table of canonical identifiers is looked at. -/
theorem settle_congr {registry other : Registry}
    (hcanonical : registry.catalog.canonical = other.catalog.canonical) :
    (registry.settle hash own).1 = (other.settle hash own).1 ∧
      (registry.settle hash own).2.catalog.canonical =
        (other.settle hash own).2.catalog.canonical := by
  have hlook : registry.catalog.canonical? hash = other.catalog.canonical? hash := by
    simp only [Catalog.canonical?, hcanonical]
  rw [settle_answer, settle_answer, canonical_settle, canonical_settle, hlook, hcanonical]
  exact ⟨rfl, rfl⟩

end Settle

section Place

variable {present : String → Bool} {before : Registry}

theorem soleId?_eq_some {records : List FileRecord} {id : MediaId}
    (hsole : soleId? records = some id) :
    records ≠ [] ∧ ∀ record ∈ records, record.id = id := by
  unfold soleId? at hsole
  split at hsole
  · rename_i sole hids
    obtain rfl : sole = id := by simpa using hsole
    have hmem (other : MediaId) : other ∈ records.map FileRecord.id ↔ other = sole := by
      rw [← List.mem_eraseDups, hids, List.mem_singleton]
    constructor
    · rintro rfl
      simpa using (hmem sole).mpr rfl
    · intro record hrecord
      exact (hmem record.id).mp (List.mem_map_of_mem hrecord)
  · simp at hsole

theorem mem_vanished {hash : String} {file : FileRecord} :
    file ∈ before.vanished present hash ↔
      file ∈ before.catalog.files ∧ file.hash = hash ∧ present file.path = false := by
  simp [vanished, Catalog.mem_withHash, and_assoc]

theorem mem_companions {old file : FileRecord} :
    file ∈ before.companions old ↔
      file ∈ before.catalog.files ∧ file.hash = old.hash ∧ file.path ≠ old.path := by
  simp [companions, Catalog.mem_withHash, and_assoc]

/-- Whatever is changed of a record, but for its path, its companions are the same. -/
theorem companions_map (registry : Registry) {old : FileRecord}
    {change : FileRecord → FileRecord} (hother : ∀ file, file.path ≠ old.path → change file = file)
    (hsame : ∀ file, (change file).path = file.path) :
    ({ registry with
        catalog := { registry.catalog with files := registry.catalog.files.map change } } :
      Registry).companions old = registry.companions old := by
  simp only [companions, Catalog.withHash, List.filter_filter]
  induction registry.catalog.files with
  | nil => rfl
  | cons file rest ih =>
      rw [List.map_cons, List.filter_cons, List.filter_cons, ih, hsame file]
      by_cases hpath : file.path = old.path
      · simp [hpath]
      · rw [hother file hpath]

/-- A record put behind the others, with some of them removed. -/
private theorem mem_added {record : FileRecord} (gone : List FileRecord)
    (hnone : before.catalog.record? record.path = none)
    (hgone : ∀ stale ∈ gone, stale ∈ before.catalog.files) (hlive : record.missing = false)
    (file : FileRecord) :
    file ∈ ((before.catalog.addFile record).removeFiles gone).files ↔
      file = record ∨ (file ∈ before.catalog.files ∧ file.path ≠ record.path ∧
        ∀ stale ∈ gone, file.path ≠ stale.path) := by
  have hcleared : record.cleared = record := FileRecord.cleared_of_unmarked hlive
  have hne := Catalog.path_ne_of_record?_none hnone
  rw [Catalog.mem_removeFiles, Catalog.mem_addFile, hcleared]
  constructor
  · rintro ⟨hfile | rfl, hstale⟩
    · exact Or.inr ⟨hfile, hne file hfile, hstale⟩
    · exact Or.inl rfl
  · rintro (rfl | ⟨hfile, _, hstale⟩)
    · exact ⟨Or.inr rfl, fun stale hmem => (hne stale (hgone stale hmem)).symm⟩
    · exact ⟨Or.inl hfile, hstale⟩

theorem paths_added {record : FileRecord} (gone : List FileRecord)
    (hpaths : before.catalog.PathsDistinct)
    (hnone : before.catalog.record? record.path = none) :
    ((before.catalog.addFile record).removeFiles gone).PathsDistinct := by
  apply ((Catalog.files_removeFiles_sublist _ gone).map FileRecord.path).nodup
  simp only [Catalog.addFile, List.map_append, List.map_cons, List.map_nil]
  rw [List.nodup_append]
  refine ⟨hpaths, List.nodup_singleton _, ?_⟩
  intro path hpath other hother
  obtain ⟨file, hfile, rfl⟩ := List.mem_map.mp hpath
  obtain rfl := List.mem_singleton.mp hother
  exact Catalog.path_ne_of_record?_none hnone file hfile

/-- What becomes of a path that was not on record. -/
theorem enrol_placement (present : String → Bool) (hpaths : before.catalog.PathsDistinct)
    {seen : Sighting} (hash : String) (hnone : before.catalog.record? seen.path = none) :
    ∃ own gone, (before.enrol present seen hash).1 = seen.record hash own ∧
      (before.enrol present seen hash).2.catalog.canonical = before.catalog.canonical ∧
      Placement present before (before.enrol present seen hash).2 none
        (seen.record hash own) gone := by
  simp only [enrol]
  split
  · rename_i id hsole
    refine ⟨id, before.vanished present hash, rfl, ?_, ?_, ?_, ?_, ?_⟩
    · simp
    · exact .adopted hsole
    · exact mem_added _ hnone (fun stale hstale => (mem_vanished.mp hstale).1) rfl
    · exact paths_added _ hpaths hnone
    · simp
  · refine ⟨before.fresh.1, [], rfl, rfl, .issued rfl, ?_, ?_, rfl⟩
    · exact mem_added [] hnone (by simp) rfl
    · exact paths_added [] hpaths hnone

/-- A record put in the place of another, with some of the others removed. -/
private theorem mem_replaced {record : FileRecord} (gone : List FileRecord)
    (hheld : ∃ file ∈ before.catalog.files, file.path = record.path)
    (hgone : ∀ stale ∈ gone, stale.path ≠ record.path) (file : FileRecord) :
    file ∈ ((before.catalog.replaceFile record).removeFiles gone).files ↔
      file = record.cleared ∨ (file ∈ before.catalog.files ∧
        file.path ≠ record.cleared.path ∧ ∀ stale ∈ gone, file.path ≠ stale.path) := by
  rw [Catalog.mem_removeFiles, Catalog.mem_replaceFile]
  constructor
  · rintro ⟨⟨hfile, hpath⟩ | ⟨rfl, _⟩, hstale⟩
    · exact Or.inr ⟨hfile, hpath, hstale⟩
    · exact Or.inl rfl
  · rintro (rfl | ⟨hfile, hpath, hstale⟩)
    · exact ⟨Or.inr ⟨rfl, hheld⟩, fun stale hmem => (hgone stale hmem).symm⟩
    · exact ⟨Or.inl ⟨hfile, hpath⟩, hstale⟩

private theorem paths_replaced (record : FileRecord) (gone : List FileRecord)
    (hpaths : before.catalog.PathsDistinct) :
    ((before.catalog.replaceFile record).removeFiles gone).PathsDistinct := by
  apply ((Catalog.files_removeFiles_sublist _ gone).map FileRecord.path).nodup
  rw [Catalog.map_path_replaceFile]
  exact hpaths

/-- What becomes of a path that was on record as `old`. -/
theorem revise_placement (present : String → Bool) (hpaths : before.catalog.PathsDistinct)
    {updated old : FileRecord} (hpath : updated.path = old.path) (hown : updated.id = old.id)
    (hheld : ∃ file ∈ before.catalog.files, file.path = old.path) :
    ∃ own gone, (before.revise present updated old).1 = { updated with id := own } ∧
      (before.revise present updated old).2.catalog.canonical = before.catalog.canonical ∧
      Placement present before (before.revise present updated old).2 (some old)
        { updated with id := own, missing := false } gone := by
  have hcompanions : ∀ stale ∈ before.companions old, stale.path ≠ updated.path := by
    intro stale hstale
    rw [hpath]
    exact (mem_companions.mp hstale).2.2
  have hheld' : ∃ file ∈ before.catalog.files, file.path = updated.path := hpath ▸ hheld
  simp only [revise]
  split
  · rename_i hnone
    refine ⟨updated.id, [], rfl, rfl, .kept hown ?_, ?_, ?_, rfl⟩
    · intro _ id hid
      simp [hnone] at hid
    · exact mem_replaced [] hheld' (by simp)
    · exact paths_replaced updated [] hpaths
  · rename_i canonical hcanonical
    split
    · rename_i htakes
      simp only [ne_eq, Bool.and_eq_true, decide_eq_true_eq, Bool.not_eq_true',
        List.any_eq_false, Bool.not_eq_true] at htakes
      refine ⟨canonical, before.companions old, rfl, ?_, ?_, ?_, ?_, ?_⟩
      · simp
      · exact .takenOver hcanonical htakes.1 htakes.2
      · exact mem_replaced _ hheld' hcompanions
      · exact paths_replaced { updated with id := canonical } _ hpaths
      · simp
    · rename_i htakes
      split
      · rename_i hparts
        simp only [ne_eq, Bool.and_eq_true, decide_eq_true_eq, List.any_eq_true] at hparts
        obtain ⟨⟨rfl, hshared⟩, hchanged⟩ := hparts
        refine ⟨before.fresh.1, [], rfl, rfl, ?_, ?_, ?_, rfl⟩
        · exact .parted hcanonical hshared (fun h => hchanged h.symm) rfl
        · exact mem_replaced [] hheld' (by simp)
        · exact paths_replaced { updated with id := before.fresh.1 } [] hpaths
      · rename_i hparts
        refine ⟨updated.id, [], rfl, rfl, .kept hown ?_, ?_, ?_, rfl⟩
        · intro hchanged id hid
          have hsame : id = canonical := by simpa [hcanonical] using hid.symm
          subst hsame
          have hne : old.hash ≠ updated.hash := fun h => hchanged h.symm
          simp only [ne_eq, Bool.and_eq_true, decide_eq_true_eq, Bool.not_eq_true',
            List.any_eq_false, Bool.not_eq_true, not_and, List.any_eq_true] at htakes hparts
          constructor
          · intro hown file hfile
            by_contra hthere
            exact hparts ⟨hown, file, hfile, by simpa using hthere⟩ hne
          · intro halone
            by_contra hother
            exact htakes hother halone
        · exact mem_replaced [] hheld' (by simp)
        · exact paths_replaced updated [] hpaths

theorem Placement.settle {placed : Registry} {old? : Option FileRecord} {new : FileRecord}
    {gone : List FileRecord} (hplaced : Placement present before placed old? new gone)
    (hash : String) (own : MediaId) :
    Placement present before (placed.settle hash own).2 old? new gone where
  allotment := by simpa using hplaced.allotment
  files := by simpa using hplaced.files
  paths := by simpa [Catalog.PathsDistinct] using hplaced.paths
  tags := by simpa using hplaced.tags

end Place

end MediaCatalog.Registry
