import MediaCatalog.Proofs.Catalog.TagRows
import MediaCatalog.Proofs.Identity.Settlement

/-!
What holds of the tables whatever was done to them. A path has one record, the
content of every record has a canonical identifier, and all identifiers were
issued. Resolution keeps this, and so do the cleaner and writes to tags, which
leave files, canonical identifiers and supply alone but for the marks.
-/

namespace MediaCatalog.Registry

structure Sound (registry : Registry) : Prop extends AllIssued registry where
  paths : registry.catalog.PathsDistinct
  settled : registry.catalog.AllSettled

theorem sound_empty (supply : IdSupply) : Sound ⟨{}, supply⟩ where
  own := by simp
  canonical := by simp [Catalog.canonical?]
  paths := List.nodup_nil
  settled := by simp [Catalog.AllSettled]

section Resolution

variable {present : String → Bool} {before after : Registry} {seen : Sighting}
  {digest : Option String} {id : MediaId} {new : FileRecord} {gone : List FileRecord}

theorem Allotment.issued_mono {old? : Option FileRecord} {supply : IdSupply}
    (hallotted : Allotment present before old? new gone supply) {known : MediaId}
    (hknown : before.supply.Issued known) : supply.Issued known := by
  cases hallotted with
  | adopted _ | takenOver _ _ _ | kept _ _ => exact hknown
  | issued _ | parted _ _ _ _ => exact hknown.draw _

theorem Allotment.issued_new {old? : Option FileRecord} {supply : IdSupply}
    (hissued : before.AllIssued) (hold : ∀ old ∈ old?, old ∈ before.catalog.files)
    (hallotted : Allotment present before old? new gone supply) : supply.Issued new.id := by
  cases hallotted with
  | adopted hsole =>
      obtain ⟨hsome, hsame⟩ := soleId?_eq_some hsole
      obtain ⟨stale, hstale⟩ := List.exists_mem_of_ne_nil _ hsome
      rw [← hsame stale hstale]
      exact hissued.own stale (mem_vanished.mp hstale).1
  | issued hid | parted _ _ _ hid =>
      rw [hid]
      exact before.supply.issued_draw _
  | takenOver hcanonical _ _ => exact hissued.canonical _ _ hcanonical
  | kept hid _ =>
      rw [hid]
      exact hissued.own _ (hold _ rfl)

theorem Settlement.sound (hsettled : Settlement present before after seen digest id new gone)
    (hsound : before.Sound) : after.Sound := by
  have hnew : after.supply.Issued new.id :=
    hsettled.allotment.issued_new hsound.toAllIssued fun old hold => Catalog.mem_of_record? hold
  refine ⟨⟨?_, ?_⟩, hsettled.paths, ?_⟩
  · intro file hfile
    rcases (hsettled.files file).mp hfile with rfl | ⟨hbefore, _, _⟩
    · exact hnew
    · exact hsettled.allotment.issued_mono (hsound.own file hbefore)
  · intro hash known hknown
    rw [hsettled.canonical?_eq] at hknown
    split at hknown
    · obtain rfl : id = known := by simpa using hknown
      rw [hsettled.answer_eq]
      cases hfound : before.catalog.canonical? new.hash with
      | none => exact hnew
      | some found => exact hsettled.allotment.issued_mono (hsound.canonical _ _ hfound)
    · exact hsettled.allotment.issued_mono (hsound.canonical _ _ hknown)
  · intro file hfile
    rcases (hsettled.files file).mp hfile with rfl | ⟨hbefore, _, _⟩
    · rw [hsettled.canonical?_new]
      rfl
    · obtain ⟨known, hknown⟩ := Option.isSome_iff_exists.mp (hsound.settled file hbefore)
      rw [hsettled.canonical?_mono hknown]
      rfl

end Resolution

section Upkeep

/-- The registry with another catalog. -/
def withCatalog (registry : Registry) (catalog : Catalog) : Registry :=
  { registry with catalog }

/-- Two registries that differ at most in marks of missing files and in tags. -/
structure Alike (before after : Registry) : Prop where
  files : after.catalog.files.map FileRecord.cleared =
    before.catalog.files.map FileRecord.cleared
  canonical : after.catalog.canonical = before.catalog.canonical
  supply : after.supply = before.supply

variable {before after : Registry}

theorem alike_markAll (registry : Registry) (paths : List String) :
    Alike registry (registry.withCatalog (registry.catalog.markAll paths).2) where
  files := Catalog.map_cleared_markAll _ paths
  canonical := Catalog.canonical_markAll _ paths
  supply := rfl

theorem alike_setMissing (registry : Registry) (path : String) (missing : Bool) :
    Alike registry (registry.withCatalog (registry.catalog.setMissing path missing).2) where
  files := Catalog.map_cleared_setMissing _ path missing
  canonical := rfl
  supply := rfl

theorem alike_mergeTag {registry : Registry} {write : TagWrite} {changed : Bool}
    {catalog : Catalog} (hmerged : registry.catalog.mergeTag write = .ok (changed, catalog)) :
    Alike registry (registry.withCatalog catalog) := by
  have hkept : catalog.files = registry.catalog.files ∧
      catalog.canonical = registry.catalog.canonical := by
    rw [Catalog.mergeTag_eq] at hmerged
    split at hmerged
    · obtain ⟨-, rfl⟩ := by simpa using hmerged
      exact ⟨rfl, rfl⟩
    · split at hmerged
      · obtain ⟨-, rfl⟩ := by simpa using hmerged
        exact ⟨rfl, rfl⟩
      · obtain ⟨-, rfl⟩ := by simpa using hmerged
        exact ⟨rfl, rfl⟩
    · simp at hmerged
  exact ⟨congrArg _ hkept.1, hkept.2, rfl⟩

theorem Alike.canonical? (halike : Alike before after) (hash : String) :
    after.catalog.canonical? hash = before.catalog.canonical? hash := by
  simp only [Catalog.canonical?, halike.canonical]

theorem Alike.record? (halike : Alike before after) (path : String) :
    (after.catalog.record? path).map FileRecord.cleared =
      (before.catalog.record? path).map FileRecord.cleared := by
  simp only [Catalog.record?, ← Catalog.find?_map_cleared, halike.files]

/-- A record of one registry is found in the other, with its path, content and
identifier. -/
theorem Alike.exists_mem (halike : Alike before after) {file : FileRecord}
    (hfile : file ∈ after.catalog.files) :
    ∃ other ∈ before.catalog.files,
      other.path = file.path ∧ other.hash = file.hash ∧ other.id = file.id := by
  have hmem : file.cleared ∈ before.catalog.files.map FileRecord.cleared := by
    rw [← halike.files]
    exact List.mem_map_of_mem hfile
  obtain ⟨other, hother, hsame⟩ := List.mem_map.mp hmem
  simp only [FileRecord.cleared, FileRecord.mk.injEq] at hsame
  exact ⟨other, hother, hsame.1, hsame.2.2.2.1, hsame.2.2.2.2.1⟩

theorem Alike.sound (halike : Alike before after) (hsound : before.Sound) : after.Sound := by
  refine ⟨⟨?_, ?_⟩, ?_, ?_⟩
  · intro file hfile
    obtain ⟨other, hother, -, -, hid⟩ := halike.exists_mem hfile
    rw [halike.supply, ← hid]
    exact hsound.own other hother
  · intro hash id hid
    rw [halike.canonical?] at hid
    rw [halike.supply]
    exact hsound.canonical hash id hid
  · have hpaths (files : List FileRecord) :
        files.map FileRecord.path = (files.map FileRecord.cleared).map FileRecord.path := by
      rw [List.map_map]
      rfl
    unfold Catalog.PathsDistinct
    rw [hpaths, halike.files, ← hpaths]
    exact hsound.paths
  · intro file hfile
    obtain ⟨other, hother, -, hhash, -⟩ := halike.exists_mem hfile
    rw [halike.canonical?, ← hhash]
    exact hsound.settled other hother

end Upkeep

end MediaCatalog.Registry
