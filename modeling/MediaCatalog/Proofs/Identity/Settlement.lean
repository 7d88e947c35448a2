import MediaCatalog.Proofs.Identity.Placement

/-!
All that one transaction can do to the tables, said once. A path is left with
one new record, some records of files that are not there give way to it, and
its content has a canonical identifier afterwards, which is the answer. Every
property of resolution that does not depend on the order of rows is read off
`reconcile_settlement`.
-/

namespace MediaCatalog.Registry

/-- What a transaction for a path leaves when it answers with `id`. -/
structure Settlement (present : String → Bool) (before after : Registry) (seen : Sighting)
    (digest : Option String) (id : MediaId) (new : FileRecord) (gone : List FileRecord) : Prop
    extends Placement present before after (before.catalog.record? seen.path) new gone where
  path : new.path = seen.path
  size : new.size = seen.size
  modified : new.modified = seen.modified
  live : new.missing = false
  /-- Unless the record was up to date, the content is the one that was read. -/
  digested : (∀ old, before.catalog.record? seen.path = some old →
    old.upToDate seen.size seen.modified = false) → digest = some new.hash
  unchanged : ∀ old, before.catalog.record? seen.path = some old →
    old.upToDate seen.size seen.modified = true → new.hash = old.hash
  canonical : after.catalog.canonical = (before.settle new.hash new.id).2.catalog.canonical
  answer : id = (before.settle new.hash new.id).1

section Revisit

variable {present : String → Bool} {before : Registry} {old : FileRecord}

@[simp] theorem canonical_unmark :
    (before.unmark old).catalog.canonical = before.catalog.canonical := by
  unfold unmark
  split <;> rfl

@[simp] theorem tags_unmark : (before.unmark old).catalog.tags = before.catalog.tags := by
  unfold unmark
  split <;> rfl

@[simp] theorem supply_unmark : (before.unmark old).supply = before.supply := by
  unfold unmark
  split <;> rfl

theorem map_path_unmark :
    (before.unmark old).catalog.files.map FileRecord.path =
      before.catalog.files.map FileRecord.path := by
  unfold unmark
  split
  · simp only [Catalog.setMissing, List.map_map]
    apply List.map_congr_left
    intro file _
    simp only [Function.comp_apply]
    split <;> rfl
  · rfl

theorem mem_unmark (hpaths : before.catalog.PathsDistinct)
    (hold : old ∈ before.catalog.files) {file : FileRecord} :
    file ∈ (before.unmark old).catalog.files ↔
      file = old.cleared ∨ (file ∈ before.catalog.files ∧ file.path ≠ old.path) := by
  have hsame {other : FileRecord} (hother : other ∈ before.catalog.files)
      (hpath : other.path = old.path) : other = old :=
    Catalog.eq_of_path_eq hpaths hother hold hpath
  unfold unmark
  split
  · rename_i hmissing
    simp only [Catalog.setMissing, List.mem_map]
    constructor
    · rintro ⟨other, hother, rfl⟩
      by_cases hpath : other.path = old.path
      · obtain rfl := hsame hother hpath
        left
        simp [hmissing, FileRecord.cleared]
      · right
        simp [hpath, hother]
    · rintro (rfl | ⟨hfile, hpath⟩)
      · exact ⟨old, hold, by simp [hmissing, FileRecord.cleared]⟩
      · exact ⟨file, hfile, by simp [hpath]⟩
  · rename_i hlive
    rw [FileRecord.cleared_of_unmarked (by simpa using hlive)]
    constructor
    · intro hfile
      by_cases hpath : file.path = old.path
      · exact Or.inl (hsame hfile hpath)
      · exact Or.inr ⟨hfile, hpath⟩
    · rintro (rfl | ⟨hfile, _⟩)
      · exact hold
      · exact hfile

/-- Clearing the mark of a record touches none of its companions. -/
theorem companions_unmark : (before.unmark old).companions old = before.companions old := by
  unfold unmark
  split
  · apply companions_map
    · intro file hpath
      simp [hpath]
    · intro file
      split <;> rfl
  · rfl

/-- The allotment of an unchanged record, seen from before its mark was cleared
and its content settled. What was promoted had another canonical identifier
already. -/
private theorem allotment_of_promoted {between : Registry} {new : FileRecord}
    {gone : List FileRecord} {supply : IdSupply} (hhash : new.hash = old.hash)
    (hcompanions : between.companions old = before.companions old)
    (hcanonical : between.catalog.canonical? old.hash = before.catalog.canonical? old.hash)
    (hsupply : between.supply = before.supply)
    (hallotted : Allotment present between (some old) new gone supply) :
    Allotment present before (some old) new gone supply := by
  cases hallotted with
  | takenOver hid hother halone =>
      rw [hcanonical] at hid
      rw [hcompanions] at halone ⊢
      rw [hsupply]
      exact .takenOver hid hother halone
  | parted _ _ hchanged _ => exact absurd hhash hchanged
  | kept hid _ =>
      rw [hsupply]
      exact .kept hid (fun hchanged => absurd hhash hchanged)

/-- A registry in which a record was unmarked and its content settled. -/
private structure Refreshed (before between : Registry) (old : FileRecord) : Prop where
  files : ∀ file, file ∈ between.catalog.files ↔
    file = old.cleared ∨ (file ∈ before.catalog.files ∧ file.path ≠ old.path)
  paths : between.catalog.PathsDistinct
  tags : between.catalog.tags = before.catalog.tags
  supply : between.supply = before.supply
  companions : between.companions old = before.companions old
  canonical : between.catalog.canonical = (before.settle old.hash old.id).2.catalog.canonical

private theorem refreshed (hpaths : before.catalog.PathsDistinct)
    (hmem : old ∈ before.catalog.files) :
    Refreshed before ((before.unmark old).settle old.hash old.id).2 old where
  files file := by
    rw [files_settle]
    exact mem_unmark hpaths hmem
  paths := by
    simp only [Catalog.PathsDistinct, files_settle, map_path_unmark]
    exact hpaths
  tags := by simp
  supply := by simp
  companions := by
    have hunmarked : (before.unmark old).companions old = before.companions old :=
      companions_unmark
    rw [← hunmarked]
    simp [companions, Catalog.withHash]
  canonical := (settle_congr old.hash old.id canonical_unmark).2

/-- What becomes of a path whose record is up to date and takes over another
identifier. That one was canonical for its content already. -/
private theorem promoted_settlement {between : Registry} {seen : Sighting}
    {digest : Option String} (hrefreshed : Refreshed before between old)
    (hold : before.catalog.record? seen.path = some old)
    (hcurrent : old.upToDate seen.size seen.modified = true)
    (hother : (before.settle old.hash old.id).1 ≠ old.id) :
    ∃ new gone, Settlement present before (between.revise present old old).2 seen digest
      (before.settle old.hash old.id).1 new gone := by
  have hpath : old.path = seen.path := Catalog.path_of_record? hold
  obtain ⟨hsize, hmodified⟩ : old.size = seen.size ∧ old.modified = seen.modified := by
    simpa [FileRecord.upToDate] using hcurrent
  have hknown : (before.catalog.canonical? old.hash).isSome := by
    rw [settle_answer] at hother
    cases hfound : before.catalog.canonical? old.hash with
    | none => simp [hfound] at hother
    | some _ => rfl
  have hcanonical : between.catalog.canonical = before.catalog.canonical := by
    rw [hrefreshed.canonical, canonical_settle, if_pos hknown]
  have hheld : ∃ file ∈ between.catalog.files, file.path = old.path :=
    ⟨old.cleared, (hrefreshed.files _).mpr (Or.inl rfl), rfl⟩
  obtain ⟨own, gone, -, hkept, hplaced⟩ :=
    revise_placement present hrefreshed.paths rfl rfl hheld
  refine ⟨{ old with id := own, missing := false }, gone, ⟨?_, ?_, hplaced.paths, ?_⟩,
    hpath, hsize, hmodified, rfl, ?_, ?_, ?_, ?_⟩
  · rw [hold]
    refine allotment_of_promoted rfl hrefreshed.companions ?_ hrefreshed.supply hplaced.allotment
    simp only [Catalog.canonical?, hcanonical]
  · intro file
    rw [hplaced.files, hrefreshed.files]
    constructor
    · rintro (rfl | ⟨rfl | ⟨hfile, hne⟩, hother, hgone⟩)
      · exact Or.inl rfl
      · exact absurd rfl hother
      · exact Or.inr ⟨hfile, hne, hgone⟩
    · rintro (rfl | ⟨hfile, hne, hgone⟩)
      · exact Or.inl rfl
      · exact Or.inr ⟨Or.inr ⟨hfile, hne⟩, hne, hgone⟩
  · rw [hplaced.tags, hrefreshed.tags]
  · intro hnot
    simp [hnot old hold] at hcurrent
  · intro other hother _
    obtain rfl : old = other := by simpa [hold] using hother
    rfl
  · rw [hkept, hcanonical, canonical_settle, if_pos hknown]
  · obtain ⟨id, hid⟩ := Option.isSome_iff_exists.mp hknown
    rw [settle_answer, settle_answer]
    simp [hid]

/-- What becomes of a path whose record is up to date and stays as it is but
for its mark. -/
private theorem refreshed_settlement {between : Registry} {seen : Sighting}
    {digest : Option String} (hrefreshed : Refreshed before between old)
    (hold : before.catalog.record? seen.path = some old)
    (hcurrent : old.upToDate seen.size seen.modified = true) :
    Settlement present before between seen digest (before.settle old.hash old.id).1
      old.cleared [] := by
  have hpath : old.path = seen.path := Catalog.path_of_record? hold
  obtain ⟨hsize, hmodified⟩ : old.size = seen.size ∧ old.modified = seen.modified := by
    simpa [FileRecord.upToDate] using hcurrent
  refine ⟨⟨?_, ?_, hrefreshed.paths, hrefreshed.tags⟩, hpath, hsize, hmodified, rfl, ?_, ?_,
    hrefreshed.canonical, rfl⟩
  · rw [hold, hrefreshed.supply]
    exact .kept rfl (fun hchanged => absurd rfl hchanged)
  · intro file
    rw [hrefreshed.files]
    simp [FileRecord.cleared]
  · intro hnot
    simp [hnot old hold] at hcurrent
  · intro other hother _
    obtain rfl : old = other := by simpa [hold] using hother
    rfl

/-- What becomes of a path whose record is up to date. -/
theorem revisit_settlement (hpaths : before.catalog.PathsDistinct) {seen : Sighting}
    (digest : Option String) (hold : before.catalog.record? seen.path = some old)
    (hcurrent : old.upToDate seen.size seen.modified = true) :
    ∃ new gone, Settlement present before (before.revisit present old).2 seen digest
      (before.revisit present old).1 new gone := by
  have hrefreshed := refreshed hpaths (Catalog.mem_of_record? hold)
  have hsettled : ((before.unmark old).settle old.hash old.id).1 =
      (before.settle old.hash old.id).1 :=
    (settle_congr old.hash old.id canonical_unmark).1
  simp only [revisit]
  split
  · rename_i hpromoted
    have hother : (before.settle old.hash old.id).1 ≠ old.id := by
      simp only [ne_eq, Bool.and_eq_true, decide_eq_true_eq] at hpromoted
      rw [← hsettled]
      exact hpromoted.1
    rw [hsettled]
    exact promoted_settlement hrefreshed hold hcurrent hother
  · rw [hsettled]
    exact ⟨_, _, refreshed_settlement hrefreshed hold hcurrent⟩

/-- A record placed for a file that had to be read, and its content settled. -/
theorem Placement.settlement {placed : Registry} {seen : Sighting} {hash : String}
    {own : MediaId} {gone : List FileRecord}
    (hplaced : Placement present before placed (before.catalog.record? seen.path)
      (seen.record hash own) gone)
    (hkept : placed.catalog.canonical = before.catalog.canonical)
    (hstale : ∀ old, before.catalog.record? seen.path = some old →
      old.upToDate seen.size seen.modified = false) :
    Settlement present before (placed.settle hash own).2 seen (some hash)
      (placed.settle hash own).1 (seen.record hash own) gone := by
  have hsettled := settle_congr hash own hkept
  refine ⟨hplaced.settle hash own, rfl, rfl, rfl, rfl, fun _ => rfl, ?_, hsettled.2, hsettled.1⟩
  intro old hold hcurrent
  simp [hstale old hold] at hcurrent

/-- All that a transaction which answers can do. -/
theorem reconcile_settlement (hpaths : before.catalog.PathsDistinct) {after : Registry}
    {seen : Sighting} {digest : Option String} {id : MediaId}
    (hanswer : before.reconcile present seen digest = some (id, after)) :
    ∃ new gone, Settlement present before after seen digest id new gone := by
  unfold reconcile at hanswer
  cases hrecord : before.catalog.record? seen.path with
  | none =>
      cases digest with
      | none => simp [hrecord] at hanswer
      | some hash =>
          obtain ⟨own, gone, hnew, hkept, hplaced⟩ :=
            enrol_placement present hpaths hash hrecord
          simp only [hrecord, hnew, Option.some.injEq, Prod.ext_iff] at hanswer
          obtain ⟨rfl, rfl⟩ := hanswer
          refine ⟨_, gone, Placement.settlement (hrecord ▸ hplaced) hkept ?_⟩
          simp [hrecord]
  | some old =>
      by_cases hcurrent : old.upToDate seen.size seen.modified = true
      · simp only [hrecord, hcurrent, if_true, Option.some.injEq, Prod.ext_iff] at hanswer
        obtain ⟨rfl, rfl⟩ := hanswer
        exact revisit_settlement hpaths digest hrecord hcurrent
      · cases digest with
        | none => simp [hrecord, hcurrent] at hanswer
        | some hash =>
            have hpath : old.path = seen.path := Catalog.path_of_record? hrecord
            have hupdated : (seen.record hash old.id).path = old.path := hpath.symm
            obtain ⟨own, gone, hnew, hkept, hplaced⟩ := revise_placement present hpaths hupdated
              rfl ⟨old, Catalog.mem_of_record? hrecord, rfl⟩
            simp only [hrecord, hcurrent, Bool.false_eq_true, if_false, hnew,
              Option.some.injEq, Prod.ext_iff] at hanswer
            obtain ⟨rfl, rfl⟩ := hanswer
            refine ⟨_, gone, Placement.settlement (hrecord ▸ hplaced) hkept ?_⟩
            intro other hother
            obtain rfl : old = other := by simpa [hrecord] using hother
            simpa using hcurrent

end Revisit

/-- A new path whose content no vanished file had gets the next identifier of
the supply for its own, if that is free. -/
theorem reconcile_of_new {registry : Registry} {present : String → Bool} {seen : Sighting}
    {hash : String} (hnone : registry.catalog.record? seen.path = none)
    (hvanished : registry.vanished present hash = [])
    (hfree : registry.supply.candidate registry.supply.drawn ∉
      registry.catalog.canonical.map CanonicalRow.id) :
    registry.reconcile present seen (some hash) =
      some (settle
        ⟨registry.catalog.addFile (seen.record hash (registry.supply.candidate
          registry.supply.drawn)), { registry.supply with drawn := registry.supply.drawn + 1 }⟩
        hash (registry.supply.candidate registry.supply.drawn)) := by
  have hdrawn := registry.supply.draw_of_free _ hfree
  simp only [reconcile, hnone, enrol, hvanished, soleId?, fresh, hdrawn]
  rfl

section Consequences

variable {present : String → Bool} {before after : Registry} {seen : Sighting}
  {digest : Option String} {id : MediaId} {new : FileRecord} {gone : List FileRecord}

theorem Allotment.gone_absent {old? : Option FileRecord} {supply : IdSupply}
    (hallotted : Allotment present before old? new gone supply) :
    ∀ stale ∈ gone, stale ∈ before.catalog.files ∧ present stale.path = false := by
  intro stale hstale
  cases hallotted with
  | adopted _ =>
      obtain ⟨hfile, _, habsent⟩ := mem_vanished.mp hstale
      exact ⟨hfile, habsent⟩
  | takenOver _ _ halone => exact ⟨(mem_companions.mp hstale).1, halone stale hstale⟩
  | issued _ | parted _ _ _ _ | kept _ _ => simp at hstale

/-- No other file that is there is on record with the content of `old`. -/
def Alone (present : String → Bool) (registry : Registry) (old : FileRecord) : Prop :=
  ∀ file ∈ registry.companions old, present file.path = false

/-- A file with new content has the identifier of its old content if it was
alone with that. Otherwise it keeps its own, unless that is the one of the old
content, and then it has a fresh one. -/
theorem Allotment.own_of_edit {supply : IdSupply} {old : FileRecord}
    (hallotted : Allotment present before (some old) new gone supply)
    (hchanged : new.hash ≠ old.hash) {known : MediaId}
    (hknown : before.catalog.canonical? old.hash = some known) :
    (before.Alone present old ∧ new.id = known) ∨
      (¬ before.Alone present old ∧ known ≠ old.id ∧ new.id = old.id) ∨
      (¬ before.Alone present old ∧ known = old.id ∧ new.id = before.fresh.1) := by
  cases hallotted with
  | takenOver hcanonical _ halone =>
      have hsame : new.id = known := by
        rw [hcanonical] at hknown
        exact Option.some.inj hknown
      exact Or.inl ⟨halone, hsame⟩
  | parted hcanonical hshared _ hid =>
      obtain ⟨file, hfile, hthere⟩ := hshared
      have hsame : known = old.id := by
        rw [hcanonical] at hknown
        exact (Option.some.inj hknown).symm
      have hnot : ¬ before.Alone present old := by
        intro halone
        rw [halone file hfile] at hthere
        cases hthere
      exact Or.inr (Or.inr ⟨hnot, hsame, hid⟩)
  | kept hid hreason =>
      have hiff : known = old.id ↔ before.Alone present old := hreason hchanged known hknown
      by_cases hsame : known = old.id
      · exact Or.inl ⟨hiff.mp hsame, hid.trans hsame.symm⟩
      · exact Or.inr (Or.inl ⟨fun halone => hsame (hiff.mpr halone), hsame, hid⟩)

namespace Settlement

variable (hsettled : Settlement present before after seen digest id new gone)

include hsettled

theorem answer_eq : id = (before.catalog.canonical? new.hash).getD new.id :=
  hsettled.answer.trans (settle_answer before new.hash new.id)

/-- Only the content that was settled may have got a canonical identifier. -/
theorem canonical?_eq (key : String) :
    after.catalog.canonical? key =
      if key = new.hash then some id else before.catalog.canonical? key := by
  have hlook : after.catalog.canonical? key =
      (before.settle new.hash new.id).2.catalog.canonical? key := by
    simp only [Catalog.canonical?, hsettled.canonical]
  rw [hlook, canonical?_settle, ← hsettled.answer_eq]

/-- The answer is the canonical identifier of the content on record. -/
theorem canonical?_new : after.catalog.canonical? new.hash = some id := by
  rw [hsettled.canonical?_eq, if_pos rfl]

/-- A canonical identifier stays as it is. -/
theorem canonical?_mono {key : String} {known : MediaId}
    (hknown : before.catalog.canonical? key = some known) :
    after.catalog.canonical? key = some known := by
  rw [hsettled.canonical?_eq]
  split
  · rename_i hkey
    rw [hsettled.answer_eq, ← hkey, hknown]
    rfl
  · exact hknown

theorem record?_seen : after.catalog.record? seen.path = some new := by
  rw [Catalog.record?_eq_some_iff hsettled.paths]
  exact ⟨(hsettled.files new).mpr (Or.inl rfl), hsettled.path⟩

/-- The record of another path is as it was, or it gave way and its file is
not there. -/
theorem record?_other (hpaths : before.catalog.PathsDistinct) {path : String}
    (hother : path ≠ seen.path) :
    after.catalog.record? path = before.catalog.record? path ∨
      (after.catalog.record? path = none ∧ present path = false) := by
  cases hafter : after.catalog.record? path with
  | some file =>
      obtain ⟨hfile, rfl⟩ := (Catalog.record?_eq_some_iff hsettled.paths).mp hafter
      left
      rcases (hsettled.files file).mp hfile with rfl | ⟨hold, _, _⟩
      · exact absurd hsettled.path hother
      · exact (Catalog.record?_of_mem hpaths hold).symm
  | none =>
      cases hbefore : before.catalog.record? path with
      | none => exact Or.inl rfl
      | some file =>
          right
          obtain ⟨hfile, rfl⟩ := (Catalog.record?_eq_some_iff hpaths).mp hbefore
          have hdropped : file ∉ after.catalog.files := fun hkept =>
            Catalog.path_ne_of_record?_none hafter file hkept rfl
          rw [hsettled.files] at hdropped
          have hgone : ∃ stale ∈ gone, file.path = stale.path := by
            by_contra hnone
            apply hdropped
            refine Or.inr ⟨hfile, ?_, ?_⟩
            · rw [hsettled.path]
              exact hother
            · intro stale hstale hpath
              exact hnone ⟨stale, hstale, hpath⟩
          obtain ⟨stale, hstale, hpath⟩ := hgone
          rw [hpath]
          exact ⟨rfl, (hsettled.allotment.gone_absent stale hstale).2⟩

end Settlement

end Consequences

end MediaCatalog.Registry
