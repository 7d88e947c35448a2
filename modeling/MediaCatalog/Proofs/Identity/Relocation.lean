import Mathlib.Logic.Equiv.Basic
import MediaCatalog.Proofs.Identity.Interleaving
import MediaCatalog.Proofs.Identity.Undisturbed

/-!
A file that is moved and then edited fares as if it had been edited where it
was. When the move is noticed, the record of the new place takes over the own
identifier of the old one, and the files that stay behind with the old content
are the same as before the move. These two things, and nothing else, decide
which identifier the file has after the edit.

Identifiers that are newly given may be drawn in another order in one of the
two runs, so that their answers are compared up to a renaming of these.
-/

namespace MediaCatalog

/-- The file at `source` is now at `target`, where its content is read as
`hash`. No other file came or went. -/
structure Surroundings.Moves (before after : Surroundings) (source target hash : String) :
    Prop where
  left : after.present source = false
  read : after.digest target = .ok hash
  others : ∀ path, path ≠ source → path ≠ target → after.present path = before.present path
  locked : after.locked = before.locked

/-- The content of the file at `path` is now read as `hash`. -/
structure Surroundings.Edits (before after : Surroundings) (path hash : String) : Prop where
  present : after.present = before.present
  read : after.digest path = .ok hash
  locked : after.locked = before.locked

/-- The identifier is in one of the tables of files and contents. -/
def Catalog.Names (catalog : Catalog) (id : MediaId) : Prop :=
  (∃ file ∈ catalog.files, file.id = id) ∨ ∃ hash, catalog.canonical? hash = some id

namespace Registry

variable {present : String → Bool} {before after registry : Registry} {seen : Sighting}
  {old new : FileRecord} {gone : List FileRecord}

section Compare

variable {otherPresent : String → Bool} {other otherAfter : Registry} {otherSeen : Sighting}
  {otherOld otherNew : FileRecord} {otherGone : List FileRecord}

/-- Two files with the same past, one in each of two registries, that are
edited alike answer alike: with one identifier, or each with a fresh one. -/
theorem edits_agree {digest otherDigest : Option String} {id otherId known : MediaId}
    (hsettled : Settlement present before after seen digest id new gone)
    (hotherSettled : Settlement otherPresent other otherAfter otherSeen otherDigest otherId
      otherNew otherGone)
    (hold : before.catalog.record? seen.path = some old)
    (hotherOld : other.catalog.record? otherSeen.path = some otherOld)
    (hhash : otherOld.hash = old.hash) (hown : otherOld.id = old.id)
    (hnew : otherNew.hash = new.hash)
    (hcanonical : other.catalog.canonical = before.catalog.canonical)
    (hknown : before.catalog.canonical? old.hash = some known)
    (halone : before.Alone present old ↔ other.Alone otherPresent otherOld) :
    id = otherId ∨ (id = before.fresh.1 ∧ otherId = other.fresh.1) := by
  have hlook (hash : String) :
      other.catalog.canonical? hash = before.catalog.canonical? hash := by
    simp only [Catalog.canonical?, hcanonical]
  have hid : id = (before.catalog.canonical? new.hash).getD new.id := hsettled.answer_eq
  have hotherId : otherId = (before.catalog.canonical? new.hash).getD otherNew.id := by
    rw [hotherSettled.answer_eq, hnew, hlook]
  cases hfound : before.catalog.canonical? new.hash with
  | some found =>
      left
      rw [hid, hotherId, hfound]
      rfl
  | none =>
      have hchanged : new.hash ≠ old.hash := by
        intro hsame
        rw [hsame, hknown] at hfound
        cases hfound
      have hotherChanged : otherNew.hash ≠ otherOld.hash := by
        rw [hnew, hhash]
        exact hchanged
      have hotherKnown : other.catalog.canonical? otherOld.hash = some known := by
        rw [hhash, hlook, hknown]
      have hcases := (hold ▸ hsettled.allotment).own_of_edit hchanged hknown
      have hotherCases :=
        (hotherOld ▸ hotherSettled.allotment).own_of_edit hotherChanged hotherKnown
      rw [← halone, hown] at hotherCases
      rw [hfound] at hid hotherId
      rw [hid, hotherId]
      simp only [Option.getD_none]
      rcases hcases with ⟨hyes, hnewId⟩ | ⟨hno, hne, hnewId⟩ | ⟨hno, heq, hnewId⟩
      · rcases hotherCases with ⟨-, hotherNewId⟩ | ⟨hno, -⟩ | ⟨hno, -⟩
        · exact Or.inl (hnewId.trans hotherNewId.symm)
        · exact absurd hyes hno
        · exact absurd hyes hno
      · rcases hotherCases with ⟨hyes, -⟩ | ⟨-, -, hotherNewId⟩ | ⟨-, heq, -⟩
        · exact absurd hyes hno
        · exact Or.inl (hnewId.trans hotherNewId.symm)
        · exact absurd heq hne
      · rcases hotherCases with ⟨hyes, -⟩ | ⟨-, hne, -⟩ | ⟨-, -, hotherNewId⟩
        · exact absurd hyes hno
        · exact absurd heq hne
        · exact Or.inr ⟨hnewId, hotherNewId⟩

end Compare

section Move

theorem soleId?_of_agreed {records : List FileRecord} {id : MediaId} (hsome : records ≠ [])
    (hagree : ∀ record ∈ records, record.id = id) : soleId? records = some id := by
  have hids : (records.map FileRecord.id).eraseDups = [id] := by
    cases records with
    | nil => exact absurd rfl hsome
    | cons record rest =>
        have hrest : (rest.map FileRecord.id).filter (fun other => !other == id) = [] := by
          rw [List.filter_eq_nil_iff]
          intro other hother
          obtain ⟨file, hfile, rfl⟩ := List.mem_map.mp hother
          simp [hagree file (List.mem_cons_of_mem _ hfile)]
        rw [List.map_cons, hagree record List.mem_cons_self, List.eraseDups_cons, hrest]
        rfl
  simp only [soleId?, hids]

variable {around : Surroundings} {source target : String}

/-- The registry once a move was noticed: the record of the new place stands for
all records of vanished files with its content. -/
def relocated (registry : Registry) (present : String → Bool) (record : FileRecord) : Registry :=
  { registry with
    catalog := (registry.catalog.addFile record).removeFiles
      (registry.vanished present record.hash) }

/-- A path that is new answers with the identifier of its content, which is on
record, and takes over the own identifier of the vanished files that had it. -/
theorem reconcile_of_vanished {own known : MediaId} {hash : String}
    (hnone : registry.catalog.record? seen.path = none)
    (hsole : soleId? (registry.vanished present hash) = some own)
    (hknown : registry.catalog.canonical? hash = some known) :
    registry.reconcile present seen (some hash) =
      some (known, registry.relocated present (seen.record hash own)) := by
  have hkept : ((registry.catalog.addFile (seen.record hash own)).removeFiles
      (registry.vanished present hash)).canonical? hash = some known := by
    simp only [Catalog.canonical?, Catalog.canonical_removeFiles, Catalog.canonical_addFile]
    exact hknown
  have hhash : (seen.record hash own).hash = hash := rfl
  simp only [reconcile, hnone, enrol, hsole, settle, hhash, hkept, relocated]

/-- Where a file was moved to, it is alone with its content exactly if it was so
where it came from. -/
theorem alone_relocated {moved : Surroundings}
    (hold : registry.catalog.record? source = some old)
    (hnone : registry.catalog.record? target = none)
    (hmoved : around.Moves moved source target old.hash) {record : FileRecord}
    (htarget : record.path = target) (hhash : record.hash = old.hash) :
    registry.Alone around.present old ↔
      (registry.relocated moved.present record).Alone moved.present record := by
  have hsource : old.path = source := Catalog.path_of_record? hold
  have hfree : ∀ file ∈ registry.catalog.files, file.path ≠ target :=
    Catalog.path_ne_of_record?_none hnone
  have hmem (file : FileRecord) :
      file ∈ (registry.relocated moved.present record).companions record ↔
        file ∈ registry.catalog.files ∧ file.hash = old.hash ∧
          ∀ stale ∈ registry.vanished moved.present record.hash, file.path ≠ stale.path := by
    rw [mem_companions, relocated, Catalog.mem_removeFiles, Catalog.mem_addFile, hhash, htarget]
    constructor
    · rintro ⟨⟨hfile | rfl, hkept⟩, hsame, hpath⟩
      · exact ⟨hfile, hsame, hkept⟩
      · exact absurd htarget hpath
    · rintro ⟨hfile, hsame, hkept⟩
      exact ⟨⟨Or.inl hfile, hkept⟩, hsame, hfree file hfile⟩
  have hstays {file : FileRecord} (hfile : file ∈ registry.catalog.files)
      (hpath : file.path ≠ source) : moved.present file.path = around.present file.path :=
    hmoved.others file.path hpath (hfree file hfile)
  constructor
  · intro halone file hfile
    obtain ⟨hfile, hsame, hkept⟩ := (hmem file).mp hfile
    have hgone : old ∈ registry.vanished moved.present record.hash := by
      refine mem_vanished.mpr ⟨Catalog.mem_of_record? hold, hhash.symm, ?_⟩
      rw [hsource]
      exact hmoved.left
    have hpath : file.path ≠ old.path := hkept old hgone
    rw [hstays hfile (hsource ▸ hpath)]
    exact halone file (mem_companions.mpr ⟨hfile, hsame, hpath⟩)
  · intro halone file hfile
    obtain ⟨hfile, hsame, hpath⟩ := mem_companions.mp hfile
    by_contra hthere
    have hsees : moved.present file.path = true := by
      rw [hstays hfile (hsource ▸ hpath)]
      simpa using hthere
    have hkept : ∀ stale ∈ registry.vanished moved.present record.hash,
        file.path ≠ stale.path := by
      intro stale hstale hsamePath
      have habsent : moved.present stale.path = false := (mem_vanished.mp hstale).2.2
      rw [← hsamePath, hsees] at habsent
      cases habsent
    have habsent := halone file ((hmem file).mpr ⟨hfile, hsame, hkept⟩)
    rw [hsees] at habsent
    cases habsent

/-- The record of the new place is found by its path. -/
theorem record?_relocated (hpaths : (registry.relocated present new).catalog.PathsDistinct)
    (hnone : registry.catalog.record? new.path = none) (hlive : new.missing = false) :
    (registry.relocated present new).catalog.record? new.path = some new := by
  have hcleared : new.cleared = new := FileRecord.cleared_of_unmarked hlive
  have hmem : new ∈ (registry.relocated present new).catalog.files := by
    refine (Catalog.mem_removeFiles _).mpr ⟨?_, ?_⟩
    · exact (Catalog.mem_addFile _).mpr (Or.inr hcleared.symm)
    · intro stale hstale
      exact (Catalog.path_ne_of_record?_none hnone stale (mem_vanished.mp hstale).1).symm
  exact (Catalog.record?_eq_some_iff hpaths).mpr ⟨hmem, rfl⟩

/-- The old place has no record any more. -/
theorem record?_left (hmem : old ∈ registry.catalog.files) (hhash : old.hash = new.hash)
    (habsent : present old.path = false) :
    (registry.relocated present new).catalog.record? old.path = none := by
  have hgone : old ∈ registry.vanished present new.hash := mem_vanished.mpr ⟨hmem, hhash, habsent⟩
  refine List.find?_eq_none.mpr ?_
  intro file hfile
  obtain ⟨hfile, hkept⟩ := (Catalog.mem_removeFiles _).mp hfile
  simpa using hkept old hgone

@[simp] theorem fresh_relocated :
    (registry.relocated present new).fresh.1 = registry.fresh.1 := by
  simp [fresh, relocated]

/-- What becomes of a file that is found where it was moved to. -/
theorem resolve_moved {moved : Surroundings}
    (hunlocked : moved.locked = false) (maxRetries : Nat)
    (hold : registry.catalog.record? source = some old)
    (hnone : registry.catalog.record? seen.path = none)
    (hmoved : around.Moves moved source seen.path old.hash)
    (hagree : ∀ file ∈ registry.catalog.files, file.hash = old.hash →
      moved.present file.path = false → file.id = old.id)
    {known : MediaId} (hknown : registry.catalog.canonical? old.hash = some known) :
    registry.resolve maxRetries moved seen =
      ⟨.ok known, 1, registry.relocated moved.present (seen.record old.hash old.id)⟩ := by
  have hgone : old ∈ registry.vanished moved.present old.hash := by
    refine mem_vanished.mpr ⟨Catalog.mem_of_record? hold, rfl, ?_⟩
    rw [Catalog.path_of_record? hold]
    exact hmoved.left
  have hsole : soleId? (registry.vanished moved.present old.hash) = some old.id := by
    refine soleId?_of_agreed (List.ne_nil_of_mem hgone) ?_
    intro file hfile
    obtain ⟨hfile, hhash, habsent⟩ := mem_vanished.mp hfile
    exact hagree file hfile hhash habsent
  have hnoticed : registry.reconcile moved.present seen (some old.hash) =
      some (known, registry.relocated moved.present (seen.record old.hash old.id)) :=
    reconcile_of_vanished hnone hsole hknown
  have hstale : ∀ earlier, registry.catalog.record? seen.path = some earlier →
      earlier.upToDate seen.size seen.modified = false := by
    intro earlier hearlier
    rw [hnone] at hearlier
    cases hearlier
  exact resolve_of_read hstale hunlocked hmoved.read hnoticed

theorem stale_of_record? {path : String} {size : UInt64} {modified : Int}
    (hold : registry.catalog.record? path = some old)
    (hstale : old.upToDate size modified = false) :
    ∀ earlier, registry.catalog.record? path = some earlier →
      earlier.upToDate size modified = false := by
  intro earlier hearlier
  rw [hold] at hearlier
  exact Option.some.inj hearlier ▸ hstale

theorem upToDate_record_ne {found later : Stat} (hlater : later ≠ found) (path hash : String)
    (id : MediaId) :
    ((Sighting.record ⟨path, found.size, found.modified⟩ hash id).upToDate later.size
      later.modified) = false := by
  by_contra hcurrent
  obtain ⟨hsize, hmodified⟩ : found.size = later.size ∧ found.modified = later.modified := by
    simpa [FileRecord.upToDate, Sighting.record] using hcurrent
  exact hlater (by rw [Stat.mk.injEq]; exact ⟨hsize.symm, hmodified.symm⟩)

/-- The edit at the new place, once the move was noticed, gives the identifier
that the edit at the old place gives. -/
theorem edits_agree_of_moved {other : Registry} (hsound : registry.Sound)
    (hsame : other.catalog = registry.catalog) (hunlocked : around.locked = false)
    (hold : registry.catalog.record? source = some old)
    (hnone : registry.catalog.record? target = none) {hash : String}
    {edited moved movedEdited : Surroundings} (hedited : around.Edits edited source hash)
    (hmoved : around.Moves moved source target old.hash)
    (hmovedEdited : moved.Edits movedEdited target hash)
    {stat found foundEdited : Stat} (hstale : old.upToDate stat.size stat.modified = false)
    (hseen : foundEdited ≠ found) (maxRetries : Nat) :
    let arrived := other.relocated moved.present
      (Sighting.record ⟨target, found.size, found.modified⟩ old.hash old.id)
    let there := arrived.resolve maxRetries movedEdited
      ⟨target, foundEdited.size, foundEdited.modified⟩
    ∃ id otherId,
      (registry.resolve maxRetries edited ⟨source, stat.size, stat.modified⟩).answer = .ok id ∧
        there.answer = .ok otherId ∧
        (id = otherId ∨ (id = registry.fresh.1 ∧ otherId = other.fresh.1)) ∧
        arrived.catalog.record? source = none ∧
        there.registry.catalog.record? source = none := by
  intro arrived there
  have hmem : old ∈ other.catalog.files := hsame ▸ Catalog.mem_of_record? hold
  have hpath : old.path = source := Catalog.path_of_record? hold
  obtain ⟨known, hknown⟩ :=
    Option.isSome_iff_exists.mp (hsound.settled old (Catalog.mem_of_record? hold))
  have hotherOld : other.catalog.record? source = some old := hsame ▸ hold
  have hotherNone : other.catalog.record? target = none := hsame ▸ hnone
  have hpaths : arrived.catalog.PathsDistinct := paths_added _ (hsame ▸ hsound.paths) hotherNone
  have hrecord : arrived.catalog.record? target = some _ :=
    record?_relocated hpaths hotherNone rfl
  have hleft : arrived.catalog.record? source = none := by
    rw [← hpath]
    refine record?_left hmem rfl ?_
    rw [hpath]
    exact hmoved.left
  let seenOld : Sighting := ⟨source, stat.size, stat.modified⟩
  let seenFound : Sighting := ⟨target, foundEdited.size, foundEdited.modified⟩
  have hstaleOld : ∀ earlier, registry.catalog.record? seenOld.path = some earlier →
      earlier.upToDate seenOld.size seenOld.modified = false := stale_of_record? hold hstale
  have hstaleFound : ∀ earlier, arrived.catalog.record? seenFound.path = some earlier →
      earlier.upToDate seenFound.size seenFound.modified = false :=
    stale_of_record? hrecord (upToDate_record_ne hseen target old.hash old.id)
  obtain ⟨id, new, gone, hinPlace, hsettled, hnew⟩ :=
    resolve_of_stale hstaleOld hsound.paths (hedited.locked.trans hunlocked) maxRetries hedited.read
  obtain ⟨otherId, otherNew, otherGone, hthere, hotherSettled, hotherNew⟩ :=
    resolve_of_stale hstaleFound hpaths
      (hmovedEdited.locked.trans (hmoved.locked.trans hunlocked)) maxRetries hmovedEdited.read
  refine ⟨id, otherId, hinPlace, hthere, ?_, hleft, ?_⟩
  · have halone : other.Alone around.present old ↔ arrived.Alone moved.present _ :=
      alone_relocated hotherOld hotherNone hmoved rfl rfl
    have hfresh : arrived.fresh.1 = other.fresh.1 := fresh_relocated
    rw [← hfresh]
    refine edits_agree hsettled hotherSettled hold hrecord rfl rfl
      (hotherNew.trans hnew.symm) ?_ hknown ?_
    · simp [arrived, relocated, hsame]
    · rw [hedited.present, hmovedEdited.present, ← halone]
      simp only [Alone, companions, hsame]
  · have hne : source ≠ target := by
      rintro rfl
      rw [hold] at hnone
      cases hnone
    rcases hotherSettled.record?_other hpaths hne with hkept | ⟨habsent, -⟩
    · exact hkept.trans hleft
    · exact habsent

end Move

section Rename

theorem AllIssued.not_names_fresh (hissued : registry.AllIssued) :
    ¬ registry.catalog.Names registry.fresh.1 := by
  rintro (⟨file, hfile, hid⟩ | ⟨hash, hid⟩)
  · exact hissued.fresh_ne hfile hid
  · exact registry.fresh_ne_canonical hash hid

/-- Identifiers that are fresh in two registries with the same tables differ by
a renaming that leaves the tables alone. -/
theorem renaming_of_fresh {other : Registry} (hissued : registry.AllIssued)
    (hotherIssued : other.AllIssued) (hsame : other.catalog = registry.catalog)
    {id otherId : MediaId}
    (hids : id = otherId ∨ (id = registry.fresh.1 ∧ otherId = other.fresh.1)) :
    ∃ rename : Equiv.Perm MediaId,
      (∀ named, registry.catalog.Names named → rename named = named) ∧ rename id = otherId := by
  rcases hids with rfl | ⟨rfl, rfl⟩
  · exact ⟨Equiv.refl _, fun _ _ => rfl, rfl⟩
  · refine ⟨Equiv.swap registry.fresh.1 other.fresh.1, ?_, Equiv.swap_apply_left _ _⟩
    intro named hnamed
    apply Equiv.swap_apply_of_ne_of_ne
    · rintro rfl
      exact hissued.not_names_fresh hnamed
    · rintro rfl
      rw [← hsame] at hnamed
      exact hotherIssued.not_names_fresh hnamed

end Rename

end Registry

namespace Site

/-- A file that is moved, found at its new place and then edited there answers
as it would have answered if it had been edited at the old place, up to a
renaming of fresh identifiers; with one supply for both runs the answers are
equal. When it is found it answers with the identifier of its content, and from
then on the old place has no record. All vanished files with its content have
to agree on its own identifier. -/
theorem move_invisible {site : Site} (hreach : site.Reachable)
    (hunlocked : site.around.locked = false) {source target hash : String} {old : FileRecord}
    (hold : site.registry.catalog.record? source = some old)
    (hnone : site.registry.catalog.record? target = none)
    {edited moved movedEdited : Surroundings} (hedited : site.around.Edits edited source hash)
    (hmoved : site.around.Moves moved source target old.hash)
    (hmovedEdited : moved.Edits movedEdited target hash)
    (hagree : ∀ file ∈ site.registry.catalog.files, file.hash = old.hash →
      moved.present file.path = false → file.id = old.id)
    {stat found foundEdited : Stat} (hstale : old.upToDate stat.size stat.modified = false)
    (hseen : foundEdited ≠ found) {supply : IdSupply}
    (hissued : Registry.AllIssued ⟨site.registry.catalog, supply⟩) (maxRetries : Nat) :
    let inPlace := site.registry.resolve maxRetries edited ⟨source, stat.size, stat.modified⟩
    let arrived := Registry.resolve ⟨site.registry.catalog, supply⟩ maxRetries moved
      ⟨target, found.size, found.modified⟩
    let there := arrived.registry.resolve maxRetries movedEdited
      ⟨target, foundEdited.size, foundEdited.modified⟩
    ∃ known id otherId, site.registry.catalog.canonical? old.hash = some known ∧
      arrived.answer = .ok known ∧ inPlace.answer = .ok id ∧ there.answer = .ok otherId ∧
      (∃ rename : Equiv.Perm MediaId,
        (∀ named, site.registry.catalog.Names named → rename named = named) ∧
          rename id = otherId) ∧
      (supply = site.registry.supply → id = otherId) ∧
      arrived.registry.catalog.record? source = none ∧
      there.registry.catalog.record? source = none := by
  intro inPlace arrived there
  let other : Registry := ⟨site.registry.catalog, supply⟩
  have hsame : other.catalog = site.registry.catalog := rfl
  have hsound := hreach.sound
  have hmem : old ∈ site.registry.catalog.files := Catalog.mem_of_record? hold
  obtain ⟨known, hknown⟩ := Option.isSome_iff_exists.mp (hsound.settled old hmem)
  let seenFound : Sighting := ⟨target, found.size, found.modified⟩
  have hotherOld : other.catalog.record? source = some old := hold
  have hotherNone : other.catalog.record? seenFound.path = none := hnone
  have harrived : arrived = ⟨.ok known, 1, _⟩ :=
    Registry.resolve_moved (hmoved.locked.trans hunlocked) maxRetries hotherOld hotherNone hmoved
      hagree hknown
  have hthere : there = Registry.resolve _ maxRetries movedEdited
      ⟨target, foundEdited.size, foundEdited.modified⟩ :=
    congrArg (fun run => Registry.resolve run.registry maxRetries movedEdited
      ⟨target, foundEdited.size, foundEdited.modified⟩) harrived
  obtain ⟨id, otherId, hinPlace, hanswer, hids, hleft, hstillLeft⟩ :=
    Registry.edits_agree_of_moved hsound hsame hunlocked hold hnone hedited hmoved hmovedEdited
      hstale hseen maxRetries
  rw [hthere, harrived]
  refine ⟨known, id, otherId, hknown, rfl, hinPlace, hanswer, ?_, ?_, hleft, hstillLeft⟩
  · exact Registry.renaming_of_fresh hsound.toAllIssued hissued hsame hids
  · rintro rfl
    rcases hids with hsame | ⟨hid, hotherId⟩
    · exact hsame
    · exact hid.trans hotherId.symm

/-- The first of the two identical files was moved. -/
def movedAway : Surroundings :=
  ⟨fun path => path != "/a", fun _ => .ok "5a", false⟩

/-- The first of two identical files is moved and then edited, while some more
identifiers were drawn. -/
theorem movedAway_invisible :
    let other : Registry := .ofSeries bothEnded.registry.catalog.files
      bothEnded.registry.catalog.canonical 5
    let arrived := other.resolve 0 movedAway ⟨"/c", 1, 7⟩
    let there := arrived.registry.resolve 0 { movedAway with digest := fun _ => .ok "6b" }
      ⟨"/c", 2, 8⟩
    let inPlace := bothEnded.registry.resolve 0
      { bothEnded.around with digest := fun _ => .ok "6b" } ⟨"/a", 2, 8⟩
    arrived.answer = .ok (.numbered "#" 0) ∧
      (∃ id otherId, inPlace.answer = .ok id ∧ there.answer = .ok otherId ∧
        ∃ rename : Equiv.Perm MediaId,
          rename (.numbered "#" 0) = .numbered "#" 0 ∧ rename id = otherId) ∧
      there.registry.catalog.record? "/a" = none := by
  have hold : bothEnded.registry.catalog.record? "/a" =
      some ⟨"/a", 1, 7, "5a", .numbered "#" 0, false⟩ := rfl
  have hnone : bothEnded.registry.catalog.record? "/c" = none := rfl
  have hmoved : bothEnded.around.Moves movedAway "/a" "/c" "5a" := by
    refine ⟨rfl, rfl, ?_, rfl⟩
    intro path hleft _
    exact bne_iff_ne.mpr hleft
  have hedited : bothEnded.around.Edits
      { bothEnded.around with digest := fun _ => .ok "6b" } "/a" "6b" := ⟨rfl, rfl, rfl⟩
  have hmovedEdited : movedAway.Edits { movedAway with digest := fun _ => .ok "6b" } "/c" "6b" :=
    ⟨rfl, rfl, rfl⟩
  have hstale : FileRecord.upToDate ⟨"/a", 1, 7, "5a", .numbered "#" 0, false⟩
      (Stat.mk 2 8).size (Stat.mk 2 8).modified = false := rfl
  have hseen : Stat.mk 2 8 ≠ Stat.mk 1 7 := by decide
  have hagree : ∀ file ∈ bothEnded.registry.catalog.files, file.hash = "5a" →
      movedAway.present file.path = false → file.id = .numbered "#" 0 := by
    intro file hfile _ habsent
    rcases List.mem_cons.mp hfile with rfl | hfile
    · rfl
    · obtain rfl := List.mem_singleton.mp hfile
      cases habsent
  have hissued : Registry.AllIssued
      ⟨bothEnded.registry.catalog, { IdSupply.ofSeries "#" with drawn := 5 }⟩ := by
    have hmore {id : MediaId} (hid : bothEnded.registry.supply.Issued id) :
        IdSupply.Issued { IdSupply.ofSeries "#" with drawn := 5 } id := by
      obtain ⟨n, hn, hid⟩ := hid
      exact ⟨n, Nat.lt_trans hn (by decide), hid⟩
    have hsound := bothEnded_reachable.sound
    exact ⟨fun file hfile => hmore (hsound.own file hfile),
      fun hash id hid => hmore (hsound.canonical hash id hid)⟩
  obtain ⟨known, id, otherId, hknown, harrived, hinPlace, hthere, ⟨rename, hkept, hid⟩, -, -,
      hleft⟩ :=
    move_invisible bothEnded_reachable rfl hold hnone hedited hmoved hmovedEdited hagree hstale
      hseen hissued 0
  obtain rfl : MediaId.numbered "#" 0 = known := Option.some.inj hknown
  have hnamed : bothEnded.registry.catalog.Names (.numbered "#" 0) := Or.inr ⟨"5a", hknown⟩
  exact ⟨harrived, ⟨id, otherId, hinPlace, hthere, rename, hkept _ hnamed, hid⟩, hleft⟩

end Site

end MediaCatalog
