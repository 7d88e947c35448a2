import Mathlib.Data.List.Nodup
import MediaCatalog.Proofs.Identity.Divergence
import MediaCatalog.Proofs.Identity.Relocation

/-!
New files may be found in any order. A content that has its identifier answers
with it, and a content without one is on no record, so that the first file
found with it is given a new identifier, which the others then answer with.
Which file comes first decides only which of the new identifiers it is.

So two runs over the same files differ by a renaming of new identifiers. It is
put together from the rows that the runs add, content by content.
-/

namespace MediaCatalog

/-- One identifier after another can be sent where it is wanted, as long as no
two start or end at the same place. -/
theorem exists_rename {α : Type} [DecidableEq α] (pairs : List (α × α))
    (hfrom : (pairs.map Prod.fst).Nodup) (hto : (pairs.map Prod.snd).Nodup) :
    ∃ rename : Equiv.Perm α, (∀ pair ∈ pairs, rename pair.1 = pair.2) ∧
      ∀ other, other ∉ pairs.map Prod.fst → other ∉ pairs.map Prod.snd →
        rename other = other := by
  induction pairs with
  | nil => exact ⟨Equiv.refl α, nofun, fun _ _ _ => rfl⟩
  | cons pair rest ih =>
      obtain ⟨hfirst, hfrom⟩ := List.nodup_cons.mp hfrom
      obtain ⟨hlast, hto⟩ := List.nodup_cons.mp hto
      obtain ⟨rename, hsent, hkept⟩ := ih hfrom hto
      -- The new pair is sent right by a swap behind the renaming of the others.
      refine ⟨rename.trans (Equiv.swap (rename pair.1) pair.2), ?_, ?_⟩
      · intro other hother
        rw [Equiv.trans_apply]
        rcases List.mem_cons.mp hother with rfl | hother
        · exact Equiv.swap_apply_left _ _
        · have hne : other.1 ≠ pair.1 :=
            ne_of_mem_of_not_mem (List.mem_map_of_mem hother) hfirst
          have hne' : other.2 ≠ pair.2 :=
            ne_of_mem_of_not_mem (List.mem_map_of_mem hother) hlast
          rw [hsent other hother, Equiv.swap_apply_of_ne_of_ne ?_ hne']
          rw [← hsent other hother]
          exact fun hsame => hne (rename.injective hsame)
      · intro other hnotFrom hnotTo
        obtain ⟨hne, hnotFrom⟩ := not_or.mp (mt List.mem_cons.mpr hnotFrom)
        obtain ⟨hne', hnotTo⟩ := not_or.mp (mt List.mem_cons.mpr hnotTo)
        have hfixed := hkept other hnotFrom hnotTo
        rw [Equiv.trans_apply, hfixed, Equiv.swap_apply_of_ne_of_ne ?_ hne']
        rw [← hfixed]
        exact fun hsame => hne (rename.injective hsame)

namespace Registry

/-- The registry once files were resolved one after another. -/
def resolvedAll (registry : Registry) (maxRetries : Nat) (around : Surroundings) :
    List Sighting → Registry
  | [] => registry
  | seen :: rest =>
      (registry.resolve maxRetries around seen).registry.resolvedAll maxRetries around rest

/-- What a file that was read is told when its content is on record as in the
catalog. -/
def told (around : Surroundings) (catalog : Catalog) (seen : Sighting) :
    Except CatalogFault MediaId :=
  match around.digest seen.path with
  | .error fault => .error (.unreadable (.ofText seen.path) fault)
  | .ok hash => .ok ((catalog.canonical? hash).getD default)

/-- What is added to the canonical identifiers when new files are found: a row
for each content that had none, with an identifier that was never issued. -/
structure Discovery (around : Surroundings) (before after : Registry) (seen : List Sighting)
    (added : List CanonicalRow) : Prop where
  canonical : after.catalog.canonical = before.catalog.canonical ++ added
  hash_mem : ∀ hash, hash ∈ added.map CanonicalRow.hash ↔
    before.catalog.canonical? hash = none ∧ ∃ file ∈ seen, around.digest file.path = .ok hash
  hashes : (added.map CanonicalRow.hash).Nodup
  ids : (added.map CanonicalRow.id).Nodup
  fresh : ∀ row ∈ added,
    ¬ before.supply.Issued row.id ∧ row.id ∉ before.catalog.canonical.map CanonicalRow.id
  given : ∀ row ∈ added, after.supply.Issued row.id
  issued : ∀ id, before.supply.Issued id → after.supply.Issued id

section Discovery

variable {around : Surroundings} {before middle after : Registry} {seen others : List Sighting}
  {added more : List CanonicalRow}

theorem find?_hash_eq_none {rows : List CanonicalRow} {hash : String} :
    (rows.find? fun row => row.hash = hash) = none ↔ hash ∉ rows.map CanonicalRow.hash := by
  simp [List.find?_eq_none]

namespace Discovery

variable (hfound : Discovery around before after seen added)

include hfound

theorem canonical?_eq (hash : String) :
    after.catalog.canonical? hash = (before.catalog.canonical? hash).or
      ((added.find? fun row => row.hash = hash).map CanonicalRow.id) := by
  simp only [Catalog.canonical?, hfound.canonical, List.find?_append]
  cases before.catalog.canonical.find? fun row => row.hash = hash <;> rfl

theorem canonical?_eq_none {hash : String} :
    after.catalog.canonical? hash = none ↔
      before.catalog.canonical? hash = none ∧ hash ∉ added.map CanonicalRow.hash := by
  rw [hfound.canonical?_eq, Option.or_eq_none_iff, Option.map_eq_none_iff, find?_hash_eq_none]

/-- An added row is found under its content. -/
theorem canonical?_row {row : CanonicalRow} (hrow : row ∈ added) :
    after.catalog.canonical? row.hash = some row.id := by
  obtain ⟨hnone, -⟩ := (hfound.hash_mem row.hash).mp (List.mem_map_of_mem hrow)
  rw [hfound.canonical?_eq, hnone, Option.none_or]
  cases hother : added.find? fun other => other.hash = row.hash with
  | none => exact absurd (List.mem_map_of_mem hrow) (find?_hash_eq_none.mp hother)
  | some other =>
      have hhash : other.hash = row.hash := by simpa using List.find?_some hother
      have hsame : other = row :=
        List.inj_on_of_nodup_map hfound.hashes (List.mem_of_find?_eq_some hother) hrow hhash
      rw [hsame]
      rfl

theorem canonical?_mono {hash : String} {id : MediaId}
    (hknown : before.catalog.canonical? hash = some id) :
    after.catalog.canonical? hash = some id := by
  rw [hfound.canonical?_eq, hknown]
  rfl

/-- The content of a file that was found has its identifier. -/
theorem known {file : Sighting} (hfile : file ∈ seen) {hash : String}
    (hdigest : around.digest file.path = .ok hash) :
    ∃ id, after.catalog.canonical? hash = some id ∧
      (before.catalog.canonical? hash = none → ⟨hash, id⟩ ∈ added) := by
  cases hbefore : before.catalog.canonical? hash with
  | some id => exact ⟨id, hfound.canonical?_mono hbefore, nofun⟩
  | none =>
      obtain ⟨row, hrow, rfl⟩ :=
        List.mem_map.mp ((hfound.hash_mem hash).mpr ⟨hbefore, file, hfile, hdigest⟩)
      exact ⟨row.id, hfound.canonical?_row hrow, fun _ => hrow⟩

/-- One discovery behind another. -/
theorem append (hthen : Discovery around after middle others more) :
    Discovery around before middle (seen ++ others) (added ++ more) where
  canonical := by rw [hthen.canonical, hfound.canonical, List.append_assoc]
  hash_mem hash := by
    rw [List.map_append, List.mem_append, hfound.hash_mem, hthen.hash_mem,
      hfound.canonical?_eq_none, hfound.hash_mem]
    grind
  hashes := by
    rw [List.map_append]
    refine hfound.hashes.append hthen.hashes ?_
    intro hash hadded hmore
    obtain ⟨hnone, -⟩ := (hthen.hash_mem hash).mp hmore
    exact (hfound.canonical?_eq_none.mp hnone).2 hadded
  ids := by
    rw [List.map_append]
    refine hfound.ids.append hthen.ids ?_
    intro id hadded hmore
    obtain ⟨row, hrow, rfl⟩ := List.mem_map.mp hadded
    obtain ⟨other, hother, hid⟩ := List.mem_map.mp hmore
    exact (hthen.fresh other hother).1 (hid ▸ hfound.given row hrow)
  fresh row hrow := by
    rcases List.mem_append.mp hrow with hadded | hmore
    · exact hfound.fresh row hadded
    · obtain ⟨hissued, hcanonical⟩ := hthen.fresh row hmore
      refine ⟨fun hbefore => hissued (hfound.issued _ hbefore), ?_⟩
      rw [hfound.canonical, List.map_append, List.mem_append] at hcanonical
      exact fun hbefore => hcanonical (Or.inl hbefore)
  given row hrow := by
    rcases List.mem_append.mp hrow with hadded | hmore
    · exact hthen.issued _ (hfound.given row hadded)
    · exact hthen.given row hmore
  issued id hid := hthen.issued id (hfound.issued id hid)

end Discovery

theorem Discovery.none (hcanonical : after.catalog.canonical = before.catalog.canonical)
    (hissued : ∀ id, before.supply.Issued id → after.supply.Issued id)
    (hknown : ∀ file ∈ seen, ∀ hash, around.digest file.path = .ok hash →
      before.catalog.canonical? hash ≠ .none) : Discovery around before after seen [] where
  canonical := hcanonical.trans (List.append_nil _).symm
  hash_mem hash := by
    refine iff_of_false List.not_mem_nil ?_
    rintro ⟨hnone, file, hfile, hdigest⟩
    exact hknown file hfile hash hdigest hnone
  hashes := List.nodup_nil
  ids := List.nodup_nil
  fresh := nofun
  given := nofun
  issued := hissued

end Discovery

section Resolution

variable {registry : Registry} {around : Surroundings} {seen : Sighting}

/-- A new file whose content has no identifier is given a fresh one. -/
theorem Settlement.issued_of_unknown {present : String → Bool} {after : Registry}
    {digest : Option String} {id : MediaId} {new : FileRecord} {gone : List FileRecord}
    (hsettled : Settlement present registry after seen digest id new gone)
    (hsound : registry.Sound) (hnone : registry.catalog.record? seen.path = none)
    (hunknown : registry.catalog.canonical? new.hash = none) :
    id = registry.fresh.1 ∧ after.supply = registry.fresh.2.supply := by
  have hid : id = new.id := by
    rw [hsettled.answer_eq, hunknown]
    rfl
  have hvanished : registry.vanished present new.hash = [] := by
    rw [List.eq_nil_iff_forall_not_mem]
    intro file hfile
    obtain ⟨hmem, hhash, -⟩ := mem_vanished.mp hfile
    have hsome := hsound.settled file hmem
    rw [hhash, hunknown] at hsome
    cases hsome
  rw [hid]
  have hallotted := hsettled.allotment
  rw [hnone] at hallotted
  generalize after.supply = supply at hallotted ⊢
  cases hallotted with
  | adopted hsole =>
      rw [hvanished] at hsole
      cases hsole
  | issued hfresh => exact ⟨hfresh, rfl⟩

/-- One transaction for a new file adds at most the row of its content. -/
theorem Settlement.discovery {after : Registry} {id : MediaId} {new : FileRecord}
    {gone : List FileRecord}
    (hsettled : Settlement around.present registry after seen (some new.hash) id new gone)
    (hsound : registry.Sound) (hnone : registry.catalog.record? seen.path = none)
    (hdigest : around.digest seen.path = .ok new.hash) :
    ∃ added, Discovery around registry after [seen] added := by
  have hissued (other : MediaId) (hother : registry.supply.Issued other) :
      after.supply.Issued other := hsettled.allotment.issued_mono hother
  have hread (file : Sighting) (hfile : file ∈ [seen]) (hash : String)
      (hread : around.digest file.path = .ok hash) : new.hash = hash := by
    rw [List.mem_singleton.mp hfile, hdigest] at hread
    exact Except.ok.inj hread
  have hcanonical := hsettled.canonical
  rw [canonical_settle] at hcanonical
  cases hlook : registry.catalog.canonical? new.hash with
  | some known =>
      rw [hlook] at hcanonical
      refine ⟨[], .none hcanonical hissued ?_⟩
      intro file hfile hash hdigest
      rw [← hread file hfile hash hdigest, hlook]
      exact nofun
  | none =>
      obtain ⟨hid, hsupply⟩ := hsettled.issued_of_unknown hsound hnone hlook
      have hown : id = new.id := by
        rw [hsettled.answer_eq, hlook]
        rfl
      rw [hlook, ← hown] at hcanonical
      refine ⟨[⟨new.hash, id⟩], hcanonical, ?_, List.nodup_singleton _, List.nodup_singleton _,
        ?_, ?_, hissued⟩
      · intro hash
        rw [List.map_singleton, List.mem_singleton]
        constructor
        · rintro rfl
          exact ⟨hlook, seen, List.mem_cons_self, hdigest⟩
        · rintro ⟨-, file, hfile, hdigest⟩
          exact (hread file hfile hash hdigest).symm
      · intro row hrow
        obtain rfl := List.mem_singleton.mp hrow
        rw [hid]
        exact ⟨registry.supply.draw_not_issued _, registry.supply.draw_not_mem _⟩
      · intro row hrow
        obtain rfl := List.mem_singleton.mp hrow
        rw [hsupply, hid]
        exact registry.supply.issued_draw _

theorem resolve_new (hsound : registry.Sound) (hunlocked : around.locked = false)
    (hnone : registry.catalog.record? seen.path = none) (maxRetries : Nat) :
    let ended := registry.resolve maxRetries around seen
    ended.registry.Sound ∧
      (∃ added, Discovery around registry ended.registry [seen] added) ∧
      ended.answer = told around ended.registry.catalog seen ∧
      ∀ path, path ≠ seen.path → registry.catalog.record? path = none →
        ended.registry.catalog.record? path = none := by
  intro ended
  have hstale : ∀ old, registry.catalog.record? seen.path = some old →
      old.upToDate seen.size seen.modified = false := by
    rw [hnone]
    exact nofun
  cases hdigest : around.digest seen.path with
  | error fault =>
      have hended : ended = ⟨.error (.unreadable (.ofText seen.path) fault), 1, registry⟩ :=
        resolve_unreadable hstale hdigest
      have hunread : ∀ file ∈ [seen], ∀ hash, around.digest file.path = .ok hash →
          registry.catalog.canonical? hash ≠ none := by
        intro file hfile hash hread
        rw [List.mem_singleton.mp hfile, hdigest] at hread
        cases hread
      rw [hended, told, hdigest]
      exact ⟨hsound, ⟨[], .none rfl (fun _ hid => hid) hunread⟩, rfl, fun _ _ hother => hother⟩
  | ok hash =>
      obtain ⟨id, new, gone, hanswer, hsettled, rfl⟩ :=
        resolve_of_stale hstale hsound.paths hunlocked maxRetries hdigest
      have hlook : ended.registry.catalog.canonical? new.hash = some id := hsettled.canonical?_new
      refine ⟨hsettled.sound hsound, hsettled.discovery hsound hnone hdigest, ?_, ?_⟩
      · rw [told, hdigest]
        simp only [hlook]
        exact hanswer
      · intro path hne hother
        rcases hsettled.record?_other hsound.paths hne with hkept | ⟨hgone, -⟩
        · exact hkept.trans hother
        · exact hgone

/-- What a file is told does not change when more files are found. -/
theorem Discovery.told_eq {before middle after : Registry} {files others : List Sighting}
    {added more : List CanonicalRow} (hfound : Discovery around before middle files added)
    (hthen : Discovery around middle after others more) {file : Sighting} (hfile : file ∈ files) :
    told around after.catalog file = told around middle.catalog file := by
  unfold told
  split
  · rfl
  · rename_i hash hdigest
    obtain ⟨id, hknown, -⟩ := hfound.known hfile hdigest
    rw [hthen.canonical?_mono hknown, hknown]

/-- New files are told, one after another, what the catalog says in the end. -/
theorem resolveAll_new (hsound : registry.Sound) (hunlocked : around.locked = false)
    {files : List Sighting} (honce : (files.map Sighting.path).Nodup)
    (hnew : ∀ file ∈ files, registry.catalog.record? file.path = none) (maxRetries : Nat) :
    (∃ added, Discovery around registry (registry.resolvedAll maxRetries around files) files
      added) ∧
      registry.resolveAll maxRetries around files =
        files.map (told around (registry.resolvedAll maxRetries around files).catalog) := by
  induction files generalizing registry with
  | nil => exact ⟨⟨[], .none rfl (fun _ hid => hid) nofun⟩, rfl⟩
  | cons seen rest ih =>
      obtain ⟨hfirst, honce⟩ := List.nodup_cons.mp honce
      obtain ⟨hsound', ⟨added, hfound⟩, hanswer, hkept⟩ :=
        resolve_new hsound hunlocked (hnew seen List.mem_cons_self) maxRetries
      have hrest : ∀ file ∈ rest,
          (registry.resolve maxRetries around seen).registry.catalog.record? file.path = none := by
        intro file hfile
        have hne : file.path ≠ seen.path :=
          ne_of_mem_of_not_mem (List.mem_map_of_mem hfile) hfirst
        exact hkept file.path hne (hnew file (List.mem_cons_of_mem _ hfile))
      obtain ⟨⟨more, hthen⟩, hanswers⟩ := ih hsound' honce hrest
      refine ⟨⟨added ++ more, hfound.append hthen⟩, ?_⟩
      rw [resolveAll, hanswers, hanswer, resolvedAll, List.map_cons,
        ← hfound.told_eq hthen List.mem_cons_self]

end Resolution

section Orders

variable {around : Surroundings} {before other after otherAfter : Registry}
  {files others : List Sighting} {added more : List CanonicalRow}

/-- The row of the same content in another catalog. -/
def counterpart (catalog : Catalog) (row : CanonicalRow) : CanonicalRow :=
  ⟨row.hash, (catalog.canonical? row.hash).getD default⟩

theorem Discovery.counterpart_row (hfound : Discovery around before after files added)
    {row : CanonicalRow} (hrow : row ∈ added) : counterpart after.catalog row = row := by
  rw [counterpart, hfound.canonical?_row hrow, Option.getD_some]

/-- Two discoveries of the same files, from the same catalog, add rows for the
same contents. -/
theorem Discovery.perm_counterpart (hfound : Discovery around before after files added)
    (hother : Discovery around other otherAfter others more)
    (hsame : other.catalog = before.catalog) (hfiles : files.Perm others) :
    more.Perm (added.map (counterpart otherAfter.catalog)) := by
  have hhashes (hash : String) :
      hash ∈ more.map CanonicalRow.hash ↔ hash ∈ added.map CanonicalRow.hash := by
    rw [hother.hash_mem, hfound.hash_mem, hsame]
    simp only [hfiles.mem_iff]
  have hcontents : (added.map (counterpart otherAfter.catalog)).map CanonicalRow.hash =
      added.map CanonicalRow.hash := by
    rw [List.map_map]
    rfl
  -- No content has two rows on either side, so it is enough that each row of
  -- one side is there on the other.
  have honce : (added.map (counterpart otherAfter.catalog)).Nodup :=
    .of_map CanonicalRow.hash (hcontents ▸ hfound.hashes)
  rw [List.perm_ext_iff_of_nodup (.of_map CanonicalRow.hash hother.hashes) honce]
  have hpartner {row source : CanonicalRow} (hrow : row ∈ more) (hhash : source.hash = row.hash) :
      counterpart otherAfter.catalog source = row := by
    rw [← hother.counterpart_row hrow, counterpart, hhash]
    rfl
  intro row
  constructor
  · intro hrow
    obtain ⟨source, hsource, hhash⟩ :=
      List.mem_map.mp ((hhashes row.hash).mp (List.mem_map_of_mem hrow))
    exact List.mem_map.mpr ⟨source, hsource, hpartner hrow hhash⟩
  · intro hrow
    obtain ⟨source, hsource, rfl⟩ := List.mem_map.mp hrow
    obtain ⟨row, hrow, hhash⟩ :=
      List.mem_map.mp ((hhashes source.hash).mpr (List.mem_map_of_mem hsource))
    rwa [hpartner hrow hhash.symm]

/-- The identifiers that two discoveries give are matched content by content. -/
theorem Discovery.exists_rename (hfound : Discovery around before after files added)
    (hother : Discovery around other otherAfter others more)
    (hsame : other.catalog = before.catalog) (hfiles : files.Perm others) :
    ∃ rename : Equiv.Perm MediaId,
      (∀ id, id ∉ added.map CanonicalRow.id → id ∉ more.map CanonicalRow.id → rename id = id) ∧
      more.Perm (added.map fun row => ⟨row.hash, rename row.id⟩) := by
  have hmatched := hfound.perm_counterpart hother hsame hfiles
  let pairs := added.map fun row => (row.id, (counterpart otherAfter.catalog row).id)
  have hfrom : pairs.map Prod.fst = added.map CanonicalRow.id := by
    rw [List.map_map]
    rfl
  have hto : (more.map CanonicalRow.id).Perm (pairs.map Prod.snd) := by
    have hids := hmatched.map CanonicalRow.id
    rw [List.map_map] at hids ⊢
    exact hids
  obtain ⟨rename, hsent, hkept⟩ := MediaCatalog.exists_rename pairs (hfrom ▸ hfound.ids)
    (hto.nodup_iff.mp hother.ids)
  refine ⟨rename, ?_, ?_⟩
  · intro id hadded hmore
    exact hkept id (hfrom ▸ hadded) (mt hto.mem_iff.mpr hmore)
  · have hrenamed : added.map (counterpart otherAfter.catalog) =
        added.map fun row => ⟨row.hash, rename row.id⟩ := by
      apply List.map_congr_left
      intro row hrow
      have hid : rename row.id = (counterpart otherAfter.catalog row).id :=
        hsent (row.id, (counterpart otherAfter.catalog row).id) (List.mem_map_of_mem hrow)
      rw [hid]
      rfl
    rwa [hrenamed] at hmatched

section Renamed

variable {rename : Equiv.Perm MediaId} (hfound : Discovery around before after files added)
  (hother : Discovery around other otherAfter others more)
  (hsame : other.catalog = before.catalog)

include hfound hother hsame

theorem Discovery.told_renamed
    (hnamed : ∀ named, before.catalog.Names named → rename named = named)
    (hmatched : more.Perm (added.map fun row => ⟨row.hash, rename row.id⟩)) {file : Sighting}
    (hfile : file ∈ files) :
    told around otherAfter.catalog file = (told around after.catalog file).map rename := by
  unfold told
  split
  · rfl
  · rename_i hash hdigest
    obtain ⟨id, hknown, hadded⟩ := hfound.known hfile hdigest
    have hrenamed : otherAfter.catalog.canonical? hash = some (rename id) := by
      cases hbefore : before.catalog.canonical? hash with
      | some known =>
          obtain rfl : known = id :=
            Option.some.inj ((hfound.canonical?_mono hbefore).symm.trans hknown)
          rw [hnamed known (Or.inr ⟨hash, hbefore⟩)]
          exact hother.canonical?_mono (hsame ▸ hbefore)
      | none =>
          have hrow : ⟨hash, rename id⟩ ∈ more :=
            hmatched.mem_iff.mpr (List.mem_map.mpr ⟨_, hadded hbefore, rfl⟩)
          exact hother.canonical?_row hrow
    rw [hrenamed, hknown]
    rfl

theorem Discovery.canonical_renamed
    (hkept : ∀ id, id ∉ added.map CanonicalRow.id → id ∉ more.map CanonicalRow.id →
      rename id = id)
    (hmatched : more.Perm (added.map fun row => ⟨row.hash, rename row.id⟩)) :
    otherAfter.catalog.canonical.Perm
      (after.catalog.canonical.map fun row => ⟨row.hash, rename row.id⟩) := by
  have hbefore : before.catalog.canonical.map (fun row => ⟨row.hash, rename row.id⟩) =
      before.catalog.canonical := by
    conv_rhs => rw [← List.map_id before.catalog.canonical]
    apply List.map_congr_left
    intro row hrow
    have hid : row.id ∈ before.catalog.canonical.map CanonicalRow.id := List.mem_map_of_mem hrow
    have hfixed : rename row.id = row.id := by
      apply hkept
      · intro hadded
        obtain ⟨new, hnew, heq⟩ := List.mem_map.mp hadded
        exact (hfound.fresh new hnew).2 (heq ▸ hid)
      · intro hmore
        obtain ⟨new, hnew, heq⟩ := List.mem_map.mp hmore
        exact (hother.fresh new hnew).2 (heq ▸ hsame ▸ hid)
    rw [hfixed]
    rfl
  rw [hother.canonical, hfound.canonical, hsame, List.map_append, hbefore]
  exact hmatched.append_left _

end Renamed

/-- Whatever the tables name was issued. -/
theorem AllIssued.issued_of_names (hissued : before.AllIssued) {id : MediaId}
    (hnamed : before.catalog.Names id) : before.supply.Issued id := by
  rcases hnamed with ⟨file, hfile, rfl⟩ | ⟨hash, hid⟩
  · exact hissued.own file hfile
  · exact hissued.canonical hash id hid

end Orders

end Registry

namespace Site

/-- In whatever order new files are found, each is told the same identifier and
the contents get the same identifiers, up to a renaming of new ones. The supply
of identifiers may be another in the second run. Files with one content are
told one identifier, and that of a content which had none is new. -/
theorem discovery_order {site : Site} (hreach : site.Reachable)
    (hunlocked : site.around.locked = false) {files others : List Sighting}
    (hfiles : files.Perm others) (honce : (files.map Sighting.path).Nodup)
    (hnew : ∀ file ∈ files, site.registry.catalog.record? file.path = none) {supply : IdSupply}
    (hissued : Registry.AllIssued ⟨site.registry.catalog, supply⟩) (maxRetries : Nat) :
    let before := site.registry.catalog
    let other : Registry := ⟨before, supply⟩
    let after := (site.registry.resolvedAll maxRetries site.around files).catalog
    let otherAfter := (other.resolvedAll maxRetries site.around others).catalog
    ∃ (answer : Sighting → Except CatalogFault MediaId) (rename : Equiv.Perm MediaId),
      site.registry.resolveAll maxRetries site.around files = files.map answer ∧
      other.resolveAll maxRetries site.around others =
        others.map (fun file => (answer file).map rename) ∧
      (∀ named, before.Names named → rename named = named) ∧
      otherAfter.canonical.Perm (after.canonical.map fun row => ⟨row.hash, rename row.id⟩) ∧
      (∀ file ∈ files, ∀ hash, site.around.digest file.path = .ok hash →
        ∃ id, answer file = .ok id ∧ after.canonical? hash = some id ∧
          (before.canonical? hash = none → ¬ before.Names id)) ∧
      ∀ file ∈ files, ∀ copy ∈ files, ∀ hash, site.around.digest file.path = .ok hash →
        site.around.digest copy.path = .ok hash → answer file = answer copy := by
  intro before other after otherAfter
  have hsound := hreach.sound
  have hotherSound : other.Sound := ⟨hissued, hsound.paths, hsound.settled⟩
  have hotherOnce : (others.map Sighting.path).Nodup :=
    (hfiles.map Sighting.path).nodup_iff.mp honce
  have hotherNew : ∀ file ∈ others, other.catalog.record? file.path = none :=
    fun file hfile => hnew file (hfiles.mem_iff.mpr hfile)
  obtain ⟨⟨added, hfound⟩, hanswers⟩ :=
    Registry.resolveAll_new hsound hunlocked honce hnew maxRetries
  obtain ⟨⟨more, hotherFound⟩, hotherAnswers⟩ :=
    Registry.resolveAll_new hotherSound hunlocked hotherOnce hotherNew maxRetries
  obtain ⟨rename, hkept, hmatched⟩ := hfound.exists_rename hotherFound rfl hfiles
  have hfresh {id : MediaId} (hid : id ∈ added.map CanonicalRow.id) : ¬ before.Names id := by
    obtain ⟨row, hrow, rfl⟩ := List.mem_map.mp hid
    exact fun hnamed => (hfound.fresh row hrow).1 (hsound.toAllIssued.issued_of_names hnamed)
  have hotherFresh {id : MediaId} (hid : id ∈ more.map CanonicalRow.id) : ¬ before.Names id := by
    obtain ⟨row, hrow, rfl⟩ := List.mem_map.mp hid
    exact fun hnamed => (hotherFound.fresh row hrow).1 (hissued.issued_of_names hnamed)
  have hnamed (named : MediaId) (hnamed : before.Names named) : rename named = named :=
    hkept named (fun hid => hfresh hid hnamed) fun hid => hotherFresh hid hnamed
  refine ⟨Registry.told site.around after, rename, hanswers, ?_, hnamed, ?_, ?_, ?_⟩
  · rw [hotherAnswers]
    apply List.map_congr_left
    intro file hfile
    exact hfound.told_renamed hotherFound rfl hnamed hmatched (hfiles.mem_iff.mpr hfile)
  · exact hfound.canonical_renamed hotherFound rfl hkept hmatched
  · intro file hfile hash hdigest
    obtain ⟨id, hknown, hadded⟩ := hfound.known hfile hdigest
    refine ⟨id, ?_, hknown, fun hnone => hfresh (List.mem_map_of_mem (hadded hnone))⟩
    rw [Registry.told, hdigest]
    simp only [after, hknown, Option.getD_some]
  · intro file _ copy _ hash hdigest hcopy
    rw [Registry.told, Registry.told, hdigest, hcopy]

/-- Two identical files are on record, and new ones turn up, one with their
content and the others with two new contents. -/
def scattered : Site :=
  { bothEnded with
    around :=
      ⟨fun _ => true,
        fun path => .ok (if path = "/c" then "5a" else if path = "/f" then "7c" else "6b"), false⟩ }

/-- Found in the opposite order, the files with new content are told the other
new identifiers, and the one with the old content what it was told before. -/
theorem scattered_discovery :
    ∃ (answer : Sighting → Except CatalogFault MediaId) (rename : Equiv.Perm MediaId),
      scattered.registry.resolveAll 0 scattered.around
          [⟨"/c", 1, 5⟩, ⟨"/d", 2, 5⟩, ⟨"/e", 2, 6⟩, ⟨"/f", 3, 5⟩] =
        [⟨"/c", 1, 5⟩, ⟨"/d", 2, 5⟩, ⟨"/e", 2, 6⟩, ⟨"/f", 3, 5⟩].map answer ∧
      scattered.registry.resolveAll 0 scattered.around
          [⟨"/f", 3, 5⟩, ⟨"/e", 2, 6⟩, ⟨"/d", 2, 5⟩, ⟨"/c", 1, 5⟩] =
        [⟨"/f", 3, 5⟩, ⟨"/e", 2, 6⟩, ⟨"/d", 2, 5⟩, ⟨"/c", 1, 5⟩].map
          (fun file => (answer file).map rename) ∧
      rename (.numbered "#" 0) = .numbered "#" 0 ∧ answer ⟨"/d", 2, 5⟩ = answer ⟨"/e", 2, 6⟩ := by
  have hreach : scattered.Reachable :=
    bothEnded_reachable.of_later (.single (.disturb bothEnded scattered.around))
  have hnew : ∀ file ∈ [(⟨"/c", 1, 5⟩ : Sighting), ⟨"/d", 2, 5⟩, ⟨"/e", 2, 6⟩, ⟨"/f", 3, 5⟩],
      scattered.registry.catalog.record? file.path = none := by decide
  obtain ⟨answer, rename, hanswers, hotherAnswers, hnamed, -, -, hcopies⟩ :=
    discovery_order hreach rfl (List.reverse_perm _).symm (by decide) hnew
      hreach.sound.toAllIssued 0
  refine ⟨answer, rename, hanswers, hotherAnswers, hnamed _ (Or.inr ⟨"5a", rfl⟩), ?_⟩
  exact hcopies _ (by decide) _ (by decide) "6b" rfl rfl

end Site

end MediaCatalog
