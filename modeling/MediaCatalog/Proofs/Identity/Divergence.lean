import MediaCatalog.Proofs.Identity.Interleaving
import MediaCatalog.Proofs.Identity.Undisturbed

/-!
Files whose content changed to something new. Such a file answers with the
identifier of its old content if it was the only file left with that content,
and otherwise with a new one. It does not matter which of the files was on
record first, nor whose own identifier became the canonical one.
-/

namespace MediaCatalog.Registry

/-- Resolves files one after another without interference. -/
def resolveAll (registry : Registry) (maxRetries : Nat) (around : Surroundings) :
    List Sighting → List (Except CatalogFault MediaId)
  | [] => []
  | seen :: rest =>
      (registry.resolve maxRetries around seen).answer ::
        (registry.resolve maxRetries around seen).registry.resolveAll maxRetries around rest

/-- All files that are there and on record with a content were edited, each to
a new content of its own, and are seen with new sizes or times. -/
structure Edited (registry : Registry) (around : Surroundings) (hash : String)
    (copies : List Sighting) : Prop where
  complete : ∀ path, (∃ seen ∈ copies, seen.path = path) ↔
    ∃ file ∈ registry.catalog.files,
      file.path = path ∧ file.hash = hash ∧ around.present path = true
  once : (copies.map Sighting.path).Nodup
  stale : ∀ seen ∈ copies, ∀ old, registry.catalog.record? seen.path = some old →
    old.upToDate seen.size seen.modified = false
  read : ∀ seen ∈ copies, ∃ digest,
    around.digest seen.path = .ok digest ∧ registry.catalog.canonical? digest = none
  apart : (copies.map fun seen => around.digest seen.path).Nodup

variable {registry : Registry} {around : Surroundings} {seen : Sighting}

/-- A file that was read and found to have new content answers with the
identifier of its old content exactly if no companion is there. -/
theorem Settlement.answer_eq_iff {present : String → Bool} {after : Registry}
    {digest : Option String} {id known : MediaId} {old new : FileRecord}
    {gone : List FileRecord}
    (hsettled : Settlement present registry after seen digest id new gone)
    (hold : registry.catalog.record? seen.path = some old)
    (hknown : registry.catalog.canonical? old.hash = some known)
    (hnew : registry.catalog.canonical? new.hash = none) :
    id = known ↔ ∀ file ∈ registry.companions old, present file.path = false := by
  have hown : id = new.id := by
    rw [hsettled.answer_eq, hnew]
    rfl
  have hchanged : new.hash ≠ old.hash := by
    intro hsame
    rw [hsame, hknown] at hnew
    cases hnew
  rw [hown]
  rcases (hold ▸ hsettled.allotment).own_of_edit hchanged hknown with
    ⟨halone, hid⟩ | ⟨hshared, hother, hid⟩ | ⟨hshared, -, hid⟩
  · exact ⟨fun _ => halone, fun _ => hid⟩
  · rw [hid]
    exact ⟨fun hsame => absurd hsame.symm hother, fun halone => absurd halone hshared⟩
  · have hfresh : new.id ≠ known := by
      rintro rfl
      rw [hid] at hknown
      exact registry.fresh_ne_canonical old.hash hknown
    exact ⟨fun hsame => absurd hsame hfresh, fun halone => absurd halone hshared⟩

/-- When one of several edited copies was resolved, the others are as they
were. -/
private theorem Edited.rest {hash : String} {rest : List Sighting} {after : Registry}
    {id known : MediaId} {new : FileRecord} {gone : List FileRecord}
    (hsound : registry.Sound) (hedited : Edited registry around hash (seen :: rest))
    (hknown : registry.catalog.canonical? hash = some known)
    (hdigest : around.digest seen.path = .ok new.hash)
    (hsettled : Settlement around.present registry after seen (some new.hash) id new gone) :
    Edited after around hash rest := by
  obtain ⟨honce, hrestOnce⟩ := List.nodup_cons.mp hedited.once
  obtain ⟨hapart, hrestApart⟩ := List.nodup_cons.mp hedited.apart
  have hpath {other : Sighting} (hother : other ∈ rest) : other.path ≠ seen.path := by
    intro hsame
    exact honce (hsame ▸ List.mem_map_of_mem hother)
  -- A copy that is there does not give way to another.
  have hrecord {other : Sighting} (hother : other ∈ rest) :
      after.catalog.record? other.path = registry.catalog.record? other.path := by
    rcases hsettled.record?_other hsound.paths (hpath hother) with hsame | ⟨_, habsent⟩
    · exact hsame
    · obtain ⟨_, _, _, _, hthere⟩ :=
        (hedited.complete other.path).mp ⟨other, List.mem_cons_of_mem _ hother, rfl⟩
      rw [habsent] at hthere
      cases hthere
  refine ⟨?_, hrestOnce, ?_, ?_, hrestApart⟩
  · intro path
    constructor
    · rintro ⟨other, hother, rfl⟩
      obtain ⟨file, hfile, hsame, hhash, hthere⟩ :=
        (hedited.complete other.path).mp ⟨other, List.mem_cons_of_mem _ hother, rfl⟩
      have hkept : after.catalog.record? other.path = some file := by
        rw [hrecord hother, Catalog.record?_eq_some_iff hsound.paths]
        exact ⟨hfile, hsame⟩
      exact ⟨file, Catalog.mem_of_record? hkept, hsame, hhash, hthere⟩
    · rintro ⟨file, hfile, rfl, hhash, hthere⟩
      rcases (hsettled.files file).mp hfile with hsame | ⟨hbefore, hother, _⟩
      · obtain ⟨other, hread, hunknown⟩ := hedited.read seen List.mem_cons_self
        obtain rfl : other = new.hash := by simpa [hdigest] using hread.symm
        rw [← hsame, hhash, hknown] at hunknown
        cases hunknown
      · obtain ⟨other, hmem, hsame⟩ :=
          (hedited.complete file.path).mpr ⟨file, hbefore, rfl, hhash, hthere⟩
        rcases List.mem_cons.mp hmem with rfl | hmem
        · rw [hsettled.path] at hother
          exact absurd hsame.symm hother
        · exact ⟨other, hmem, hsame⟩
  · intro other hother old hold
    rw [hrecord hother] at hold
    exact hedited.stale other (List.mem_cons_of_mem _ hother) old hold
  · intro other hother
    obtain ⟨found, hread, hunknown⟩ := hedited.read other (List.mem_cons_of_mem _ hother)
    refine ⟨found, hread, ?_⟩
    rw [hsettled.canonical?_eq, if_neg ?_, hunknown]
    rintro rfl
    exact hapart (List.mem_map.mpr ⟨other, hother, hread.trans hdigest.symm⟩)

section Edit

variable (hsound : registry.Sound) (hunlocked : around.locked = false) (maxRetries : Nat)

include hsound hunlocked

/-- One edited file keeps the identifier of its old content exactly if no
other file with that content is there. -/
theorem resolve_edited {hash : String} {old : FileRecord}
    (hold : registry.catalog.record? seen.path = some old)
    (hstale : old.upToDate seen.size seen.modified = false)
    (hdigest : around.digest seen.path = .ok hash)
    (hnew : registry.catalog.canonical? hash = none) :
    ∃ known id, registry.catalog.canonical? old.hash = some known ∧
      (registry.resolve maxRetries around seen).answer = .ok id ∧
      (id = known ↔ ∀ other ∈ registry.catalog.files, other.path ≠ seen.path →
        other.hash = old.hash → around.present other.path = false) ∧
      ∃ new gone, new.hash = hash ∧
        Settlement around.present registry (registry.resolve maxRetries around seen).registry
          seen (some hash) id new gone := by
  have hmem : old ∈ registry.catalog.files := Catalog.mem_of_record? hold
  obtain ⟨known, hknown⟩ := Option.isSome_iff_exists.mp (hsound.settled old hmem)
  have hbehind : ∀ other, registry.catalog.record? seen.path = some other →
      other.upToDate seen.size seen.modified = false := by
    intro other hother
    obtain rfl : old = other := by simpa [hold] using hother
    exact hstale
  obtain ⟨id, new, gone, hanswer, hsettled, rfl⟩ :=
    resolve_of_stale hbehind hsound.paths hunlocked maxRetries hdigest
  refine ⟨known, id, hknown, hanswer, ?_, new, gone, rfl, hsettled⟩
  rw [hsettled.answer_eq_iff hold hknown hnew]
  constructor
  · intro halone other hother hpath hsame
    refine halone other (mem_companions.mpr ⟨hother, hsame, ?_⟩)
    rw [Catalog.path_of_record? hold]
    exact hpath
  · intro halone other hother
    obtain ⟨hother, hsame, hpath⟩ := mem_companions.mp hother
    rw [Catalog.path_of_record? hold] at hpath
    exact halone other hother hpath hsame

/-- One of the edited copies keeps the identifier exactly if there is no other. -/
private theorem Edited.answer {hash : String} {copies : List Sighting}
    (hedited : Edited registry around hash copies) (hseen : seen ∈ copies) :
    ∃ known id, registry.catalog.canonical? hash = some known ∧
      (registry.resolve maxRetries around seen).answer = .ok id ∧
      (id = known ↔ ∀ other ∈ copies, other.path = seen.path) ∧
      ∃ new gone, around.digest seen.path = .ok new.hash ∧
        Settlement around.present registry (registry.resolve maxRetries around seen).registry
          seen (some new.hash) id new gone := by
  obtain ⟨old, hmem, hpath, hhash, -⟩ := (hedited.complete seen.path).mp ⟨seen, hseen, rfl⟩
  have hold : registry.catalog.record? seen.path = some old :=
    (Catalog.record?_eq_some_iff hsound.paths).mpr ⟨hmem, hpath⟩
  obtain ⟨digest, hdigest, hnew⟩ := hedited.read seen hseen
  obtain ⟨known, id, hknown, hanswer, hiff, new, gone, rfl, hsettled⟩ :=
    resolve_edited hsound hunlocked maxRetries hold
      (hedited.stale seen hseen old hold) hdigest hnew
  refine ⟨known, id, hhash ▸ hknown, hanswer, ?_, new, gone, hdigest, hsettled⟩
  rw [hiff, hhash]
  constructor
  · intro halone other hother
    obtain ⟨file, hfile, hsame, hfileHash, hthere⟩ :=
      (hedited.complete other.path).mp ⟨other, hother, rfl⟩
    by_contra hne
    have habsent := halone file hfile (hsame ▸ hne) hfileHash
    rw [hsame, hthere] at habsent
    cases habsent
  · intro halone file hfile hne hfileHash
    by_contra hthere
    obtain ⟨other, hother, hsame⟩ := (hedited.complete file.path).mpr
      ⟨file, hfile, rfl, hfileHash, by simpa using hthere⟩
    exact hne (hsame ▸ halone other hother)

/-- Of the copies of a content that were all edited, the last to be resolved
gets its identifier. The induction is on the copies before the last, which
meet that one with the old content on record and are given new identifiers. -/
theorem Edited.resolveAll_answers {hash : String} {copies : List Sighting} {last : Sighting}
    (hedited : Edited registry around hash (copies ++ [last])) :
    ∃ known, registry.catalog.canonical? hash = some known ∧ ∃ ids : List MediaId,
      registry.resolveAll maxRetries around (copies ++ [last]) =
        ids.map Except.ok ++ [.ok known] ∧
      ids.length = copies.length ∧ known ∉ ids := by
  induction copies generalizing registry with
  | nil =>
      obtain ⟨known, id, hknown, hanswer, hiff, -⟩ :=
        hedited.answer hsound hunlocked maxRetries (List.mem_singleton_self last)
      have hid : id = known := by
        apply hiff.mpr
        intro other hother
        rw [List.mem_singleton.mp hother]
      refine ⟨known, hknown, [], ?_, rfl, List.not_mem_nil⟩
      simp [resolveAll, hanswer, hid]
  | cons seen rest ih =>
      obtain ⟨known, id, hknown, hanswer, hiff, new, gone, hdigest, hsettled⟩ :=
        hedited.answer hsound hunlocked maxRetries List.mem_cons_self
      have hid : id ≠ known := by
        intro hsame
        have hlast := hiff.mp hsame last (by simp)
        apply (List.nodup_cons.mp hedited.once).1
        rw [← hlast]
        exact List.mem_map_of_mem (by simp)
      have hrest := hedited.rest hsound hknown hdigest hsettled
      obtain ⟨kept, hkept, ids, hanswers, hlength, hnot⟩ := ih (hsettled.sound hsound) hrest
      obtain rfl : known = kept := by
        rw [hsettled.canonical?_mono hknown] at hkept
        exact Option.some.inj hkept
      refine ⟨known, hknown, id :: ids, ?_, ?_, ?_⟩
      · simp only [List.cons_append, resolveAll, hanswer, hanswers, List.map_cons]
      · simp [hlength]
      · simp [hid.symm, hnot]

end Edit

end MediaCatalog.Registry

namespace MediaCatalog.Site

/-- Whatever went on before: a file with new content keeps the identifier of
its old content exactly if no other file on record with that content is there,
and when all files with one content are edited, each in its own way, and
resolved one after another in any order, the last one keeps it and no other. -/
theorem edited_answers {site : Site} (hreach : site.Reachable)
    (hunlocked : site.around.locked = false) (maxRetries : Nat) :
    (∀ seen old hash, site.registry.catalog.record? seen.path = some old →
      old.upToDate seen.size seen.modified = false →
      site.around.digest seen.path = .ok hash →
      site.registry.catalog.canonical? hash = none →
        ∃ known id, site.registry.catalog.canonical? old.hash = some known ∧
          (site.registry.resolve maxRetries site.around seen).answer = .ok id ∧
          (id = known ↔ ∀ other ∈ site.registry.catalog.files, other.path ≠ seen.path →
            other.hash = old.hash → site.around.present other.path = false)) ∧
    ∀ hash copies last, site.registry.Edited site.around hash (copies ++ [last]) →
      ∃ known, site.registry.catalog.canonical? hash = some known ∧ ∃ ids : List MediaId,
        site.registry.resolveAll maxRetries site.around (copies ++ [last]) =
          ids.map Except.ok ++ [.ok known] ∧
        ids.length = copies.length ∧ known ∉ ids := by
  have hsound := hreach.sound
  constructor
  · intro seen old hash hold hstale hdigest hnew
    obtain ⟨known, id, hknown, hanswer, hiff, -⟩ :=
      Registry.resolve_edited hsound hunlocked maxRetries hold hstale hdigest hnew
    exact ⟨known, id, hknown, hanswer, hiff⟩
  · intro hash copies last hedited
    exact hedited.resolveAll_answers hsound hunlocked maxRetries

/-- The two identical files on record have been edited since. -/
def diverged : Site :=
  { bothEnded with
    around :=
      ⟨fun _ => true, fun path => .ok (if path = "/a" then "6b" else "7c"), false⟩ }

theorem diverged_reachable : diverged.Reachable :=
  bothEnded_reachable.of_later (.single (.disturb bothEnded diverged.around))

/-- The file that was resolved first is also the first to be resolved again,
and so it loses the identifier to its copy. -/
theorem diverged_answers :
    ∃ id, id ≠ MediaId.numbered "#" 0 ∧
      diverged.registry.resolveAll 0 diverged.around [⟨"/a", 2, 8⟩, ⟨"/b", 2, 8⟩] =
        [.ok id, .ok (.numbered "#" 0)] := by
  have hedited : diverged.registry.Edited diverged.around "5a"
      ([⟨"/a", 2, 8⟩] ++ [⟨"/b", 2, 8⟩]) := by
    refine ⟨?_, by decide, ?_, ?_, by decide⟩
    · intro path
      simp [diverged, bothEnded, Registry.ofSeries]
    · intro seen hseen old hold
      rcases List.mem_cons.mp hseen with rfl | hseen
      · obtain rfl := Option.some.inj hold
        rfl
      · obtain rfl := List.mem_singleton.mp hseen
        obtain rfl := Option.some.inj hold
        rfl
    · intro seen hseen
      rcases List.mem_cons.mp hseen with rfl | hseen
      · exact ⟨"6b", rfl, rfl⟩
      · obtain rfl := List.mem_singleton.mp hseen
        exact ⟨"7c", rfl, rfl⟩
  obtain ⟨known, hknown, ids, hanswers, hlength, hnot⟩ :=
    (edited_answers diverged_reachable rfl 0).2 "5a" _ _ hedited
  obtain rfl : MediaId.numbered "#" 0 = known := Option.some.inj hknown
  obtain ⟨id, rfl⟩ := List.length_eq_one_iff.mp hlength
  refine ⟨id, ?_, hanswers⟩
  rintro rfl
  exact hnot List.mem_cons_self

end MediaCatalog.Site
