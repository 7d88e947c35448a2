import MediaCatalog.Proofs.Identity.Undisturbed

/-!
A file that did not change, visited again. The first visit clears the mark of
the record and installs a canonical identifier where there is none. It may also
let the path take over the canonical identifier, with the place of the records
that hold it, or write the record back as it is: that happens where the holders
of the identifier are gone, but another file with the content is there. Each of
these leaves nothing for a second visit to change.
-/

namespace MediaCatalog

namespace Registry

/-- `current` is the record of its path and bears no mark, and `id` is canonical
for its content. -/
structure Visited (registry : Registry) (current : FileRecord) (id : MediaId) : Prop where
  record : registry.catalog.record? current.path = some current
  unmarked : current.missing = false
  canonical : registry.catalog.canonical? current.hash = some id

/-- Whether some file is there that was given the identifier. -/
def isHeld (present : String → Bool) (registry : Registry) (id : MediaId) : Bool :=
  (registry.catalog.withId id).any fun file => present file.path

/-- Whether a companion of the record is there. -/
def isShared (present : String → Bool) (registry : Registry) (old : FileRecord) : Bool :=
  (registry.companions old).any fun file => present file.path

/-- The record is written back as it is. -/
def rewritten (registry : Registry) (current : FileRecord) : Registry :=
  { registry with catalog := registry.catalog.replaceFile current }

/-- The path takes over the identifier, and the place of its companions. -/
def takenOver (registry : Registry) (current : FileRecord) (id : MediaId) : Registry :=
  { registry with
    catalog := (registry.catalog.replaceFile { current with id }).removeFiles
      (registry.companions current) }

/-- What a visit leaves, once mark and content are settled. -/
def afterVisit (present : String → Bool) (registry : Registry) (current : FileRecord)
    (id : MediaId) : Registry :=
  if id = current.id || registry.isHeld present id then registry
  else if registry.isShared present current then registry.rewritten current
  else registry.takenOver current id

variable (present : String → Bool) {registry : Registry} {old current : FileRecord} {id : MediaId}

/-- An unchanged record is put in its own place, or takes over the identifier. -/
theorem revise_self (hcanonical : registry.catalog.canonical? old.hash = some id)
    (hother : id ≠ old.id) :
    (registry.revise present old old).2 =
      if registry.isShared present old then registry.rewritten old
      else registry.takenOver old id := by
  have hany : ((registry.companions old).any fun file => present file.path) =
      registry.isShared present old := rfl
  unfold revise
  simp only [hcanonical, hany]
  cases registry.isShared present old with
  | true => simp [hother, rewritten]
  | false => simp [hother, takenOver]

theorem canonical?_settled (registry : Registry) (hash : String) (own : MediaId) :
    (registry.settle hash own).2.catalog.canonical? hash =
      some (registry.settle hash own).1 := by
  rw [canonical?_settle, settle_answer, if_pos rfl]

/-- A visit clears the mark and settles the content, and then goes on from there. -/
theorem revisit_eq (registry : Registry) (old : FileRecord) :
    let settled := (registry.unmark old).settle old.hash old.id
    registry.revisit present old = (settled.1, settled.2.afterVisit present old settled.1) := by
  intro settled
  have hcanonical : settled.2.catalog.canonical? old.hash = some settled.1 :=
    canonical?_settled (registry.unmark old) old.hash old.id
  have hvisit : registry.revisit present old =
      if settled.1 ≠ old.id && !settled.2.isHeld present settled.1 then
        (settled.1, (settled.2.revise present old old).2)
      else settled := rfl
  rw [hvisit, afterVisit]
  by_cases hsame : settled.1 = old.id
  · rw [if_neg (by simp [hsame]), if_pos (by simp [hsame])]
  · rw [revise_self present hcanonical hsame]
    cases settled.2.isHeld present settled.1 with
    | true => simp
    | false => simp [hsame]

/-- What a visit has then settled. -/
theorem visited_settle (hold : registry.catalog.record? old.path = some old) :
    let settled := (registry.unmark old).settle old.hash old.id
    settled.2.Visited old.cleared settled.1 where
  unmarked := rfl
  canonical := canonical?_settled (registry.unmark old) old.hash old.id
  record := by
    have hfiles : ((registry.unmark old).settle old.hash old.id).2.catalog.files = _ :=
      files_settle (registry.unmark old) old.hash old.id
    rw [Catalog.record?, hfiles]
    change (registry.unmark old).catalog.record? old.path = some old.cleared
    unfold unmark
    split
    · rw [Catalog.record?_setMissing, hold, Option.map_some]
    · rename_i hlive
      rw [hold, FileRecord.cleared_of_unmarked (by simpa using hlive)]

theorem companions_rewritten (registry : Registry) (current : FileRecord) :
    (registry.rewritten current).companions current = registry.companions current := by
  apply companions_map
  · intro file hpath
    exact if_neg hpath
  · intro file
    split
    · rename_i hpath
      exact hpath.symm
    · rfl

namespace Visited

/-- Nothing is left to clear or to install. -/
theorem revisit_eq (hvisited : registry.Visited current id) :
    registry.revisit present current = (id, registry.afterVisit present current id) := by
  have hunmark : registry.unmark current = registry := by
    simp [unmark, hvisited.unmarked]
  have hsettle : registry.settle current.hash current.id = (id, registry) := by
    simp [settle, hvisited.canonical]
  rw [Registry.revisit_eq, hunmark, hsettle]

theorem rewritten (hvisited : registry.Visited current id) :
    (registry.rewritten current).Visited current id where
  record := by
    rw [Registry.rewritten, Catalog.record?_replaceFile, hvisited.record, Option.map_some,
      FileRecord.cleared_of_unmarked hvisited.unmarked]
  unmarked := hvisited.unmarked
  canonical := hvisited.canonical

theorem takenOver (hvisited : registry.Visited current id) :
    (registry.takenOver current id).Visited { current with id } id where
  record := by
    have hkept : ∀ stale ∈ registry.companions current, stale.path ≠ current.path :=
      fun stale hstale => (mem_companions.mp hstale).2.2
    have hplaced := registry.catalog.record?_replaceFile { current with id }
    rw [Registry.takenOver, Catalog.record?_removeFiles _ hkept, hplaced, hvisited.record,
      Option.map_some]
    exact congrArg some (FileRecord.cleared_of_unmarked hvisited.unmarked)
  unmarked := hvisited.unmarked
  canonical := by
    rw [Catalog.canonical?, Registry.takenOver, Catalog.canonical_removeFiles]
    exact hvisited.canonical

/-- A visit leaves the path with its size and its time, and a second one leaves
everything as it is. -/
theorem again (hvisited : registry.Visited current id) :
    let after := registry.afterVisit present current id
    ∃ left : FileRecord, left.path = current.path ∧ left.size = current.size ∧
      left.modified = current.modified ∧ after.Visited left id ∧
      after.afterVisit present left id = after := by
  intro after
  by_cases hkept : (id = current.id || registry.isHeld present id) = true
  · have hafter : after = registry := if_pos hkept
    rw [hafter]
    exact ⟨current, rfl, rfl, rfl, hvisited, hafter⟩
  · cases hshared : registry.isShared present current with
    | false =>
        have hafter : after = registry.takenOver current id :=
          (if_neg hkept).trans (if_neg (by simp [hshared]))
        rw [hafter]
        exact ⟨{ current with id }, rfl, rfl, rfl, hvisited.takenOver, if_pos (by simp)⟩
    | true =>
        have hafter : after = registry.rewritten current := (if_neg hkept).trans (if_pos hshared)
        have hagain : after.isShared present current = true := by
          rw [hafter, isShared, companions_rewritten, ← isShared, hshared]
        have hwritten : after.rewritten current = after := by
          simp only [hafter, Registry.rewritten, Catalog.replaceFile_replaceFile]
        refine ⟨current, rfl, rfl, rfl, hafter ▸ hvisited.rewritten, ?_⟩
        simp only [afterVisit, hagain, if_true, hwritten, ite_self]

end Visited

/-- A file that is seen as it is on record, twice without interference: it is not
read, both calls answer with the same identifier, and the second leaves all that
the first has left. -/
theorem resolve_again {around : Surroundings} (hunlocked : around.locked = false) {path : String}
    (hold : registry.catalog.record? path = some old) (maxRetries laterRetries : Nat) :
    let seen : Sighting := ⟨path, old.size, old.modified⟩
    ∃ id after, registry.resolve maxRetries around seen = ⟨.ok id, 0, after⟩ ∧
      after.resolve laterRetries around seen = ⟨.ok id, 0, after⟩ := by
  intro seen
  obtain rfl : old.path = path := Catalog.path_of_record? hold
  have hcurrent {record : FileRecord} (hsize : record.size = old.size)
      (hmodified : record.modified = old.modified) :
      record.upToDate seen.size seen.modified = true := by
    simp [FileRecord.upToDate, seen, hsize, hmodified]
  obtain ⟨left, hpath, hsize, hmodified, hvisited, hagain⟩ :=
    (visited_settle hold).again around.present
  have hfirst := revisit_eq around.present registry old
  generalize (registry.unmark old).settle old.hash old.id = settled at *
  obtain ⟨id, between⟩ := settled
  have hleft := hvisited.record
  rw [hpath] at hleft
  refine ⟨id, between.afterVisit around.present old id, ?_, ?_⟩
  · apply resolve_of_upToDate hunlocked hold (hcurrent rfl rfl)
    rw [reconcile_unchanged around.present hold (hcurrent rfl rfl), hfirst]
  · apply resolve_of_upToDate hunlocked hleft (hcurrent hsize hmodified)
    rw [reconcile_unchanged around.present hleft (hcurrent hsize hmodified)]
    exact congrArg some ((hvisited.revisit_eq around.present).trans (congrArg (Prod.mk id) hagain))

/-- A file that was marked missing is back, and the one that holds the identifier
of its content is gone. The first call gives it the place of the other. -/
theorem resolve_again_takingOver :
    let around : Surroundings := ⟨fun path => path = "/b", fun _ => .error .notFound, false⟩
    let registry := ofSeries [⟨"/a", 5, 1, "5a", .numbered "#" 0, false⟩,
      ⟨"/b", 5, 1, "5a", .numbered "#" 1, true⟩] [⟨"5a", .numbered "#" 0⟩] 2
    let after := ofSeries [⟨"/b", 5, 1, "5a", .numbered "#" 0, false⟩] [⟨"5a", .numbered "#" 0⟩] 2
    around.locked = false ∧
      registry.catalog.record? "/b" = some ⟨"/b", 5, 1, "5a", .numbered "#" 1, true⟩ ∧
      registry.resolve 3 around ⟨"/b", 5, 1⟩ = ⟨.ok (.numbered "#" 0), 0, after⟩ ∧
      after.resolve 3 around ⟨"/b", 5, 1⟩ = ⟨.ok (.numbered "#" 0), 0, after⟩ := by
  intro around registry after
  have hold : registry.catalog.record? "/b" = some ⟨"/b", 5, 1, "5a", .numbered "#" 1, true⟩ := rfl
  have hfirst : registry.resolve 3 around ⟨"/b", 5, 1⟩ = ⟨.ok (.numbered "#" 0), 0, after⟩ :=
    resolve_of_upToDate rfl hold rfl rfl
  have hunlocked : around.locked = false := rfl
  obtain ⟨id, left, hanswer, hagain⟩ := resolve_again hunlocked hold 3 3
  injection hfirst.symm.trans hanswer with hid _ hleft
  injection hid with hid
  subst hid hleft
  exact ⟨hunlocked, hold, hfirst, hagain⟩

end Registry

end MediaCatalog
