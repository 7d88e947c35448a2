import MediaCatalog.Proofs.Identity.Undisturbed

/-!
Upkeep has no influence on identity. Marks of missing files and tags are
written by cleaners and by those who tag, and resolution clears marks, but no
decision depends on either. A plain registry has neither, and a call does on it
what it does on the registry it comes from. So upkeep that is done between
calls, in whatever amount, does not show in their answers.
-/

namespace MediaCatalog

namespace Catalog

/-- The catalog without marks of missing files and without tags. -/
def plain (catalog : Catalog) : Catalog where
  files := catalog.files.map FileRecord.cleared
  canonical := catalog.canonical

variable (catalog : Catalog)

theorem record?_plain (path : String) :
    catalog.plain.record? path = (catalog.record? path).map FileRecord.cleared :=
  find?_map_cleared catalog.files path

theorem withHash_plain (hash : String) :
    catalog.plain.withHash hash = (catalog.withHash hash).map FileRecord.cleared :=
  List.filter_map

theorem withId_plain (id : MediaId) :
    catalog.plain.withId id = (catalog.withId id).map FileRecord.cleared :=
  List.filter_map

theorem plain_addFile (record : FileRecord) :
    (catalog.addFile record).plain = catalog.plain.addFile record.cleared := by
  simp [plain, addFile, FileRecord.cleared]

theorem plain_replaceFile (record : FileRecord) :
    (catalog.replaceFile record).plain = catalog.plain.replaceFile record.cleared := by
  simp only [plain, replaceFile, List.map_map, mk.injEq, and_true]
  apply List.map_congr_left
  intro file _
  by_cases hpath : file.path = record.path <;> simp [FileRecord.cleared, hpath]

theorem plain_removeFile (path : String) :
    (catalog.removeFile path).plain = catalog.plain.removeFile path := by
  simp only [plain, removeFile, List.filter_map, mk.injEq, and_true]
  rfl

theorem plain_removeFiles (records : List FileRecord) :
    (catalog.removeFiles records).plain =
      catalog.plain.removeFiles (records.map FileRecord.cleared) := by
  induction records generalizing catalog with
  | nil => rfl
  | cons record rest ih =>
      have hrest := ih (catalog.removeFile record.path)
      rw [plain_removeFile] at hrest
      exact hrest

end Catalog

namespace Registry

def plain (registry : Registry) : Registry :=
  registry.withCatalog registry.catalog.plain

theorem Alike.plain_eq {before after : Registry} (halike : Alike before after) :
    after.plain = before.plain := by
  simp only [plain, withCatalog, Catalog.plain, halike.files, halike.canonical, halike.supply]

/-- A record and what it leaves, both without marks. -/
def plainly (result : FileRecord × Registry) : FileRecord × Registry :=
  (result.1.cleared, result.2.plain)

section Decisions

variable (present : String → Bool) (registry : Registry)

theorem settle_plain (hash : String) (own : MediaId) :
    registry.plain.settle hash own =
      ((registry.settle hash own).1, (registry.settle hash own).2.plain) := by
  have hsame : registry.plain.catalog.canonical? hash = registry.catalog.canonical? hash := rfl
  unfold settle
  rw [hsame]
  split <;> rfl

theorem any_present_cleared (records : List FileRecord) :
    ((records.map FileRecord.cleared).any fun file => present file.path) =
      records.any fun file => present file.path := by
  rw [List.any_map]
  rfl

theorem vanished_plain (hash : String) :
    registry.plain.vanished present hash =
      (registry.vanished present hash).map FileRecord.cleared := by
  have hhash : registry.plain.catalog.withHash hash = _ := registry.catalog.withHash_plain hash
  rw [vanished, hhash]
  exact List.filter_map

theorem soleId?_cleared (records : List FileRecord) :
    soleId? (records.map FileRecord.cleared) = soleId? records := by
  simp only [soleId?, List.map_map]
  rfl

theorem enrol_plain (seen : Sighting) (hash : String) :
    registry.plain.enrol present seen hash = plainly (registry.enrol present seen hash) := by
  simp only [enrol, vanished_plain, soleId?_cleared]
  split
  · rename_i id _
    have hadded := registry.catalog.plain_addFile (seen.record hash id)
    have hremoved := (registry.catalog.addFile (seen.record hash id)).plain_removeFiles
      (registry.vanished present hash)
    rw [hadded] at hremoved
    exact congrArg (fun tables => (seen.record hash id, registry.withCatalog tables))
      hremoved.symm
  · have hadded := registry.catalog.plain_addFile (seen.record hash registry.fresh.1)
    exact congrArg (fun catalog => (seen.record hash registry.fresh.1,
      registry.fresh.2.withCatalog catalog)) hadded.symm

theorem companions_plain (old : FileRecord) :
    registry.plain.companions old.cleared =
      (registry.companions old).map FileRecord.cleared := by
  have hhash : registry.plain.catalog.withHash old.cleared.hash = _ :=
    registry.catalog.withHash_plain old.hash
  rw [companions, hhash]
  exact List.filter_map

theorem unmark_plain (old : FileRecord) :
    registry.plain.unmark old.cleared = (registry.unmark old).plain := by
  have hunmarked : registry.plain.unmark old.cleared = registry.plain := rfl
  rw [hunmarked]
  unfold unmark
  split
  · exact (alike_setMissing registry old.path false).plain_eq.symm
  · rfl

theorem revise_plain (updated old : FileRecord) :
    registry.plain.revise present updated.cleared old.cleared =
      plainly (registry.revise present updated old) := by
  have hcanonical : registry.plain.catalog.canonical? old.cleared.hash =
      registry.catalog.canonical? old.hash := rfl
  have hshared : ((registry.plain.companions old.cleared).any fun file => present file.path) =
      (registry.companions old).any fun file => present file.path := by
    rw [companions_plain, any_present_cleared]
  have hplaced (record : FileRecord) (stale : List FileRecord) :
      (registry.plain.catalog.replaceFile record.cleared).removeFiles
          (stale.map FileRecord.cleared) =
        ((registry.catalog.replaceFile record).removeFiles stale).plain := by
    rw [Catalog.plain_removeFiles, Catalog.plain_replaceFile]
    rfl
  unfold revise
  simp only [hcanonical, hshared]
  -- The same branch is taken on both sides; what is left is the record that each
  -- branch places and the records that it takes away.
  cases registry.catalog.canonical? old.hash with
  | none =>
      exact congrArg (fun tables => (updated.cleared, registry.withCatalog tables))
        (hplaced updated [])
  | some canonical =>
      dsimp only
      rw [apply_ite plainly, apply_ite plainly]
      refine if_congr Iff.rfl ?_ (if_congr Iff.rfl ?_ ?_)
      · rw [companions_plain]
        exact congrArg
          (fun tables => ({ updated.cleared with id := canonical }, registry.withCatalog tables))
          (hplaced { updated with id := canonical } (registry.companions old))
      · exact congrArg
          (fun tables => ({ updated.cleared with id := registry.fresh.1 },
            registry.fresh.2.withCatalog tables))
          (hplaced { updated with id := registry.fresh.1 } [])
      · exact congrArg (fun tables => (updated.cleared, registry.withCatalog tables))
          (hplaced updated [])

theorem revisit_plain (old : FileRecord) :
    registry.plain.revisit present old.cleared =
      ((registry.revisit present old).1, (registry.revisit present old).2.plain) := by
  unfold revisit
  -- Clearing the mark, which a plain registry does not have, does not show.
  rw [unmark_plain]
  have hsettled : (registry.unmark old).plain.settle old.cleared.hash old.cleared.id = _ :=
    settle_plain (registry.unmark old) old.hash old.id
  rw [hsettled]
  generalize (registry.unmark old).settle old.hash old.id = answered
  obtain ⟨id, settled⟩ := answered
  have hheld : ((settled.plain.catalog.withId id).any fun file => present file.path) =
      (settled.catalog.withId id).any fun file => present file.path := by
    have hid : settled.plain.catalog.withId id = _ := settled.catalog.withId_plain id
    rw [hid, any_present_cleared]
  have hother : (id ≠ old.cleared.id) = (id ≠ old.id) := rfl
  simp only [hheld, hother, revise_plain]
  split <;> rfl

theorem reconcile_plain (seen : Sighting) (digest : Option String) :
    registry.plain.reconcile present seen digest =
      (registry.reconcile present seen digest).map fun answer => (answer.1, answer.2.plain) := by
  have hrecord : registry.plain.catalog.record? seen.path = _ :=
    registry.catalog.record?_plain seen.path
  unfold reconcile
  rw [hrecord]
  cases registry.catalog.record? seen.path with
  | none =>
      cases digest with
      | none => rfl
      | some hash =>
          simp only [Option.map_none, enrol_plain, plainly, Option.map_some, ← settle_plain]
          rfl
  | some old =>
      have hcurrent : old.cleared.upToDate seen.size seen.modified =
          old.upToDate seen.size seen.modified := rfl
      simp only [Option.map_some, hcurrent, revisit_plain]
      split
      · rfl
      · cases digest with
        | none => rfl
        | some hash =>
            have hrevised : registry.plain.revise present (seen.record hash old.cleared.id)
                old.cleared = _ := revise_plain present registry (seen.record hash old.id) old
            simp only [hrevised, plainly, Option.map_some, ← settle_plain]
            rfl

end Decisions

end Registry

namespace Call

variable (call : Call) (maxRetries : Nat) (around : Surroundings) (registry : Registry)

theorem isUpToDate_plain (catalog : Catalog) :
    call.isUpToDate catalog.plain = call.isUpToDate catalog := by
  unfold isUpToDate
  rw [catalog.record?_plain, Option.any_map]
  rfl

theorem next_plain :
    call.next maxRetries around registry.plain =
      ((call.next maxRetries around registry).1,
        (call.next maxRetries around registry).2.plain) := by
  unfold next
  split
  · have hlooked : call.isUpToDate registry.plain.catalog = call.isUpToDate registry.catalog :=
      call.isUpToDate_plain registry.catalog
    simp only [lookUp, hlooked]
  · rfl
  · unfold commit
    rw [Registry.reconcile_plain]
    split
    · rfl
    · cases registry.reconcile around.present call.seen _ with
      | none => rfl
      | some answer => rfl
  · rfl

theorem run_plain :
    call.run maxRetries around registry.plain =
      { call.run maxRetries around registry with
        registry := (call.run maxRetries around registry).registry.plain } := by
  fun_induction run call maxRetries around registry with
  | case1 call registry answer hstage => exact run_done hstage
  | case2 call registry failed hstage ih | case3 call registry failed hstage ih
  | case4 call registry failed digest hstage ih =>
      have hpending : call.Pending := by simp [Pending, hstage]
      rw [run_next hpending, next_plain]
      exact ih

end Call

namespace Library

/-- Work on a library that resolves no file. -/
inductive Upkeep where
  | markMissing
  | fileGone (path : String)
  | tag (write : TagWrite)

/-- The tables after a work of upkeep. A write to a tag that is refused changes
nothing. -/
def Upkeep.done (present : String → Bool) (catalog : Catalog) : Upkeep → Catalog
  | .markMissing => (catalog.markMissing present).2
  | .fileGone path => (catalog.setMissing path true).2
  | .tag write =>
      match catalog.mergeTag write with
      | .ok (_, merged) => merged
      | .error _ => catalog

inductive Action where
  | resolve (maxRetries : Nat) (seen : Sighting)
  | disturb (around : Surroundings)
  | upkeep (work : Upkeep)

def Action.isUpkeep : Action → Bool
  | .upkeep _ => true
  | .resolve _ _ | .disturb _ => false

/-- The library after an action. While another writer holds the database there
is no upkeep. -/
def take (library : Library) : Action → Library
  | .resolve maxRetries seen => { library with
      registry := (library.registry.resolve maxRetries library.around seen).registry }
  | .disturb around => { library with around }
  | .upkeep work =>
      if library.around.locked then library
      else { library with
        registry := library.registry.withCatalog
          (work.done library.around.present library.registry.catalog) }

/-- What an action answers, and how many files it set out to read. -/
def reply? (library : Library) : Action → Option (Except CatalogFault MediaId × Nat)
  | .resolve maxRetries seen =>
      let outcome := library.registry.resolve maxRetries library.around seen
      some (outcome.answer, outcome.hashings)
  | .disturb _ | .upkeep _ => none

def after (library : Library) (actions : List Action) : Library :=
  actions.foldl take library

def replies (library : Library) : List Action → List (Except CatalogFault MediaId × Nat)
  | [] => []
  | action :: rest => (library.reply? action).toList ++ (library.take action).replies rest

def plain (library : Library) : Library :=
  { library with registry := library.registry.plain }

variable (library : Library)

theorem Upkeep.done_alike (present : String → Bool) (registry : Registry) (work : Upkeep) :
    Registry.Alike registry (registry.withCatalog (work.done present registry.catalog)) := by
  cases work with
  | markMissing => exact Registry.alike_markAll registry _
  | fileGone path => exact Registry.alike_setMissing registry path true
  | tag write =>
      simp only [done]
      split
      · rename_i hmerged
        exact Registry.alike_mergeTag hmerged
      · exact ⟨rfl, rfl, rfl⟩

theorem take_upkeep_plain (work : Upkeep) :
    (library.take (.upkeep work)).plain = library.plain := by
  simp only [take]
  split
  · rfl
  · have halike := Upkeep.done_alike library.around.present library.registry work
    exact congrArg (fun registry => { library with registry }) halike.plain_eq

theorem take_plain {action : Action} (hcall : action.isUpkeep = false) :
    library.plain.take action = (library.take action).plain ∧
      library.plain.reply? action = library.reply? action := by
  cases action with
  | resolve maxRetries seen =>
      have hended := (Call.start seen).run_plain maxRetries library.around library.registry
      simp only [take, reply?, plain, Registry.resolve, hended, and_self]
  | disturb around => exact ⟨rfl, rfl⟩
  | upkeep work => cases hcall

/-- A whole run, against its calls alone on the plain library. -/
theorem run_plain (actions : List Action) :
    library.plain.replies (actions.filter fun action => !action.isUpkeep) =
        library.replies actions ∧
      library.plain.after (actions.filter fun action => !action.isUpkeep) =
        (library.after actions).plain := by
  -- Each call is the same call on the plain library, and upkeep leads from a
  -- library to one that has the same plain library.
  induction actions generalizing library with
  | nil => exact ⟨rfl, rfl⟩
  | cons action rest ih =>
      obtain ⟨hreplies, hafter⟩ := ih (library.take action)
      cases hcall : action.isUpkeep with
      | true =>
          cases action with
          | upkeep work =>
              rw [take_upkeep_plain] at hreplies hafter
              exact ⟨hreplies, hafter⟩
          | resolve | disturb => cases hcall
      | false =>
          obtain ⟨htaken, hreply⟩ := library.take_plain hcall
          rw [← htaken] at hreplies hafter
          have hkept : (action :: rest).filter (fun action => !action.isUpkeep) =
              action :: rest.filter fun action => !action.isUpkeep :=
            List.filter_cons_of_pos (by rw [hcall]; rfl)
          rw [hkept]
          refine ⟨?_, hafter⟩
          rw [replies, replies, hreply, hreplies]

/-- Upkeep does not show. Whatever is done between the calls about marks and
tags, every call gives the same answer, and sets out to read its file just as
often, as in the run without it; and both runs leave the same canonical
identifiers and, but for marks, the same records. -/
theorem run_without_upkeep (actions : List Action) :
    let calls := actions.filter fun action => !action.isUpkeep
    library.replies actions = library.replies calls ∧
      (library.after actions).registry.catalog.canonical =
        (library.after calls).registry.catalog.canonical ∧
      (library.after actions).registry.catalog.files.map FileRecord.cleared =
        (library.after calls).registry.catalog.files.map FileRecord.cleared := by
  intro calls
  have hcalls : calls.filter (fun action => !action.isUpkeep) = calls := by
    simp only [calls, List.filter_filter, Bool.and_self]
  obtain ⟨hreplies, hafter⟩ := library.run_plain actions
  obtain ⟨hcallReplies, hcallAfter⟩ := library.run_plain calls
  rw [hcalls] at hcallReplies hcallAfter
  have hplain : (library.after actions).plain = (library.after calls).plain :=
    hafter.symm.trans hcallAfter
  refine ⟨hreplies.symm.trans hcallReplies, ?_, ?_⟩
  · exact congrArg (fun library => library.registry.catalog.canonical) hplain
  · exact congrArg (fun library => library.registry.catalog.files) hplain

end Library

end MediaCatalog
