import MediaCatalog.Proofs.Identity.Interleaving
import MediaCatalog.Proofs.Identity.Undisturbed
import MediaCatalog.Proofs.Search.Distinct
import MediaCatalog.Proofs.Search.Plan
import MediaCatalog.Proofs.Workspace.Search

/-!
The join of files and canonical identifiers. A search sees a file through the
canonical identifier of its content, and a file whose content had none would be
lost to every search. No file is lost in this way, so searches, the lists of
paths and the answers of calls tell the same identifier for it.
-/

namespace MediaCatalog

open Query

namespace Query

theorem Test.sql_ne_empty (test : Test) : test.sql ≠ "" := by
  unfold Test.sql
  cases test <;> simp

theorem Clause.sql_ne_empty (clause : Clause) : clause.sql ≠ "" := by
  cases clause with
  | test _ condition =>
      simp only [Clause.sql, Condition.sql]
      split
      · simp
      · exact condition.test.sql_ne_empty
  | group _ clauses => simp [Clause.sql]

theorem Compiled.clauses_of_isEmpty {query : Compiled}
    (hempty : query.predicate.isEmpty = true) : query.clauses = [] := by
  -- A clause puts something into the text of the predicate, whatever it holds.
  cases hclauses : query.clauses with
  | nil => rfl
  | cons clause rest =>
      have hsql : sqlOf (clause :: rest) = "" := by
        simpa [Predicate.isEmpty, Compiled.predicate, predicateOf, hclauses] using hempty
      simp [sqlOf, clause.sql_ne_empty] at hsql

end Query

namespace Catalog

variable {catalog : Catalog} {file : FileRecord} {id : MediaId}

section Join

theorem mem_live : file ∈ catalog.live ↔ file ∈ catalog.files ∧ file.missing = false := by
  simp [live]

theorem mem_hits :
    (file, id) ∈ catalog.hits ↔
      file ∈ catalog.live ∧ catalog.canonical? file.hash = some id := by
  simp [hits]

/-- Where every content has its identifier, the join loses no live file. -/
theorem fst_hits (hsettled : catalog.AllSettled) : catalog.hits.map Prod.fst = catalog.live := by
  have hjoined : ∀ file ∈ catalog.live,
      ((catalog.canonical? file.hash).map fun id => (file, id)).map Prod.fst = some file := by
    intro file hfile
    obtain ⟨id, hid⟩ := Option.isSome_iff_exists.mp (hsettled file (mem_live.mp hfile).1)
    rw [hid]
    rfl
  rw [hits, List.map_filterMap, List.filterMap_congr hjoined, List.filterMap_some]

theorem mem_livePathsOf {path : String} :
    path ∈ catalog.livePathsOf id ↔ ∃ file, (file, id) ∈ catalog.hits ∧ file.path = path := by
  simp [livePathsOf, byPath, mem_hits]

theorem livePathsOf_ne_nil :
    catalog.livePathsOf id ≠ [] ↔ ∃ file, (file, id) ∈ catalog.hits := by
  constructor
  · intro hsome
    obtain ⟨path, hpath⟩ := List.exists_mem_of_ne_nil _ hsome
    obtain ⟨file, hhit, -⟩ := mem_livePathsOf.mp hpath
    exact ⟨file, hhit⟩
  · rintro ⟨file, hhit⟩
    exact List.ne_nil_of_mem (mem_livePathsOf.mpr ⟨file, hhit, rfl⟩)

/-- A live file is listed for the identifier of its content and for no other. -/
theorem path_mem_livePathsOf (hpaths : catalog.PathsDistinct) (hfile : file ∈ catalog.live) :
    file.path ∈ catalog.livePathsOf id ↔ catalog.canonical? file.hash = some id := by
  rw [mem_livePathsOf]
  constructor
  · rintro ⟨other, hhit, hpath⟩
    obtain ⟨hother, hid⟩ := mem_hits.mp hhit
    have hsame : other = file :=
      eq_of_path_eq hpaths (mem_live.mp hother).1 (mem_live.mp hfile).1 hpath
    rwa [hsame] at hid
  · intro hid
    exact ⟨file, mem_hits.mpr ⟨hfile, hid⟩, rfl⟩

end Join

section Found

variable {plan : Plan} {query : Compiled} {orders : List SortOrder}

theorem keyed_snd : Keyed (fun a b : Hit => a.2 == b.2) Prod.snd :=
  fun _ _ => beq_iff_eq

theorem found_perm :
    (catalog.found plan query orders).Perm
      ((plan.hits catalog query orders).map Prod.snd).eraseDups := by
  rw [← keyed_snd.map_eraseDupsBy]
  exact (List.mergeSort_perm _ _).map Prod.snd

theorem mem_found :
    id ∈ catalog.found plan query orders ↔
      ∃ file, (file, id) ∈ catalog.matching query.clauses := by
  simp [found_perm.mem_iff, (plan.hits_perm catalog query orders).mem_iff]

theorem matching_nil : catalog.matching [] = catalog.hits := by
  simp [matching, valueOf]

theorem cut_whole {α : Type} (results : List α) : Page.cut {} results = results := rfl

theorem nodup_found : (catalog.found plan query orders).Nodup :=
  found_perm.nodup_iff.mpr (nodup_eraseDups _)

/-- Whatever the plan, what one hit alone meets is found by it. -/
theorem found_of_single {hit : Hit} (hmatching : catalog.matching query.clauses = [hit]) :
    catalog.found plan query orders = [hit.2] := by
  apply eq_singleton_of_nodup nodup_found
  simp [mem_found, hmatching, Prod.ext_iff]

theorem found_of_none (hmatching : catalog.matching query.clauses = []) :
    catalog.found plan query orders = [] := by
  simp [List.eq_nil_iff_forall_not_mem, mem_found, hmatching]

theorem search_whole (hempty : query.predicate.isEmpty = true) :
    catalog.search plan query orders {} = .ok (catalog.found plan query orders) :=
  search_of_comparable (Compiled.comparable_nil (Compiled.clauses_of_isEmpty hempty)) {}

theorem mem_found_of_isEmpty (hempty : query.predicate.isEmpty = true) :
    id ∈ catalog.found plan query orders ↔ catalog.livePathsOf id ≠ [] := by
  rw [mem_found, livePathsOf_ne_nil, Compiled.clauses_of_isEmpty hempty, matching_nil]

end Found

end Catalog

namespace Workspace

variable {ws between : Workspace} {store : Store} {catalog : Catalog} {query : Compiled}
  {orders : List SortOrder} {ids : List MediaId}

/-- A query that asks one thing is taken with every order that is. -/
theorem perform_search_single (hread : ws.perform (store.read .files) = (.ok catalog, between))
    {condition : Condition} (hclauses : query.clauses = [.test .and condition])
    (hsearch : catalog.search ws.plan query orders {} = .ok ids) :
    ws.perform (store.search query orders {}) =
      (if Statement.mostOrders < orders.length then .error (.ofStatement .tooManyOrders)
        else .ok ids, between) := by
  obtain ⟨negated, test⟩ := condition
  have hwritten : Statement.admitSearch query {} = .ok ⟨⟩ := by
    unfold Statement.admitSearch Compiled.writtenDepth Statement.admitBounds Compiled.predicate
    rw [hclauses]
    cases negated <;> cases test <;> rfl
  have hdepth : Statement.admitDepth (query.reach 0) = .ok ⟨⟩ := by
    unfold Compiled.reach Compiled.joinedDepth Compiled.writtenDepth
    rw [hclauses]
    cases negated <;> cases test <;> rfl
  exact perform_search_ids hread hwritten hdepth hsearch

/-- A query that asks nothing is taken with every order that is. -/
theorem perform_search_whole (hread : ws.perform (store.read .files) = (.ok catalog, between))
    (hempty : query.predicate.isEmpty = true) :
    ws.perform (store.search query orders {}) =
      (if Statement.mostOrders < orders.length then .error (.ofStatement .tooManyOrders)
        else .ok (catalog.found ws.plan query orders), between) := by
  have hclauses := Compiled.clauses_of_isEmpty hempty
  have hwritten : Statement.admitSearch query {} = .ok ⟨⟩ := by
    unfold Statement.admitSearch Compiled.writtenDepth Statement.admitBounds Compiled.predicate
    rw [hclauses]
    rfl
  have hdepth : Statement.admitDepth (query.reach 0) = .ok ⟨⟩ := by
    unfold Compiled.reach Compiled.joinedDepth Compiled.writtenDepth
    rw [hclauses]
    rfl
  exact perform_search_ids hread hwritten hdepth (Catalog.search_whole hempty)

end Workspace

namespace Registry

variable {registry : Registry} {file : FileRecord}

/-- A live file is listed for one identifier, which is what a call answers that
sees it as it is on record. -/
theorem Sound.listed (hsound : registry.Sound) (hfile : file ∈ registry.catalog.live) :
    ∃ known, registry.catalog.canonical? file.hash = some known ∧
      (∀ id, file.path ∈ registry.catalog.livePathsOf id ↔ id = known) ∧
      ∀ maxRetries around, around.locked = false →
        ∃ after, registry.resolve maxRetries around ⟨file.path, file.size, file.modified⟩ =
          ⟨.ok known, 0, after⟩ := by
  have hrecorded : file ∈ registry.catalog.files := (Catalog.mem_live.mp hfile).1
  obtain ⟨known, hknown⟩ := Option.isSome_iff_exists.mp (hsound.settled file hrecorded)
  refine ⟨known, hknown, ?_, ?_⟩
  · intro id
    rw [Catalog.path_mem_livePathsOf hsound.paths hfile, hknown, Option.some.injEq, eq_comm]
  · intro maxRetries around hunlocked
    have hcurrent : file.upToDate file.size file.modified = true := by
      simp [FileRecord.upToDate]
    exact resolve_recorded hsound.paths hunlocked
      (Catalog.record?_of_mem hsound.paths hrecorded) hcurrent hknown

end Registry

namespace Site

variable {site : Site}

/-- No file is lost to searches. Every content on record has its canonical
identifier, so the join keeps every live file; the file is listed under that
identifier alone, which is what a call answers that sees it as it is on record.
The query that asks nothing finds, each once, the identifiers under which
anything is listed, unless it is to be sorted by more than the database takes. -/
theorem live_files_found (hreach : site.Reachable) :
    let catalog := site.registry.catalog
    (∀ file ∈ catalog.files, (catalog.canonical? file.hash).isSome) ∧
    catalog.hits.map Prod.fst = catalog.live ∧
    (∀ file ∈ catalog.live, ∃ known, catalog.canonical? file.hash = some known ∧
      (∀ id, file.path ∈ catalog.livePathsOf id ↔ id = known) ∧
      ∀ maxRetries around, around.locked = false →
        ∃ after, site.registry.resolve maxRetries around ⟨file.path, file.size, file.modified⟩ =
          ⟨.ok known, 0, after⟩) ∧
    ∀ plan query orders, query.predicate.isEmpty = true →
      ∃ ids, ids.Nodup ∧ (∀ id, id ∈ ids ↔ catalog.livePathsOf id ≠ []) ∧
        catalog.search plan query orders {} = .ok ids ∧
        ∀ (store : Store) (ws between : Workspace), ws.plan = plan →
          ws.perform (store.read .files) = (.ok catalog, between) →
          ws.perform (store.search query orders {}) =
            (if Statement.mostOrders < orders.length then .error (.ofStatement .tooManyOrders)
              else .ok ids, between) := by
  intro catalog
  have hsound := hreach.sound
  refine ⟨hsound.settled, Catalog.fst_hits hsound.settled, ?_, ?_⟩
  · intro file hfile
    exact hsound.listed hfile
  · intro plan query orders hempty
    refine ⟨catalog.found plan query orders, Catalog.nodup_found, ?_,
      Catalog.search_whole hempty, ?_⟩
    · intro id
      exact Catalog.mem_found_of_isEmpty hempty
    · rintro store ws between rfl hread
      exact Workspace.perform_search_whole hread hempty

/-- A workspace with the database of two identical files. -/
def bothKept : Workspace where
  disk := Workspace.diskWith bothEnded.registry.catalog 0 []
  here := .ofText "/"
  settingsHome := .ofText "/"
  supply := bothEnded.registry.supply
  clock := 0
  held := none

/-- They are found together, under the identifier that the first was given. -/
theorem bothEnded_found :
    (∀ id, "/b" ∈ bothEnded.registry.catalog.livePathsOf id ↔ id = .numbered "#" 0) ∧
      (∃ after, bothEnded.registry.resolve 0 bothEnded.around ⟨"/b", 1, 9⟩ =
        ⟨.ok (.numbered "#" 0), 0, after⟩) ∧
      bothKept.perform (Workspace.store.search (compile "") [] {}) =
        (.ok [.numbered "#" 0], bothKept) := by
  obtain ⟨-, -, hlisted, hfound⟩ := live_files_found bothEnded_reachable
  have hempty : (compile "").predicate.isEmpty = true := by decide
  have hread : bothKept.perform (Workspace.store.read .files) =
      (.ok bothEnded.registry.catalog, bothKept) :=
    Workspace.perform_storeRead (fun _ _ => rfl) rfl .files
  have hshared (file : FileRecord) (hfile : file ∈ bothEnded.registry.catalog.live) :
      bothEnded.registry.catalog.canonical? file.hash = some (.numbered "#" 0) := by
    revert file
    decide
  have hlive : ⟨"/b", 1, 9, "5a", .numbered "#" 1, false⟩ ∈ bothEnded.registry.catalog.live := by
    decide
  obtain ⟨known, hknown, hpath, hresolve⟩ := hlisted _ hlive
  obtain rfl : known = .numbered "#" 0 := Option.some.inj (hknown.symm.trans (hshared _ hlive))
  obtain ⟨ids, hdistinct, hids, -, hsearch⟩ := hfound bothKept.plan (compile "") [] hempty
  refine ⟨hpath, hresolve 0 bothEnded.around rfl, ?_⟩
  have hone (id : MediaId) : id ∈ ids ↔ id = .numbered "#" 0 := by
    rw [hids, Catalog.livePathsOf_ne_nil]
    constructor
    · rintro ⟨file, hhit⟩
      obtain ⟨hfile, hid⟩ := Catalog.mem_hits.mp hhit
      exact Option.some.inj (hid.symm.trans (hshared file hfile))
    · rintro rfl
      exact ⟨_, Catalog.mem_hits.mpr ⟨hlive, hknown⟩⟩
  rw [hsearch Workspace.store bothKept bothKept rfl hread, eq_singleton_of_nodup hdistinct hone]
  rfl

end Site

end MediaCatalog
