import MediaCatalog.Proofs.Workspace.Failure
import MediaCatalog.Workspace.Search

/-!
When a database answers a search. The statement has to be taken as it is
written and with its tables, the tables have to be read, and the catalog that
they make up has to answer; nothing else comes in between. Which table is asked
for first only matters where there is none.
-/

namespace MediaCatalog

open Query

namespace Statement

variable {query : Compiled} {page : Page}

theorem admitDepth_eq_ok {depth : Nat} : admitDepth depth = .ok ⟨⟩ ↔ depth ≤ deepest := by
  rw [admitDepth]
  split <;> simp <;> omega

theorem admitBounds_eq_ok : admitBounds query page = .ok ⟨⟩ ↔
    query.predicate.bounds.length + page.bounds.length ≤ mostBounds := by
  rw [admitBounds, List.length_append]
  split <;> simp <;> omega

theorem admitSearch_eq_ok : admitSearch query page = .ok ⟨⟩ ↔
    query.writtenDepth ≤ deepest ∧ admitBounds query page = .ok ⟨⟩ := by
  rw [← admitDepth_eq_ok, admitSearch]
  cases admitDepth query.writtenDepth <;> simp [bind, Except.bind]

theorem admitSearchOfTables_eq_ok {orders : List SortOrder} :
    admitSearchOfTables query orders = .ok ⟨⟩ ↔
      query.reach 0 ≤ deepest ∧ orders.length ≤ mostOrders := by
  rw [← admitDepth_eq_ok, admitSearchOfTables, ← Nat.not_lt]
  cases admitDepth (query.reach 0) with
  | error fault => simp [bind, Except.bind]
  | ok _ =>
      by_cases hmany : mostOrders < orders.length <;>
        simp [bind, Except.bind, hmany, pure, Except.pure, throw, throwThe, MonadExceptOf.throw]

theorem admitTags_eq_ok : admitTags query page = .ok ⟨⟩ ↔
    query.tagsDepth ≤ deepest ∧ admitBounds query page = .ok ⟨⟩ := by
  rw [← admitDepth_eq_ok, admitTags]
  cases admitDepth query.tagsDepth <;> simp [bind, Except.bind]

end Statement

namespace Workspace

variable {ws after : Workspace} {store : Store} {catalog : Catalog} {query : Compiled}
  {orders : List SortOrder} {page : Page}

theorem mapError_eq_ok {ε ε' α : Type} {f : ε → ε'} {answer : Except ε α} {value : α} :
    answer.mapError f = .ok value ↔ answer = .ok value := by
  cases answer <;> simp [Except.mapError]

section Statements

variable {α : Type} {written known : Except CatalogFault Unit} {table : Table}
  {answer : Catalog → Except CatalogFault α}

/-- A statement that is taken as it is written is answered once the tables have
been read. -/
theorem perform_statement_of_read (hread : ws.perform (store.read table) = (.ok catalog, after))
    (hwritten : written = .ok ⟨⟩) :
    ws.perform (do
      let connection ← store.connect
      liftExcept written
      let catalog ← connection.load table
      liftExcept known
      liftExcept (answer catalog)) = (do known; answer catalog, after) := by
  simp only [Store.read, perform_bind] at hread
  simp only [perform_bind, perform_liftExcept, hwritten]
  split at hread
  · rw [hread]
    cases known <;> rfl
  · cases hread

/-- A statement that is taken or not as it is written, and again with its
tables, and answered from them. -/
theorem perform_statement {value : α} :
    ws.perform (do
      let connection ← store.connect
      liftExcept written
      let catalog ← connection.load table
      liftExcept known
      liftExcept (answer catalog)) = (.ok value, after) ↔
    written = .ok ⟨⟩ ∧ known = .ok ⟨⟩ ∧
      ∃ catalog, ws.perform (store.read table) = (.ok catalog, after) ∧
        answer catalog = .ok value := by
  simp only [Store.read, perform_bind, perform_liftExcept]
  cases ws.perform store.connect with
  | mk connected between =>
      cases connected with
      | error fault => simp
      | ok connection =>
          cases written with
          | error fault => simp
          | ok _ =>
              cases hload : between.perform (connection.load table) with
              | mk loaded left =>
                  cases loaded with
                  | error fault => simp [hload]
                  | ok catalog =>
                      cases known with
                      | error fault => simp [hload]
                      | ok _ => simp [hload, and_comm]

end Statements

/-- A search that is taken as it is written answers from what the database
holds. -/
theorem perform_search (hread : ws.perform (store.read .files) = (.ok catalog, after))
    (hwritten : Statement.admitSearch query page = .ok ⟨⟩) :
    ws.perform (store.search query orders page) =
      (do
        (Statement.admitSearchOfTables query orders).mapError CatalogFault.ofStatement
        (catalog.search ws.plan query orders page).mapError CatalogFault.ofSearch, after) := by
  rw [Store.search, perform_bind, perform_get]
  apply perform_statement_of_read hread
  rw [hwritten]
  rfl

/-- A query that is small enough is taken with every order that is. -/
theorem perform_search_ids {ids : List MediaId}
    (hread : ws.perform (store.read .files) = (.ok catalog, after))
    (hwritten : Statement.admitSearch query {} = .ok ⟨⟩)
    (hdepth : Statement.admitDepth (query.reach 0) = .ok ⟨⟩)
    (hsearch : catalog.search ws.plan query orders {} = .ok ids) :
    ws.perform (store.search query orders {}) =
      (if Statement.mostOrders < orders.length then .error (.ofStatement .tooManyOrders)
        else .ok ids, after) := by
  rw [perform_search hread hwritten, hsearch]
  simp only [Statement.admitSearchOfTables, hdepth]
  split <;> rfl

theorem perform_search_eq_ok {ids : List MediaId} :
    ws.perform (store.search query orders page) = (.ok ids, after) ↔
      Statement.admitSearch query page = .ok ⟨⟩ ∧
      Statement.admitSearchOfTables query orders = .ok ⟨⟩ ∧
      ∃ catalog, ws.perform (store.read .files) = (.ok catalog, after) ∧
        catalog.search ws.plan query orders page = .ok ids := by
  rw [Store.search, perform_bind, perform_get, perform_statement]
  simp only [mapError_eq_ok]

/-- A count of tags that is taken as it is written answers from what the
database holds. -/
theorem perform_tagFrequencies (hread : ws.perform (store.read .tags) = (.ok catalog, after))
    (hwritten : Statement.admitTags query page = .ok ⟨⟩) :
    ws.perform (store.tagFrequencies query page) =
      (do
        (Statement.admitTagsOfTables query).mapError CatalogFault.ofStatement
        (catalog.tagFrequencies ws.plan query page).mapError CatalogFault.ofSearch, after) := by
  rw [Store.tagFrequencies, perform_bind, perform_get]
  apply perform_statement_of_read hread
  rw [hwritten]
  rfl

theorem perform_tagFrequencies_eq_ok {entries : List TagFrequency} :
    ws.perform (store.tagFrequencies query page) = (.ok entries, after) ↔
      Statement.admitTags query page = .ok ⟨⟩ ∧
      Statement.admitTagsOfTables query = .ok ⟨⟩ ∧
      ∃ catalog, ws.perform (store.read .tags) = (.ok catalog, after) ∧
        catalog.tagFrequencies ws.plan query page = .ok entries := by
  rw [Store.tagFrequencies, perform_bind, perform_get, perform_statement]
  simp only [mapError_eq_ok]

/-- The table that is asked for first shows only where there is none. -/
theorem perform_load_congr {connection : Connection} {table : Table} (other : Table)
    (hload : ws.perform (connection.load table) = (.ok catalog, after)) :
    ws.perform (connection.load other) = (.ok catalog, after) := by
  simp only [Connection.load, perform_bind, perform_get] at hload ⊢
  split at hload
  · split at hload
    · rename_i reading _ _
      split at hload
      · cases htables : reading.tables with
        | none => simp [htables] at hload
        | some tables => simpa [htables] using hload
      · cases hload
    · cases hload
  · cases hload

theorem perform_read_congr {table : Table} (other : Table)
    (hread : ws.perform (store.read table) = (.ok catalog, after)) :
    ws.perform (store.read other) = (.ok catalog, after) := by
  simp only [Store.read, perform_bind] at hread ⊢
  split at hread
  · exact perform_load_congr other hread
  · cases hread

/-- A workspace with a database of the catalog, and nothing else. -/
def holding (catalog : Catalog) : Workspace :=
  { shelf with disk := diskWith catalog 0 [] }

theorem holding_read (catalog : Catalog) (table : Table) :
    (holding catalog).perform (Workspace.store.read table) = (.ok catalog, holding catalog) :=
  perform_storeRead (fun _ _ => rfl) rfl table

theorem holding_tables (catalog : Catalog) :
    (holding catalog).tables? Workspace.store = some catalog :=
  tables?_diskWith rfl

end Workspace

end MediaCatalog
