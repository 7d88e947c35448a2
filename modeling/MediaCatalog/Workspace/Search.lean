import MediaCatalog.Workspace.Basic

/-!
Searches of a database. A statement that the database does not take fails as it is
written before the database is read, and otherwise once its tables are known.
-/

namespace MediaCatalog.Store

open Query

def search (store : Store) (query : Compiled) (orders : List SortOrder) (page : Page) :
    Deed (List MediaId) := do
  let plan := (← get).plan
  let connection ← store.connect
  liftExcept ((Statement.admitSearch query page).mapError CatalogFault.ofStatement)
  let catalog ← connection.load .files
  liftExcept ((Statement.admitSearchOfTables query orders).mapError CatalogFault.ofStatement)
  liftExcept ((catalog.search plan query orders page).mapError CatalogFault.ofSearch)

def tagFrequencies (store : Store) (query : Compiled) (page : Page) :
    Deed (List TagFrequency) := do
  let plan := (← get).plan
  let connection ← store.connect
  liftExcept ((Statement.admitTags query page).mapError CatalogFault.ofStatement)
  let catalog ← connection.load .tags
  liftExcept ((Statement.admitTagsOfTables query).mapError CatalogFault.ofStatement)
  liftExcept ((catalog.tagFrequencies plan query page).mapError CatalogFault.ofSearch)

end MediaCatalog.Store
