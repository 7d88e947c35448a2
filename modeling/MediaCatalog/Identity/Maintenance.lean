import MediaCatalog.Catalog.Write

/-!
Marking files as missing. Records outlive their files, so that a file that moved
can be told.
-/

namespace MediaCatalog.Catalog

/-- The live paths at which there is nothing any more. -/
def gonePaths (catalog : Catalog) (present : String → Bool) : List String :=
  catalog.livePaths.filter fun path => !present path

/-- Marks the paths, and tells how many were not marked before. -/
def markAll (catalog : Catalog) : List String → Nat × Catalog
  | [] => (0, catalog)
  | path :: rest =>
      let (changed, catalog) := catalog.setMissing path true
      let (marked, catalog) := catalog.markAll rest
      ((if changed then marked + 1 else marked), catalog)

def markMissing (catalog : Catalog) (present : String → Bool) : Nat × Catalog :=
  catalog.markAll (catalog.gonePaths present)

end MediaCatalog.Catalog
