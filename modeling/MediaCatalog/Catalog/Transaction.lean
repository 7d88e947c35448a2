import MediaCatalog.Catalog.Write

/-!
Operations on a catalog that take effect together or not at all.
-/

namespace MediaCatalog

inductive Operation where
  | insertFile (record : FileRecord)
  | updateFile (record : FileRecord)
  | removeFile (path : String)
  | setMissing (path : String) (missing : Bool)
  | record (path : String)
  | withHash (hash : String)
  | pathsWithId (id : MediaId)
  | canonical (hash : String)
  | isCanonical (id : MediaId)
  | insertCanonical (hash : String) (id : MediaId)
  | mergeTag (write : TagWrite)
  | abandon (message : String)
deriving DecidableEq, Repr

inductive Finding where
  | done
  | truth (value : Bool)
  | record (record : Option FileRecord)
  | records (records : List FileRecord)
  | paths (paths : List String)
  | id (id : Option MediaId)
deriving DecidableEq, Repr

namespace Catalog

def perform (catalog : Catalog) : Operation → Except WriteFault (Finding × Catalog)
  | .insertFile record => do return (.done, ← catalog.insertFile record)
  | .updateFile record => do return (.done, ← catalog.updateFile record)
  | .removeFile path => .ok (.done, catalog.removeFile path)
  | .setMissing path missing =>
      let (changed, catalog) := catalog.setMissing path missing
      .ok (.truth changed, catalog)
  | .record path => .ok (.record (catalog.record? path), catalog)
  | .withHash hash => .ok (.records (byPath (catalog.withHash hash)), catalog)
  | .pathsWithId id =>
      .ok (.paths ((byPath (catalog.withId id)).map FileRecord.path), catalog)
  | .canonical hash => .ok (.id (catalog.canonical? hash), catalog)
  | .isCanonical id => .ok (.truth (catalog.isCanonical id), catalog)
  | .insertCanonical hash id => do return (.done, ← catalog.insertCanonical hash id)
  | .mergeTag write => do
      let (changed, catalog) ← catalog.mergeTag write
      return (.truth changed, catalog)
  | .abandon message => .error (.abandoned message)

/-- The findings of the operations in order, and the catalog they leave. -/
def performAll (catalog : Catalog) : List Operation → Except WriteFault (List Finding × Catalog)
  | [] => .ok ([], catalog)
  | operation :: rest => do
      let (finding, catalog) ← catalog.perform operation
      let (findings, catalog) ← catalog.performAll rest
      return (finding :: findings, catalog)

end Catalog

end MediaCatalog
