import MediaCatalog.Catalog.Basic
import MediaCatalog.Disk.Path

/-!
Why a database refused, and the number it has for the cause. A path is told only
where a connection could not be had at all.
-/

namespace MediaCatalog

inductive DatabaseFault where
  | locked
  /-- Another writer holds it through the same cache. -/
  | tableLocked
  | notDatabase
  /-- The file could not be opened, or else one that goes with it. -/
  | cannotOpen (path : Option Path)
  | readOnly
  /-- The readers of its log cannot come to terms. -/
  | cannotLock
  | noTable (table : Table)
  | readFailed
  | deleteFailed
  | statFailed
  /-- The name has a NUL as its byte number `position`. -/
  | holdsNul (position : Nat)
  | foreignAuthority (name : String)
  | unknownSystem (name : String)
  | unknownAccess (name : String)
  | unknownCache (name : String)
  /-- More was asked for than an earlier option allows. -/
  | accessNotAllowed (name : String)
  | pathTaken
  | hashTaken
  | tagTaken
  | tooComplex
  | tooDeep
  | tooManyBounds
  | tooManyOrders
deriving DecidableEq, Repr

namespace DatabaseFault

def message : DatabaseFault → String
  | .locked => "database is locked"
  | .tableLocked => "database table is locked"
  | .notDatabase => "file is not a database"
  | .cannotOpen none => "unable to open database file"
  | .cannotOpen (some path) => "unable to open database file: " ++ path.shown
  | .readOnly => "attempt to write a readonly database"
  | .cannotLock => "locking protocol"
  | .noTable table => "no such table: " ++ table.name
  | .readFailed | .deleteFailed | .statFailed => "disk I/O error"
  | .holdsNul position =>
      "nul byte found in provided data at position: " ++ toString position
  | .foreignAuthority name => "invalid uri authority: " ++ name
  | .unknownSystem name => "no such vfs: " ++ name
  | .unknownAccess name => "no such access mode: " ++ name
  | .unknownCache name => "no such cache mode: " ++ name
  | .accessNotAllowed name => "access mode not allowed: " ++ name
  | .pathTaken => "UNIQUE constraint failed: files.path"
  | .hashTaken => "UNIQUE constraint failed: hashes.hash"
  | .tagTaken => "UNIQUE constraint failed: tags.file_id, tags.tag"
  | .tooComplex => "LIKE or GLOB pattern too complex"
  | .tooDeep => "Expression tree is too large (maximum depth 1000)"
  | .tooManyBounds => "too many SQL variables"
  | .tooManyOrders => "too many terms in ORDER BY clause"

/-- The database's own number for a fault, and what the number stands for. A
name with a NUL does not get as far as the database. -/
def code : DatabaseFault → String
  | .locked => "Error code 5: The database file is locked"
  | .tableLocked =>
      "Error code 262: Locking conflict due to another connection with a shared cache"
  | .notDatabase => "Error code 26: File opened that is not a database file"
  | .cannotOpen _ => "Error code 14: Unable to open the database file"
  | .readOnly => "Error code 8: Attempt to write a readonly database"
  | .cannotLock => "Error code 15: Database lock protocol error"
  | .readFailed => "Error code 266: Error reading from disk"
  | .deleteFailed => "Error code 2570: I/O error within xDelete of a VFS object"
  | .statFailed => "Error code 1802: I/O error within fstat"
  | .holdsNul position => (DatabaseFault.holdsNul position).message
  | .accessNotAllowed _ => "Error code 3: Access permission denied"
  | .pathTaken | .hashTaken => "Error code 1555: A PRIMARY KEY constraint failed"
  | .tagTaken => "Error code 2067: A UNIQUE constraint failed"
  | .noTable _ | .foreignAuthority _ | .unknownSystem _ | .unknownAccess _ | .unknownCache _
  | .tooComplex | .tooDeep | .tooManyBounds | .tooManyOrders =>
      "Error code 1: SQL logic error"

end DatabaseFault

end MediaCatalog
