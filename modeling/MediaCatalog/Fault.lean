import MediaCatalog.Catalog.Write
import MediaCatalog.Database.Fault
import MediaCatalog.Disk.Access
import MediaCatalog.Query.Sort
import MediaCatalog.Search.Statement

/-!
Why a catalog could not answer, and how that is told. A file that could not be
read, writers that came in between and a database that is held are worth another
try.
-/

namespace MediaCatalog

inductive CatalogFault where
  | unreadable (path : Path) (fault : DiskFault)
  | database (fault : DatabaseFault)
  | disk (fault : DiskFault)
  /-- A path that is no text cannot be recorded. -/
  | invalidPath (path : Path)
  | invalidSort (fault : Query.SortFault)
  /-- All attempts met another writer. -/
  | conflict (path : Path) (attempts : Nat)
  | constraint (message : String)
deriving DecidableEq, Repr

namespace CatalogFault

def ofWrite : WriteFault → CatalogFault
  | .pathTaken => .database .pathTaken
  | .hashTaken => .database .hashTaken
  | .tagTaken => .database .tagTaken
  | .noRecord path => .constraint ("no record to update for " ++ path)
  | .duplicateTag item tag =>
      .constraint ("duplicate tag rows for id=" ++ item.text ++ " tag='" ++ tag ++ "'")
  | .abandoned message => .constraint message

def ofSearch : SearchFault → CatalogFault
  | .tooComplex => .database .tooComplex

def ofStatement : StatementFault → CatalogFault
  | .tooDeep => .database .tooDeep
  | .tooManyBounds => .database .tooManyBounds
  | .tooManyOrders => .database .tooManyOrders

def message : CatalogFault → String
  | .unreadable path fault => "Failed to hash " ++ path.shown ++ ": " ++ fault.message
  | .database fault => "Database error: " ++ fault.message
  | .disk fault => "IO error: " ++ fault.message
  | .invalidPath path => "Invalid path: " ++ path.shown
  | .invalidSort fault => "Invalid sort: " ++ fault.message
  | .conflict path attempts =>
      "Gave up resolving " ++ path.shown ++ " after " ++ toString attempts ++
        " conflicting attempts"
  | .constraint message => "Constraint violation: " ++ message

/-- The message followed by those of its causes, outermost first. -/
def chain (fault : CatalogFault) : List String :=
  fault.message :: match fault with
    | .unreadable _ fault => [fault.message]
    | .database fault => [fault.message, fault.code]
    | .disk fault => [fault.message]
    | _ => []

def isBusy (fault : CatalogFault) : Bool :=
  fault == .database .locked || fault == .database .tableLocked

def isRetryable (fault : CatalogFault) : Bool :=
  match fault with
  | .unreadable .. | .conflict .. => true
  | fault => fault.isBusy

end CatalogFault

end MediaCatalog
