import MediaCatalog.Text.Caseless

/-!
Orders for search results: a column and a direction each, the first order deciding
before the next.
-/

namespace MediaCatalog.Query

open Text

inductive SortColumn where
  /-- The path, letters compared without regard to case. -/
  | file
  | fileSize
  | modified
deriving DecidableEq, Repr

inductive SortDirection where
  | ascending
  | descending
deriving DecidableEq, Repr

structure SortOrder where
  column : SortColumn
  direction : SortDirection
deriving DecidableEq, Repr

def SortColumn.name : SortColumn → String
  | .file => "file"
  | .fileSize => "file-size"
  | .modified => "modified"

def SortDirection.name : SortDirection → String
  | .ascending => "asc"
  | .descending => "desc"

def SortColumn.ofName? (name : String) : Option SortColumn :=
  [SortColumn.file, .fileSize, .modified].find? fun column => isCaseless column.name name

def SortDirection.ofName? (name : String) : Option SortDirection :=
  [SortDirection.ascending, .descending].find? fun direction => isCaseless direction.name name

def SortColumn.sql : SortColumn → String
  | .file => "f.path COLLATE NOCASE"
  | .fileSize => "f.size"
  | .modified => "f.modified"

def SortDirection.sql : SortDirection → String
  | .ascending => "ASC"
  | .descending => "DESC"

def SortOrder.sql (order : SortOrder) : String :=
  order.column.sql ++ " " ++ order.direction.sql

inductive SortFault where
  | incomplete
  | unequal (columns directions : Nat)
deriving DecidableEq, Repr

def SortFault.message : SortFault → String
  | .incomplete => "sort needs both columns and directions"
  | .unequal columns directions =>
      toString columns ++ " sort columns but " ++ toString directions ++ " directions"

def SortOrder.pair (columns : List SortColumn) (directions : List SortDirection) :
    Except SortFault (List SortOrder) :=
  if columns.isEmpty || directions.isEmpty then
    .error .incomplete
  else if columns.length ≠ directions.length then
    .error (.unequal columns.length directions.length)
  else
    .ok (columns.zipWith SortOrder.mk directions)

/-- The orders in force: those given, or by path if none are. -/
def effectiveOrders (orders : List SortOrder) : List SortOrder :=
  if orders.isEmpty then [⟨.file, .ascending⟩] else orders

end MediaCatalog.Query
