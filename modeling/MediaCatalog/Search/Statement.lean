import MediaCatalog.Query.Depth
import MediaCatalog.Search.Execute

/-!
What statements the database takes. One too deep or with too many values as it is
written fails before any table is looked at; the rest is found only with the
tables at hand.
-/

namespace MediaCatalog

open Query

inductive StatementFault where
  | tooDeep
  | tooManyBounds
  | tooManyOrders
deriving DecidableEq, Repr

/-- The values that a page binds, if it is not the whole result. -/
def Page.bounds (page : Page) : List Bound :=
  match page.limit, page.offset with
  | none, 0 => []
  | limit, offset =>
      [.integer ((limit.map fun n => n.toInt64.toInt).getD (-1)), .integer offset.toInt64.toInt]

namespace Statement

def deepest : Nat := 1000
def mostBounds : Nat := 32766
def mostOrders : Nat := 2000

def admitDepth (depth : Nat) : Except StatementFault Unit :=
  if deepest < depth then .error .tooDeep else .ok ()

def admitBounds (query : Compiled) (page : Page) : Except StatementFault Unit :=
  if mostBounds < (query.predicate.bounds ++ page.bounds).length then .error .tooManyBounds
  else .ok ()

/-- A search as it is written. -/
def admitSearch (query : Compiled) (page : Page) : Except StatementFault Unit := do
  admitDepth query.writtenDepth
  admitBounds query page

/-- A search with its tables. -/
def admitSearchOfTables (query : Compiled) (orders : List SortOrder) :
    Except StatementFault Unit := do
  admitDepth (query.reach 0)
  if mostOrders < orders.length then throw .tooManyOrders

def admitTags (query : Compiled) (page : Page) : Except StatementFault Unit := do
  admitDepth query.tagsDepth
  admitBounds query page

def admitTagsOfTables (query : Compiled) : Except StatementFault Unit :=
  admitDepth (query.reach query.tagsDepth)

end Statement

end MediaCatalog
