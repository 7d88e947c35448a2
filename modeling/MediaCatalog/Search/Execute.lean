import MediaCatalog.Query.Compiled
import MediaCatalog.Search.Plan

/-!
Running a query against a catalog. How many results to give and to pass over is
told by numbers of 64 bits, read with a sign: a negative number sets no bound, or
passes over none.
-/

namespace MediaCatalog

open Text Query

def Query.SortOrder.compare (order : SortOrder) (a b : FileRecord) : Ordering :=
  let ascending := match order.column with
    | .file => compareCaseless a.path b.path
    | .fileSize => Ord.compare a.storedSize b.storedSize
    | .modified => Ord.compare a.modified b.modified
  match order.direction with
  | .ascending => ascending
  | .descending => ascending.swap

def compareBy (orders : List SortOrder) (a b : FileRecord) : Ordering :=
  orders.foldr (fun order rest => (order.compare a b).then rest) .eq

structure Page where
  limit : Option UInt64 := none
  offset : UInt64 := 0
deriving DecidableEq, Repr

def Page.passed (page : Page) : Nat :=
  page.offset.toInt64.toInt.toNat

def Page.given? (page : Page) : Option Nat :=
  match page.limit with
  | none => none
  | some limit => if limit.toInt64.toInt < 0 then none else some limit.toInt64.toInt.toNat

def Page.cut {α : Type} (page : Page) (results : List α) : List α :=
  let rest := results.drop page.passed
  match page.given? with
  | none => rest
  | some n => rest.take n

/-- Raised where a pattern too long would have been compared. -/
inductive SearchFault where
  | tooComplex
deriving DecidableEq, Repr

/-- A tag and the number of results that carry it. -/
structure TagFrequency where
  tag : String
  count : Nat
deriving DecidableEq, Repr

/-- Each tag with the number of identifiers that carry it, the most frequent
first. Tags equal but for case are one, in the writing of the first. -/
def TagFrequency.ofRows (rows : List TagRow) : List TagFrequency :=
  let counted := ((rows.map TagRow.tag).eraseDupsBy sameCaseless).map fun tag =>
    let carriers := (rows.filter fun row => sameCaseless row.tag tag).map TagRow.item
    ({ tag, count := carriers.eraseDups.length } : TagFrequency)
  counted.mergeSort fun a b =>
    ((Ord.compare b.count a.count).then (compareCaseless a.tag b.tag)) != .gt

namespace Catalog

variable (catalog : Catalog) (plan : Plan)

/-- The identifiers of all hits that meet the query, in order. -/
def found (query : Compiled) (orders : List SortOrder) : List MediaId :=
  let met := (plan.hits catalog query orders).eraseDupsBy fun a b => a.2 == b.2
  (met.mergeSort fun a b =>
    compareBy (effectiveOrders orders) a.1 b.1 != .gt).map Prod.snd

/-- A page of the identifiers found. A page of no length compares nothing. -/
def search (query : Compiled) (orders : List SortOrder) (page : Page) :
    Except SearchFault (List MediaId) :=
  if page.given? != some 0 && plan.searchFails catalog query orders then .error .tooComplex
  else .ok (page.cut (catalog.found plan query orders))

def tagFrequencies (query : Compiled) (page : Page) : Except SearchFault (List TagFrequency) :=
  if page.given? != some 0 && plan.countFails catalog query then .error .tooComplex
  else .ok (page.cut (TagFrequency.ofRows (plan.tags catalog query)))

end Catalog

end MediaCatalog
