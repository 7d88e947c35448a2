import MediaCatalog.Catalog.Basic
import MediaCatalog.Query.Clause
import MediaCatalog.Text.Like

/-!
What the conditions of a query mean for a live file and the canonical identifier
of its content. Tags that differ in case alone count once.
-/

namespace MediaCatalog

open Text Query

namespace Catalog

def tagged (catalog : Catalog) (item : MediaId) (pattern : String) : Bool :=
  catalog.tags.any fun row =>
    row.item = item && !row.deleted && Like.like pattern row.tag

def tagCount (catalog : Catalog) (item : MediaId) : Nat :=
  ((catalog.tags.filter fun row => row.item = item && !row.deleted).map
    TagRow.tag).eraseDupsBy sameCaseless |>.length

def copies (catalog : Catalog) (hash : String) : Nat :=
  (catalog.live.filter fun file => file.hash = hash).length

/-- Whether a file with the given identifier passes a test. An identifier
without tags is in no count of tags. -/
def passes (catalog : Catalog) (file : FileRecord) (item : MediaId) : Test → Bool
  | .pathLike pattern => Like.like pattern file.path
  | .tagLike pattern => catalog.tagged item pattern
  | .pathOrTagLike pattern => Like.like pattern file.path || catalog.tagged item pattern
  | .tagsBelow n =>
      let count := catalog.tagCount item
      !(0 < count && n ≤ (count : Int))
  | .tagsAbove n =>
      let count := catalog.tagCount item
      0 < count && n < (count : Int)
  | .dupesAbove n =>
      let count := catalog.copies file.hash
      0 < count && n + 1 < (count : Int)

def meets (catalog : Catalog) (file : FileRecord) (item : MediaId)
    (condition : Condition) : Bool :=
  catalog.passes file item condition.test != condition.negated

/-- A live file with the canonical identifier of its content. -/
abbrev Hit := FileRecord × MediaId

def hits (catalog : Catalog) : List Hit :=
  catalog.live.filterMap fun file => (catalog.canonical? file.hash).map (file, ·)

def matching (catalog : Catalog) (clauses : List Clause) : List Hit :=
  catalog.hits.filter fun hit => valueOf (catalog.meets hit.1 hit.2) clauses

def tagsMatching (catalog : Catalog) (clauses : List Clause) : List TagRow :=
  let items := (catalog.matching clauses).map Prod.snd
  catalog.tags.filter fun row => !row.deleted && items.contains row.item

end Catalog

end MediaCatalog
