import MediaCatalog.Catalog.Record
import MediaCatalog.Text.Caseless

/-!
A catalog: the tables of files, canonical identifiers and tags, each a list of
rows in the order in which they were first written.
-/

namespace MediaCatalog

open Text

inductive Table where
  | files
  | hashes
  | tags
deriving DecidableEq, Repr

def Table.name : Table → String
  | .files => "files"
  | .hashes => "hashes"
  | .tags => "tags"

structure Catalog where
  files : List FileRecord := []
  canonical : List CanonicalRow := []
  tags : List TagRow := []
deriving DecidableEq, Repr

structure CatalogCounts where
  files : Nat
  missingFiles : Nat
  distinctHashes : Nat
  canonicalIds : Nat
  liveTags : Nat
deriving DecidableEq, Repr

def byPath (records : List FileRecord) : List FileRecord :=
  records.mergeSort fun a b => a.path ≤ b.path

namespace Catalog

def record? (catalog : Catalog) (path : String) : Option FileRecord :=
  catalog.files.find? fun file => file.path = path

def canonical? (catalog : Catalog) (hash : String) : Option MediaId :=
  (catalog.canonical.find? fun row => row.hash = hash).map CanonicalRow.id

/-- All records with a content, those of missing files included. -/
def withHash (catalog : Catalog) (hash : String) : List FileRecord :=
  catalog.files.filter fun file => file.hash = hash

def withId (catalog : Catalog) (id : MediaId) : List FileRecord :=
  catalog.files.filter fun file => file.id = id

def isCanonical (catalog : Catalog) (id : MediaId) : Bool :=
  catalog.canonical.any fun row => row.id = id

def live (catalog : Catalog) : List FileRecord :=
  catalog.files.filter fun file => !file.missing

def sharingGroup (catalog : Catalog) (hash : String) : List FileRecord :=
  byPath (catalog.live.filter fun file => file.hash = hash)

def livePaths (catalog : Catalog) : List String :=
  (byPath catalog.live).map FileRecord.path

/-- The paths of the live files whose content has the given canonical
identifier. -/
def livePathsOf (catalog : Catalog) (id : MediaId) : List String :=
  (byPath (catalog.live.filter fun file => catalog.canonical? file.hash = some id)).map
    FileRecord.path

/-- The tags of an item, without regard to case in their order. -/
def tagsOf (catalog : Catalog) (item : MediaId) (withDeleted : Bool) : List TagRow :=
  (catalog.tags.filter fun row => row.item = item && (withDeleted || !row.deleted)).mergeSort
    fun a b => compareCaseless a.tag b.tag != .gt

def counts (catalog : Catalog) : CatalogCounts where
  files := catalog.files.length
  missingFiles := (catalog.files.filter FileRecord.missing).length
  distinctHashes := (catalog.files.map FileRecord.hash).eraseDups.length
  canonicalIds := (catalog.canonical.map CanonicalRow.id).eraseDups.length
  liveTags := (catalog.tags.filter fun row => !row.deleted).length

end Catalog

end MediaCatalog
