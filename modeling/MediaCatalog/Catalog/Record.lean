/-!
The rows of a catalog. A file is known by its absolute path and carries an
identifier of its own; a content has one canonical identifier, which answers for
every file with that content.
-/

namespace MediaCatalog

/-- The identifier of one media item. Its text has no meaning. -/
structure MediaId where
  text : String
deriving DecidableEq, Repr, Inhabited

structure FileRecord where
  path : String
  /-- In bytes, when the file was last resolved. -/
  size : UInt64
  /-- In milliseconds since the epoch, when the file was last resolved. -/
  modified : Int
  hash : String
  /-- The identifier given to this path, canonical or not. -/
  id : MediaId
  missing : Bool
deriving DecidableEq, Repr

structure CanonicalRow where
  hash : String
  id : MediaId
deriving DecidableEq, Repr

structure TagRow where
  item : MediaId
  tag : String
  /-- In milliseconds since the epoch, when the tag was last set or removed. -/
  modified : Int
  /-- A removed tag keeps its row, so that older writes can be told apart. -/
  deleted : Bool
deriving DecidableEq, Repr

def FileRecord.upToDate (record : FileRecord) (size : UInt64) (modified : Int) : Bool :=
  record.size == size && record.modified == modified

/-- The size as the database keeps it, a number of 64 bits with sign. -/
def FileRecord.storedSize (record : FileRecord) : Int :=
  record.size.toInt64.toInt

end MediaCatalog
