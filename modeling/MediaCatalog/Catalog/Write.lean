import MediaCatalog.Catalog.Basic

/-!
Writes to a catalog. A path has one record, a content one canonical identifier
and an item one row for a tag, whatever the case of its letters; a write that
would give a second is refused.
-/

namespace MediaCatalog

open Text

inductive WriteFault where
  | pathTaken
  | hashTaken
  | tagTaken
  | noRecord (path : String)
  | duplicateTag (item : MediaId) (tag : String)
  /-- Given up by the writer. -/
  | abandoned (message : String)
deriving DecidableEq, Repr

namespace Catalog

/-- Adds a record, whose file counts as live, behind the others. -/
def addFile (catalog : Catalog) (record : FileRecord) : Catalog :=
  { catalog with files := catalog.files ++ [{ record with missing := false }] }

def replaceFile (catalog : Catalog) (record : FileRecord) : Catalog :=
  { catalog with
    files := catalog.files.map fun file =>
      if file.path = record.path then { record with missing := false } else file }

def removeFile (catalog : Catalog) (path : String) : Catalog :=
  { catalog with files := catalog.files.filter fun file => file.path ≠ path }

def removeFiles (catalog : Catalog) (records : List FileRecord) : Catalog :=
  records.foldl (fun catalog record => catalog.removeFile record.path) catalog

def addCanonical (catalog : Catalog) (hash : String) (id : MediaId) : Catalog :=
  { catalog with canonical := catalog.canonical ++ [⟨hash, id⟩] }

def setMissing (catalog : Catalog) (path : String) (missing : Bool) : Bool × Catalog :=
  let changes := fun file : FileRecord => file.path = path && file.missing != missing
  (catalog.files.any changes,
    { catalog with
      files := catalog.files.map fun file =>
        if changes file then { file with missing } else file })

def insertFile (catalog : Catalog) (record : FileRecord) : Except WriteFault Catalog :=
  if (catalog.record? record.path).isSome then .error .pathTaken
  else .ok (catalog.addFile record)

def updateFile (catalog : Catalog) (record : FileRecord) : Except WriteFault Catalog :=
  if (catalog.record? record.path).isSome then .ok (catalog.replaceFile record)
  else .error (.noRecord record.path)

def insertCanonical (catalog : Catalog) (hash : String) (id : MediaId) :
    Except WriteFault Catalog :=
  if (catalog.canonical? hash).isSome then .error .hashTaken
  else .ok (catalog.addCanonical hash id)

end Catalog

structure TagWrite where
  item : MediaId
  tag : String
  modified : Int
  deleted : Bool
  /-- Whether a write that neither adds nor removes the tag still renews its
  time. -/
  renews : Bool
deriving DecidableEq, Repr

def TagWrite.row (write : TagWrite) : TagRow :=
  ⟨write.item, write.tag, write.modified, write.deleted⟩

def TagWrite.concerns (write : TagWrite) (row : TagRow) : Bool :=
  row.item = write.item && sameCaseless row.tag write.tag

def TagWrite.prevails (write : TagWrite) (row : TagRow) : Bool :=
  row.modified < write.modified && (write.renews || row.deleted != write.deleted)

namespace Catalog

def insertTag (catalog : Catalog) (write : TagWrite) : Except WriteFault Catalog :=
  if catalog.tags.any write.concerns then .error .tagTaken
  else .ok { catalog with tags := catalog.tags ++ [write.row] }

def updateTag (catalog : Catalog) (write : TagWrite) (change : TagRow → TagRow) : Catalog :=
  { catalog with
    tags := catalog.tags.map fun row => if write.concerns row then change row else row }

def renewTag (catalog : Catalog) (write : TagWrite) : Catalog :=
  catalog.updateTag write fun row =>
    { row with modified := write.modified, deleted := write.deleted }

/-- Gives the row for a tag the spelling of a write, unless the item would then
have the tag twice. -/
def respellTag (catalog : Catalog) (write : TagWrite) : Except WriteFault Catalog :=
  let respelled := catalog.updateTag write fun row => { row with tag := write.tag }
  if 1 < respelled.tags.countP write.concerns then .error .tagTaken
  else .ok respelled

/-- Merges a write into the tags, and tells whether it changed anything. The
spelling is written by itself, where it changes. -/
def mergeTag (catalog : Catalog) (write : TagWrite) : Except WriteFault (Bool × Catalog) :=
  match catalog.tags.filter write.concerns with
  | [] => do return (true, ← catalog.insertTag write)
  | [row] =>
      if write.prevails row then
        let renewed := catalog.renewTag write
        if row.tag = write.tag then .ok (true, renewed)
        else do return (true, ← renewed.respellTag write)
      else
        .ok (false, catalog)
  | _ :: _ :: _ => .error (.duplicateTag write.item write.tag)

end Catalog

/-- Sets a tag; a tag that is set keeps its time. -/
def addTag (item : MediaId) (tag : String) (modified : Int) : TagWrite :=
  ⟨item, tag, modified, false, false⟩

def setTagDeleted (item : MediaId) (tag : String) (deleted : Bool) (modified : Int) : TagWrite :=
  ⟨item, tag, modified, deleted, true⟩

end MediaCatalog
