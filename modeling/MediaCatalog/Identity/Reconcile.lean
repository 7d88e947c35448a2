import MediaCatalog.Catalog.Write
import MediaCatalog.Identity.Supply

/-!
What one transaction makes of a file that was looked at. Content that is known
keeps its canonical identifier. A new path takes over the identifier of the
files that vanished with its content, if they agree on one; a file that changed
keeps its own unless a copy of the old content is still there.

Whether a recorded file is there is asked of the disk in the middle of the
transaction, so everything here depends on a test of paths.
-/

namespace MediaCatalog

/-- What a caller says of a file, by its absolute path. -/
structure Sighting where
  path : String
  size : UInt64
  modified : Int
deriving DecidableEq, Repr

def Sighting.record (seen : Sighting) (hash : String) (id : MediaId) : FileRecord :=
  ⟨seen.path, seen.size, seen.modified, hash, id, false⟩

structure Registry where
  catalog : Catalog
  supply : IdSupply

namespace Registry

/-- A new identifier, canonical for no content. -/
def fresh (registry : Registry) : MediaId × Registry :=
  let inUse := registry.catalog.canonical.map CanonicalRow.id
  let (id, supply) := registry.supply.draw inUse
  (id, { registry with supply })

/-- The canonical identifier of a content, which is `own` if it had none. -/
def settle (registry : Registry) (hash : String) (own : MediaId) : MediaId × Registry :=
  match registry.catalog.canonical? hash with
  | some id => (id, registry)
  | none => (own, { registry with catalog := registry.catalog.addCanonical hash own })

variable (present : String → Bool)

def vanished (registry : Registry) (hash : String) : List FileRecord :=
  (registry.catalog.withHash hash).filter fun file => !present file.path

/-- The identifier of the records, if they all have the same. -/
def soleId? (records : List FileRecord) : Option MediaId :=
  match (records.map FileRecord.id).eraseDups with
  | [id] => some id
  | _ => none

/-- Records a path for the first time. It takes over the identifier, and the
place, of the vanished files with its content. -/
def enrol (registry : Registry) (seen : Sighting) (hash : String) : FileRecord × Registry :=
  let gone := registry.vanished present hash
  match soleId? gone with
  | some id =>
      let record := seen.record hash id
      (record,
        { registry with catalog := (registry.catalog.addFile record).removeFiles gone })
  | none =>
      let (id, registry) := registry.fresh
      let record := seen.record hash id
      (record, { registry with catalog := registry.catalog.addFile record })

/-- The other records with the content that `old` had. -/
def companions (registry : Registry) (old : FileRecord) : List FileRecord :=
  (registry.catalog.withHash old.hash).filter fun file => file.path ≠ old.path

/-- Puts `updated` in the place of `old`. If another identifier is canonical
for the old content and no companion is there, the path takes it over, and the
place of its companions. If its own is canonical and a companion keeps the old
content, the path gets a new one. -/
def revise (registry : Registry) (updated old : FileRecord) : FileRecord × Registry :=
  let others := registry.companions old
  let shared := others.any fun file => present file.path
  match registry.catalog.canonical? old.hash with
  | none => (updated, { registry with catalog := registry.catalog.replaceFile updated })
  | some canonical =>
      if canonical ≠ old.id && !shared then
        let updated := { updated with id := canonical }
        (updated,
          { registry with
            catalog := (registry.catalog.replaceFile updated).removeFiles others })
      else if canonical = old.id && shared && old.hash ≠ updated.hash then
        let (id, registry) := registry.fresh
        let updated := { updated with id }
        (updated, { registry with catalog := registry.catalog.replaceFile updated })
      else
        (updated, { registry with catalog := registry.catalog.replaceFile updated })

def unmark (registry : Registry) (old : FileRecord) : Registry :=
  if old.missing then
    { registry with catalog := (registry.catalog.setMissing old.path false).2 }
  else
    registry

/-- Answers for a file that did not change. If another identifier is canonical
and no file that holds it is there, the path takes it over. -/
def revisit (registry : Registry) (old : FileRecord) : MediaId × Registry :=
  let (id, registry) := (registry.unmark old).settle old.hash old.id
  let held := (registry.catalog.withId id).any fun file => present file.path
  if id ≠ old.id && !held then
    (id, (registry.revise present old old).2)
  else
    (id, registry)

/-- Settles the identifier of a file. A digest is needed unless the file is on
record with the size and time that were seen; without it nothing is done. -/
def reconcile (registry : Registry) (seen : Sighting) (digest : Option String) :
    Option (MediaId × Registry) :=
  match registry.catalog.record? seen.path, digest with
  | none, none => none
  | none, some hash =>
      let (record, registry) := registry.enrol present seen hash
      some (registry.settle record.hash record.id)
  | some old, digest =>
      if old.upToDate seen.size seen.modified then
        some (registry.revisit present old)
      else
        match digest with
        | none => none
        | some hash =>
            let (record, registry) := registry.revise present (seen.record hash old.id) old
            some (registry.settle record.hash record.id)

end Registry

end MediaCatalog
