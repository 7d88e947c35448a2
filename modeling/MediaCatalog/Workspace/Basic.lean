import MediaCatalog.Catalog.Transaction
import MediaCatalog.Database.Connection
import MediaCatalog.Digest.Blake3
import MediaCatalog.Fault
import MediaCatalog.Identity.Supply

/-!
A workspace: a disk with databases on it, seen from a directory. Every reading and
every write of a database is a connection of its own, which does not ask again
for the tables: a database that was taken away has none until it is opened again.

One other writer at a time may hold a database. A write that meets it fails after
its waiting time, which is not part of the account.
-/

namespace MediaCatalog

/-- A turn of one of several tasks, by its place among them. It is blocked if it
comes in the middle of a transaction of another. -/
structure Slot where
  task : Nat
  blocked : Bool := false
deriving DecidableEq, Repr

structure Workspace where
  disk : Disk
  here : Path
  settingsHome : Path
  supply : IdSupply
  /-- In milliseconds since the epoch. -/
  clock : Int
  held : Option Held
  plan : Plan := .inTurn
  /-- The turns of what is done side by side. -/
  schedule : List Slot := []

structure Store where
  path : Path
deriving DecidableEq, Repr

/-- What is done in a workspace and may fail. What was done before a fault
stands. -/
abbrev Deed (α : Type) := ExceptT CatalogFault (StateM Workspace) α

def Workspace.perform {α : Type} (ws : Workspace) (deed : Deed α) :
    Except CatalogFault α × Workspace :=
  (ExceptT.run deed).run ws

def onDisk {α : Type} (deed : DiskDeed α) : Deed α := do
  let ws ← get
  let (answer, disk) := (ExceptT.run deed).run ws.disk
  set { ws with disk }
  match answer with
  | .ok value => return value
  | .error fault => throw (.database fault)

namespace Workspace

def present (ws : Workspace) (path : String) : Bool :=
  ws.disk.present ws.here (.ofText path)

def digest (ws : Workspace) (path : String) : Except DiskFault String :=
  (ws.disk.read ws.here (.ofText path)).map Digest.digest

end Workspace

namespace Connection

/-- Goes on unless another writer holds what the connection leads to. -/
def proceed (connection : Connection) (writing : Bool) : Deed Unit := do
  if let some fault := connection.refusal? (← get).held writing then
    throw (.database fault)

def load (connection : Connection) (table : Table) : Deed Catalog := do
  connection.proceed false
  let reading ← onDisk (connection.read (← get).clock)
  onDisk (connection.leave reading.logged)
  match reading.tables with
  | some catalog => return catalog
  | none => throw (.database (.noTable table))

/-- Ends a transaction, which leaves another catalog or none, and leaves. -/
def finish (connection : Connection) (reading : Reading) (kept : Option Catalog) :
    Deed Unit := do
  onDisk (connection.endWrite reading kept (← get).clock)

end Connection

namespace Store

def connect (store : Store) : Deed Connection := do
  let ws ← get
  onDisk (Connection.start ws.here store.path ws.clock)

/-- The catalog of a database as it is now, of which the given table is looked
at first. -/
def read (store : Store) (table : Table) : Deed Catalog := do
  (← store.connect).load table

def beginWrite (store : Store) : Deed (Connection × Reading) := do
  let connection ← store.connect
  connection.proceed true
  return (connection, ← onDisk (connection.beginWrite (← get).clock))

/-- Runs a change of a catalog as one transaction. What fails changes no
catalog. `bare` is the answer where there are no tables. -/
def write {α : Type} (store : Store) (bare : Except CatalogFault α)
    (change : Catalog → Except CatalogFault (α × Catalog)) : Deed α := do
  let (connection, reading) ← store.beginWrite
  match reading.tables with
  | none =>
      match bare with
      | .ok value =>
          onDisk (connection.settleBare reading (← get).clock)
          return value
      | .error fault =>
          connection.finish reading none
          throw fault
  | some catalog =>
      match change catalog with
      | .ok (value, catalog) =>
          connection.finish reading (some catalog)
          return value
      | .error fault =>
          connection.finish reading none
          throw fault

/-- Makes the directory for a database, unless there is something already. -/
def makeRoom (path : Path) : Deed Unit := do
  let ws ← get
  if let some parent := path.parent? then
    if !parent.bytes.isEmpty && !ws.disk.present ws.here parent then
      let (answer, disk) := ws.disk.makeDirectories ws.here parent
      set { ws with disk }
      if let .error fault := answer then throw (.disk fault)

/-- Opens a database, which is made if there is none. Opening writes to it. -/
def openAt (path : Path) : Deed Store := do
  makeRoom path
  let store : Store := ⟨path⟩
  let connection ← store.connect
  connection.proceed true
  onDisk (connection.prepare (← get).clock)
  return store

/-- The directory of a library in which its database is kept, and the name of
the database there. -/
def directoryName : String := ".mediadex"
def fileName : String := "media.db"

def ofLibrary (library : Path) : Path :=
  (library.join (.ofText directoryName)).join (.ofText fileName)

/-- What operations find where there are no tables: the first that needs one
fails. -/
def bareFindings : List Operation → Except CatalogFault (List Finding)
  | [] => .ok []
  | .abandon message :: _ => .error (.ofWrite (.abandoned message))
  | .insertFile _ :: _ | .updateFile _ :: _ | .removeFile _ :: _ | .setMissing .. :: _
  | .record _ :: _ | .withHash _ :: _ | .pathsWithId _ :: _ =>
      .error (.database (.noTable .files))
  | .canonical _ :: _ | .isCanonical _ :: _ | .insertCanonical .. :: _ =>
      .error (.database (.noTable .hashes))
  | .mergeTag _ :: _ => .error (.database (.noTable .tags))

def transact (store : Store) (operations : List Operation) : Deed (List Finding) :=
  store.write (bareFindings operations) fun catalog =>
    (catalog.performAll operations).mapError .ofWrite

def mergeTag (store : Store) (tag : TagWrite) : Deed Bool :=
  store.write (.error (.database (.noTable .tags))) fun catalog =>
    (catalog.mergeTag tag).mapError .ofWrite

def release : Deed Unit :=
  modify fun ws =>
    { ws with
      disk := match ws.held with
        | some held => ws.disk.letGo held
        | none => ws.disk
      held := none }

/-- Lets another writer hold a database. It lets go of what it held before,
once it could begin. -/
def hold (store : Store) : Deed Unit := do
  let (connection, reading) ← store.beginWrite
  release
  let held ← onDisk (connection.hold reading (← get).clock)
  modify fun ws => { ws with held }

end Store

end MediaCatalog
