import MediaCatalog.Database.Companion

/-!
Connections to databases. The first write gives a blank file its tables, and from
then on a log, unless the connection shares no memory with others. The log and
the shared memory are there while a connection works, and while a writer holds
the database. A journal that was left behind is put back and taken away.
-/

namespace MediaCatalog

/-- What is done to a disk and may be refused. What was done before stands. -/
abbrev DiskDeed (α : Type) := ExceptT DatabaseFault (StateM Disk) α

/-- A connection to a database that passes, or to a file. -/
inductive Connection where
  | passing (readOnly : Bool) (common : Option Common)
  | file (place : Place) (manner : Manner)

structure Reading where
  /-- The catalog, if the database has tables. -/
  tables : Option Catalog
  blank : Bool := false
  logged : Bool := false

/-- What a writer holds: a database that passes, or the file that was at a
place when it began, with its log, or with a journal if it was blank. -/
inductive Held where
  | passing (common : Common)
  | file (place : Place) (blank logged : Bool)

namespace Connection

def start (here name : Path) (now : Int) : DiskDeed Connection := do
  match ← liftExcept (Location.ofName name) with
  | .passing readOnly common => return .passing readOnly common
  | .file target manner =>
      let disk ← get
      let some place := disk.databasePlace? here target | throw (.cannotOpen name)
      if let some likeness := manner.likeness then
        if !disk.present here likeness then throw .statFailed
      match disk.at? place with
      | some (.file _) => return .file place manner
      | some (.directory _) =>
          if manner.access == .readOnly then return .file place manner
          throw (.cannotOpen name)
      | none =>
          if manner.access != .create || !disk.isDirectory place.dropLast then
            throw (.cannotOpen name)
          set (disk.makeFile place .empty now)
          return .file place manner

/-- The memory shared by the readers of a log, before anything is in it. -/
def blankMemory : ByteArray := ⟨Array.replicate 32768 0⟩

/-- A journal with nothing but its heading. -/
def blankJournal : ByteArray := ⟨Array.replicate 512 0⟩

def clearBlank (place : Place) : DiskDeed Unit := do
  let disk ← get
  if (disk.holder? place).isNone && (disk.bytesAt? (Place.journal place)).isSome then
    set (disk.removeFile (Place.journal place))
  if disk.isDirectory (Place.log place) then throw .deleteFailed
  if (disk.bytesAt? (Place.log place)).isSome then
    modify (·.removeFile (Place.log place))

/-- Puts back a journal that was left behind. That is a write, and takes the
database whole, which a reader of its log does not give away. -/
def settleJournal (place : Place) (manner : Manner) (keepsLog : Bool) : DiskDeed Unit := do
  let disk ← get
  if disk.isDirectory (Place.journal place) then throw .readFailed
  if disk.hasJournal place then
    if (disk.holder? place).isSome then
      if keepsLog then throw .locked
    else if manner.access == .readOnly then throw .readOnly
    else set (disk.removeFile (Place.journal place))

/-- Joins the log, if there is one or the database is to have one. Without
shared memory a log is read only if it bears no mark. -/
def joinLog (place : Place) (manner : Manner) (keepsLog : Bool) (now : Int) :
    DiskDeed Bool := do
  let disk ← get
  let log := Place.log place
  if !(keepsLog || disk.isDirectory log || (disk.bytesAt? log).isSome) then return false
  if manner.alone || disk.isDirectory log || !Place.fits log then throw (.cannotOpen none)
  if !disk.canShare place && disk.hasMarkedLog place then throw .cannotLock
  modify (·.makeFile log .empty now)
  if (disk.holder? place).isNone then
    modify (·.makeFile (Place.sharedMemory place) blankMemory now)
  return true

/-- Takes the log away, unless someone else needs it or it cannot be told. -/
def leave (connection : Connection) (logged : Bool) : DiskDeed Unit := do
  if let .file place manner := connection then
    let disk ← get
    if logged && (disk.holder? place).isNone && manner.access != .readOnly &&
        disk.canShare place then
      set (disk.removeLog place)

def refuse {α : Type} (connection : Connection) (logged : Bool) (fault : DatabaseFault) :
    DiskDeed α := do
  connection.leave logged
  throw fault

/-- Whether the connection reads through the cache of the writer that holds
its database. -/
def joinsHolder (connection : Connection) (disk : Disk) : Bool :=
  match connection with
  | .passing _ _ => false
  | .file place manner => manner.sharing && (disk.holder? place).any Holder.sharing

def read (connection : Connection) (now : Int) : DiskDeed Reading := do
  match connection with
  | .passing _ _ => return { tables := none }
  | .file place manner =>
      match (← get).at? place with
      | some (.file found) =>
          let heedless := manner.immutable || connection.joinsHolder (← get)
          if found.content.isBlank then
            if !heedless then clearBlank place
            return { tables := none, blank := true }
          let logged ←
            if heedless then pure false
            else
              settleJournal place manner found.content.keepsLog
              joinLog place manner found.content.keepsLog now
          match found.content with
          | .database tables _ => return { tables, logged }
          | .plain _ => connection.refuse logged .notDatabase
      | some (.directory _) => throw .readFailed
      | none => return { tables := none, blank := true }

def beginWrite (connection : Connection) (now : Int) : DiskDeed Reading := do
  match connection with
  | .passing readOnly _ =>
      if readOnly then throw .readOnly
      return { tables := none }
  | .file place manner =>
      if connection.joinsHolder (← get) then throw .tableLocked
      let reading ← connection.read now
      let disk ← get
      if manner.access == .readOnly || manner.immutable ||
          (reading.logged && !disk.canShare place) then
        connection.refuse reading.logged .readOnly
      let inTheWay := (disk.holder? place).any fun holder => !(reading.blank && holder.logged)
      if inTheWay && !manner.alone then connection.refuse reading.logged .locked
      if reading.blank &&
          (disk.isDirectory (Place.journal place) || !Place.fits (Place.journal place)) then
        throw (.cannotOpen none)
      return reading

/-- Puts tables into the database, or only its way of journalling. -/
def keep (connection : Connection) (tables : Option Catalog) (journal : Journal) (now : Int) :
    DiskDeed Unit := do
  if let .file place _ := connection then
    modify fun disk =>
      disk.setAt place (some (.file ⟨.database tables journal, now, disk.holder? place⟩))

def journal (connection : Connection) : DiskDeed Journal := do
  match connection with
  | .passing _ _ => return .rollback
  | .file place _ =>
      match (← get).at? place with
      | some (.file ⟨.database _ journal, _, _⟩) => return journal
      | _ => return .rollback

def endWrite (connection : Connection) (reading : Reading) (kept : Option Catalog) (now : Int) :
    DiskDeed Unit := do
  if kept.isSome then
    connection.keep kept (← connection.journal) now
  if let .file place _ := connection then
    if !reading.logged then modify (·.removeFile (Place.journal place))
  connection.leave reading.logged

/-- Whether nothing can be written after all: the database is blank, but who
holds it still reads the log that it had. -/
def isStuck (connection : Connection) (reading : Reading) (disk : Disk) : Bool :=
  match connection with
  | .passing _ _ => false
  | .file place manner =>
      reading.blank && !manner.alone && (disk.holder? place).any Holder.logged

/-- Ends a write that changed nothing where there are no tables. A database
that was blank is none from then on. -/
def settleBare (connection : Connection) (reading : Reading) (now : Int) : DiskDeed Unit := do
  let stuck := connection.isStuck reading (← get)
  if reading.blank && !stuck then connection.keep none .rollback now
  connection.endWrite reading none now
  if stuck then throw .locked

/-- Gives a database its tables, and its log if it can have one. -/
def prepare (connection : Connection) (now : Int) : DiskDeed Unit := do
  let reading ← connection.beginWrite now
  if connection.isStuck reading (← get) then
    connection.endWrite reading none now
    throw .locked
  if let .file place manner := connection then
    let catalog := reading.tables.getD {}
    if manner.alone then
      connection.endWrite reading (some catalog) now
    else
      let logged ← if reading.logged then pure true else joinLog place manner true now
      if !reading.logged then modify (·.removeFile (Place.journal place))
      if !(← get).canShare place then
        connection.keep reading.tables .writeAhead now
        connection.refuse logged .readOnly
      connection.keep (some catalog) .writeAhead now
      connection.leave logged

def hold (connection : Connection) (reading : Reading) (now : Int) : DiskDeed (Option Held) := do
  match connection with
  | .passing _ common => return common.map .passing
  | .file place manner =>
      let holder : Holder := ⟨manner.sharing, reading.logged⟩
      match (← get).at? place with
      | some (.file found) =>
          if !manner.alone then
            modify (·.setAt place (some (.file { found with holder := some holder })))
          if reading.blank then
            modify fun disk =>
              (disk.removeFile (Place.journal place)).makeFile (Place.journal place)
                blankJournal now
          return some (.file place reading.blank reading.logged)
      | _ => return none

/-- Why a connection cannot begin while something is held, if it goes to a
database that passes. -/
def refusal? (connection : Connection) (held : Option Held) (writing : Bool) :
    Option DatabaseFault :=
  match connection, held with
  | .passing _ (some common), some (.passing other) =>
      if common ≠ other then none
      else if common.whole then some .locked
      else if writing then some .tableLocked
      else none
  | _, _ => none

end Connection

/-- The disk once a writer lets go. A journal that it began is taken away, and
the log if the file is still where it was. -/
def Disk.letGo (disk : Disk) : Held → Disk
  | .passing _ => disk
  | .file place blank logged =>
      let inPlace := (disk.holder? place).isSome
      let disk := disk.released
      let disk := if blank then disk.removeFile (Place.journal place) else disk
      if logged && inPlace then disk.removeLog place else disk

end MediaCatalog
