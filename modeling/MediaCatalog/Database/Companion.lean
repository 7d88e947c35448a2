import MediaCatalog.Database.Location
import MediaCatalog.Disk.Access

/-!
Where a database can be on disk, and the files that go with it: a journal of what
was there before, a log of what is new, and the memory that the readers of a log
share. Each lies beside the database and has its name with an ending.
-/

namespace MediaCatalog

open Text

namespace Place

def beside (place : Place) (ending : String) : Place :=
  place.dropLast ++ [place.getLast?.getD [] ++ Utf8.encode ending]

def journal (place : Place) : Place := beside place "-journal"
def log (place : Place) : Place := beside place "-wal"
def sharedMemory (place : Place) : Place := beside place "-shm"

def fits (place : Place) : Bool :=
  (place.getLast?.getD []).length ≤ Disk.nameBytes

def pathLength (place : Place) : Nat :=
  place.foldl (fun n name => n + 1 + name.length) 0

end Place

def Content.isBlank : Content → Bool
  | .plain bytes => bytes.size ≤ 1
  | .database _ _ => false

def Content.keepsLog : Content → Bool
  | .database _ .writeAhead => true
  | _ => false

namespace Disk

/-- A place is looked at only if its path has fewer bytes than this. -/
def lookedAtBytes : Nat := 512

/-- The most bytes that the path of a database can have. -/
def databaseBytes : Nat := 504

def isDirectory (disk : Disk) (place : Place) : Bool :=
  match disk.at? place with
  | some (.directory _) => true
  | _ => false

/-- The bytes of a file that is not empty. -/
def bytesAt? (disk : Disk) (place : Place) : Option ByteArray :=
  match disk.at? place with
  | some (.file file) =>
      let bytes := file.content.toBytes
      if bytes.size = 0 then none else some bytes
  | _ => none

/-- Whether one can look for something below a place. -/
def canLook (disk : Disk) (place : Place) (name : Name) : Bool :=
  Place.pathLength (place ++ [name]) < lookedAtBytes &&
    match disk.at? place with
    | some (.directory _) => name.length ≤ nameBytes
    | some (.file _) => false
    | none => true

/-- Where a name leads when each `..` takes the name before it away. Every
place on the way is looked at, whether it is there or not. -/
def placeFrom? (disk : Disk) (place : Place) : List Name → Option Place
  | [] => some place
  | name :: rest =>
      if name = Path.dotDot then disk.placeFrom? place.dropLast rest
      else if disk.canLook place name then disk.placeFrom? (place ++ [name]) rest
      else none

/-- The place of a database, if its path can have one. -/
def databasePlace? (disk : Disk) (here name : Path) : Option Place := do
  let place ← disk.placeFrom? [] ((if name.isAbsolute then [] else here.names) ++ name.names)
  if place.isEmpty || databaseBytes < Place.pathLength place then none else some place

def removeFile (disk : Disk) (place : Place) : Disk :=
  match disk.at? place with
  | some (.file _) => disk.setAt place none
  | _ => disk

/-- Makes a file unless there is something already. -/
def makeFile (disk : Disk) (place : Place) (bytes : ByteArray) (now : Int) : Disk :=
  match disk.at? place with
  | none => disk.setAt place (some (.file { content := .plain bytes, modified := now }))
  | some _ => disk

/-- Whether a file begins as a journal does whose changes are to be undone.
One that begins with NUL is none. -/
def hasJournal (disk : Disk) (place : Place) : Bool :=
  (disk.bytesAt? (Place.journal place)).any fun bytes => bytes.get! 0 ≠ 0

/-- The bytes that the heading of a log takes, and where in it the mark of the
log stands. -/
def logHeading : Nat := 32
def logMark : Nat × Nat := (16, 24)

def hasMarkedLog (disk : Disk) (place : Place) : Bool :=
  (disk.bytesAt? (Place.log place)).any fun bytes =>
    logHeading ≤ bytes.size && (bytes.extract logMark.1 logMark.2).toList.any (· ≠ 0)

/-- Whether a log at a place could be written: someone has the shared memory
already, or no directory is in its way. -/
def canShare (disk : Disk) (place : Place) : Bool :=
  (disk.holder? place).isSome || !disk.isDirectory (Place.sharedMemory place)

def removeLog (disk : Disk) (place : Place) : Disk :=
  (disk.removeFile (Place.log place)).removeFile (Place.sharedMemory place)

end Disk

end MediaCatalog
