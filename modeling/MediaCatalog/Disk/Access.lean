import MediaCatalog.Disk.Tree

/-!
Access to the tree by path. A path is followed part by part, from the root or from
the directory the reader is in, and every part but the last must lead to a
directory; so must the last one if a slash follows it.
-/

namespace MediaCatalog

inductive DiskFault where
  | notFound
  | notDirectory
  | isDirectory
  /-- There is a file where a directory is to be made. -/
  | alreadyExists
  | nameTooLong
  | holdsNul
  /-- The empty path has no absolute form. -/
  | emptyPath
  | notText
deriving DecidableEq, Repr

def DiskFault.message : DiskFault → String
  | .notFound => "No such file or directory (os error 2)"
  | .notDirectory => "Not a directory (os error 20)"
  | .isDirectory => "Is a directory (os error 21)"
  | .alreadyExists => "File exists (os error 17)"
  | .nameTooLong => "File name too long (os error 36)"
  | .holdsNul => "file name contained an unexpected NUL byte"
  | .emptyPath => "cannot make an empty path absolute"
  | .notText => "stream did not contain valid UTF-8"

/-- What a reader learns of a file without reading it. -/
structure Stat where
  size : UInt64
  modified : Int
deriving DecidableEq, Repr

namespace Disk

def nameBytes : Nat := 255

/-- A path has fewer bytes than this. -/
def pathBytes : Nat := 4096

def step (disk : Disk) (place : Place) (part : Name) : Except DiskFault Place :=
  match disk.at? place with
  | some (.directory entries) =>
      if part = Path.dot then .ok place
      else if part = Path.dotDot then .ok place.dropLast
      else if nameBytes < part.length then .error .nameTooLong
      else if (Entry.find? entries part).isSome then .ok (place ++ [part])
      else .error .notFound
  | some (.file _) => .error .notDirectory
  | none => .error .notFound

/-- Where a path leads for a reader at `here`. -/
def place? (disk : Disk) (here path : Path) : Except DiskFault Place := do
  if path.bytes.isEmpty then throw .notFound
  if path.bytes.contains 0 then throw .holdsNul
  if pathBytes ≤ path.bytes.length then throw .nameTooLong
  let start := if path.isAbsolute then [] else here.names
  let place ← path.parts.foldlM disk.step start
  if path.endsInSlash then
    if let some (.file _) := disk.at? place then throw .notDirectory
  return place

def find? (disk : Disk) (here path : Path) : Except DiskFault Node := do
  let place ← disk.place? here path
  match disk.at? place with
  | some node => return node
  | none => throw .notFound

def present (disk : Disk) (here path : Path) : Bool :=
  (disk.find? here path).isOk

/-- The size and time of a file. Those of a directory have no meaning. -/
def stat (disk : Disk) (here path : Path) : Except DiskFault Stat := do
  match ← disk.find? here path with
  | .file file => return ⟨.ofNat file.content.toBytes.size, file.modified⟩
  | .directory _ => return ⟨4096, 0⟩

def read (disk : Disk) (here path : Path) : Except DiskFault ByteArray := do
  match ← disk.find? here path with
  | .file file => return file.content.toBytes
  | .directory _ => throw .isDirectory

def readText (disk : Disk) (here path : Path) : Except DiskFault String := do
  match String.fromUTF8? (← disk.read here path) with
  | some text => return text
  | none => throw .notText

/-- Makes the directories on the way from a place, and tells where it ends.
Once one had to be made, those that follow are made one by one, and a file
among them is in the way. -/
def makeFrom (disk : Disk) (place : Place) (making : Bool) :
    List Name → Except DiskFault Place × Disk
  | [] =>
      match disk.at? place with
      | some (.directory _) => (.ok place, disk)
      | _ => (.error .alreadyExists, disk)
  | part :: rest =>
      match disk.step place part with
      | .ok next =>
          match making, disk.at? next with
          | true, some (.file _) => (.error .alreadyExists, disk)
          | _, _ => disk.makeFrom next making rest
      | .error .notFound =>
          let next := place ++ [part]
          (disk.setAt next (some (.directory []))).makeFrom next true rest
      | .error fault => (.error fault, disk)

/-- Makes a directory and those on the way to it, and tells its place. Those
made before a fault stay. -/
def makeDirectories (disk : Disk) (here path : Path) : Except DiskFault Place × Disk :=
  if path.bytes.contains 0 then (.error .holdsNul, disk)
  else if pathBytes ≤ path.bytes.length then (.error .nameTooLong, disk)
  else disk.makeFrom (if path.isAbsolute then [] else here.names) false path.parts

/-- Puts something at a path, in directories that are made if there are none. -/
def put (disk : Disk) (here path : Path) (node : Node) : Except DiskFault Disk := do
  let some whole := Path.absolute? here path | throw .emptyPath
  let some name := whole.fileName? | throw .isDirectory
  let some parent := whole.parent? | throw .isDirectory
  let (place, disk) := disk.makeDirectories here parent
  let place := (← place) ++ [name]
  match disk.at? place, node with
  | some (.directory _), .file _ => throw .isDirectory
  | _, _ => return disk.setAt place (some node)

def holderAt? (disk : Disk) (here path : Path) : Option Holder :=
  match disk.find? here path with
  | .ok (.file file) => file.holder
  | _ => none

def write (disk : Disk) (here path : Path) (bytes : ByteArray) (modified : Int) :
    Except DiskFault Disk :=
  disk.put here path (.file ⟨.plain bytes, modified, disk.holderAt? here path⟩)

def remove (disk : Disk) (here path : Path) : Except DiskFault Disk := do
  return disk.setAt (← disk.place? here path) none

/-- Moves a file or directory, over what there may be at the other path. -/
def rename (disk : Disk) (here path target : Path) : Except DiskFault Disk := do
  let node ← disk.find? here path
  (← disk.remove here path).put here target node

/-- Copies a file; the copy has a time of its own. -/
def copy (disk : Disk) (here path target : Path) (modified : Int) : Except DiskFault Disk := do
  match ← disk.find? here path with
  | .file file =>
      disk.put here target (.file ⟨file.content, modified, disk.holderAt? here target⟩)
  | .directory _ => throw .isDirectory

end Disk

end MediaCatalog
