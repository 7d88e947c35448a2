import MediaCatalog.Catalog.Codec
import MediaCatalog.Disk.Path

/-!
Directories and files as a tree, without links. A file holds bytes or the tables
of a database; both can be read as bytes. A file that a writer holds stays held
when it is written over or moved.
-/

namespace MediaCatalog

/-- Where a database notes down what a write would lose: in a journal of what
was there before, or in a log of what is new. -/
inductive Journal where
  | rollback
  | writeAhead
deriving DecidableEq, Repr

inductive Content where
  | plain (bytes : ByteArray)
  /-- A database, in which the tables may not have been made yet. -/
  | database (tables : Option Catalog) (journal : Journal)

def Content.toBytes : Content → ByteArray
  | .plain bytes => bytes
  | .database tables _ => Codec.encode (tables.getD {})

structure Holder where
  /-- Whether its cache is shared with those that ask for it. -/
  sharing : Bool
  /-- Whether it writes to a log. -/
  logged : Bool
deriving DecidableEq, Repr

structure File where
  content : Content
  /-- In milliseconds since the epoch. -/
  modified : Int
  holder : Option Holder := none

inductive Entry where
  | file (name : Name) (value : File)
  | directory (name : Name) (entries : List Entry)

def Entry.name : Entry → Name
  | .file own _ => own
  | .directory own _ => own

inductive Node where
  | file (value : File)
  | directory (entries : List Entry)

def Node.named (name : Name) : Node → Entry
  | .file value => .file name value
  | .directory entries => .directory name entries

/-- The names on the way from the root to a place. -/
abbrev Place := List Name

namespace Entry

def find? (entries : List Entry) (name : Name) : Option Entry :=
  entries.find? fun entry => entry.name = name

def at? (entries : List Entry) : Place → Option Node
  | [] => some (.directory entries)
  | name :: rest =>
      match find? entries name with
      | some (.directory _ inner) => at? inner rest
      | some (.file _ value) => if rest.isEmpty then some (.file value) else none
      | none => none

/-- The entries with another one in the place of its namesake, or behind all
others if it has none. -/
def put (entries : List Entry) (new : Entry) : List Entry :=
  if entries.any fun entry => entry.name = new.name then
    entries.map fun entry => if entry.name = new.name then new else entry
  else
    entries ++ [new]

mutual

def released : Entry → Entry
  | .file own value => .file own { value with holder := none }
  | .directory own entries => .directory own (allReleased entries)

def allReleased : List Entry → List Entry
  | [] => []
  | entry :: rest => released entry :: allReleased rest

end

def drop (entries : List Entry) (name : Name) : List Entry :=
  entries.filter fun entry => entry.name ≠ name

/-- Sets or removes what there is at a place. Directories on the way that do
not exist are made; the root itself cannot be replaced. -/
def setAt (entries : List Entry) (node : Option Node) : Place → List Entry
  | [] => entries
  | [name] =>
      match node with
      | some node => put entries (node.named name)
      | none => drop entries name
  | name :: rest =>
      let inner := match find? entries name with
        | some (.directory _ inner) => inner
        | _ => []
      put entries (.directory name (setAt inner node rest))

end Entry

structure Disk where
  entries : List Entry := []

def Disk.at? (disk : Disk) (place : Place) : Option Node :=
  Entry.at? disk.entries place

def Disk.setAt (disk : Disk) (place : Place) (node : Option Node) : Disk :=
  ⟨Entry.setAt disk.entries node place⟩

def Disk.holder? (disk : Disk) (place : Place) : Option Holder :=
  match disk.at? place with
  | some (.file file) => file.holder
  | _ => none

def Disk.released (disk : Disk) : Disk :=
  ⟨Entry.allReleased disk.entries⟩

end MediaCatalog
