import MediaCatalog.Text.Utf8

/-!
Paths as the file system takes them: bytes, of which only the slash and NUL have
a meaning. Making a path absolute is a matter of its letters alone. Doubled
slashes and single dots go, double dots stay, a slash at the end stays, and so do
exactly two slashes at the beginning.
-/

namespace MediaCatalog

open Text

abbrev Name := List UInt8

structure Path where
  bytes : List UInt8
deriving DecidableEq, Repr

namespace Path

def slash : UInt8 := 0x2F

def ofText (s : String) : Path :=
  ⟨Utf8.encode s⟩

def text? (path : Path) : Option String :=
  Utf8.text? path.bytes

def shown (path : Path) : String :=
  Utf8.shown path.bytes

def dot : Name := [0x2E]
def dotDot : Name := [0x2E, 0x2E]

def isAbsolute (path : Path) : Bool :=
  path.bytes.head? == some slash

def endsInSlash (path : Path) : Bool :=
  path.bytes.getLast? == some slash

/-- What stands between the slashes, single dots included. -/
def parts (path : Path) : List Name :=
  (path.bytes.splitOnP (· == slash)).filter fun part => !part.isEmpty

/-- The parts that move: all but single dots. -/
def names (path : Path) : List Name :=
  path.parts.filter (· ≠ dot)

/-- Whether a path begins at the reader by a single dot of its own. -/
def startsInDot (path : Path) : Bool :=
  !path.isAbsolute && path.parts.head? == some dot

/-- The path with `later` behind it, unless that is absolute itself. -/
def join (path later : Path) : Path :=
  if later.isAbsolute then later
  else if path.bytes.isEmpty || path.endsInSlash then ⟨path.bytes ++ later.bytes⟩
  else ⟨path.bytes ++ slash :: later.bytes⟩

def joinNames (path : Path) (names : List Name) : Path :=
  names.foldl (fun path name => path.join ⟨name⟩) path

def startsWithTwoSlashes (path : Path) : Bool :=
  path.bytes.take 2 == [slash, slash] && path.bytes[2]? != some slash

/-- The path seen from the root, for a reader at `here`. The empty path is
nowhere. -/
def absolute? (here path : Path) : Option Path :=
  if path.bytes.isEmpty then none
  else
    let start : Path :=
      if path.startsWithTwoSlashes then ⟨[slash, slash]⟩
      else if path.isAbsolute then ⟨[slash]⟩
      else here
    let whole := start.joinNames path.names
    if path.endsInSlash && !whole.endsInSlash then some ⟨whole.bytes ++ [slash]⟩
    else some whole

def leading (path : Path) (names : List Name) : Path :=
  if path.startsInDot then ⟨dot⟩
  else if !path.isAbsolute then ⟨[]⟩
  else if path.startsWithTwoSlashes && !names.isEmpty then ⟨[slash, slash]⟩
  else ⟨[slash]⟩

def parent? (path : Path) : Option Path :=
  if path.names.isEmpty then
    if path.startsInDot then some ⟨[]⟩ else none
  else
    let before := path.names.dropLast
    some ((path.leading before).joinNames before)

/-- The last part, unless it leads back up. -/
def fileName? (path : Path) : Option Name :=
  match path.names.getLast? with
  | some name => if name = dotDot then none else some name
  | none => none

/-- Whether two paths have the same parts in the same places. A single dot is a
part at the beginning only. -/
def sameParts (path other : Path) : Bool :=
  path.isAbsolute == other.isAbsolute && path.startsInDot == other.startsInDot &&
    path.names == other.names

end Path

end MediaCatalog
