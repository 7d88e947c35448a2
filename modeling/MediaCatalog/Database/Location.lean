import MediaCatalog.Database.Fault

/-!
Where a database is, by the name it is asked for. The empty name and `:memory:`
stand for a database of the connection's own, and one that begins with `file:` is
a locator with options. Each option may narrow the access that those before it
left, and may not widen it again. Any other name is that of a file.
-/

namespace MediaCatalog

open Text

inductive Access where
  | readOnly
  | readWrite
  /-- Read and write, and make the file if there is none. -/
  | create
deriving DecidableEq, Repr

structure Manner where
  access : Access := .create
  /-- The file is taken never to change, and nothing beside it is heeded. -/
  immutable : Bool := false
  /-- The connection shares no memory with others and heeds no lock. -/
  alone : Bool := false
  /-- The connection shares its cache with others that do. -/
  sharing : Bool := false
  /-- A file whose rights a new file is to have. -/
  likeness : Option Path := none
deriving DecidableEq, Repr

/-- A database in no file that connections have in common. -/
structure Common where
  name : Path
  /-- Whether a writer that holds it keeps readers out. -/
  whole : Bool
deriving DecidableEq, Repr

inductive Location where
  /-- A database that is gone when the last connection to it closes: the
  connection's own, or one that others find by name. -/
  | passing (readOnly : Bool) (common : Option Common)
  | file (name : Path) (manner : Manner)
deriving DecidableEq, Repr

namespace Location

def scheme : List UInt8 := Utf8.encode "file:"
def memoryName : List UInt8 := Utf8.encode ":memory:"

def question : UInt8 := 0x3F
def hash : UInt8 := 0x23
def ampersand : UInt8 := 0x26
def equals : UInt8 := 0x3D
def percent : UInt8 := 0x25

def hexValue? (b : UInt8) : Option UInt8 :=
  if 0x30 ≤ b && b ≤ 0x39 then some (b - 0x30)
  else if 0x41 ≤ b && b ≤ 0x46 then some (b - 0x37)
  else if 0x61 ≤ b && b ≤ 0x66 then some (b - 0x57)
  else none

def decode : List UInt8 → List UInt8
  | b :: c :: d :: rest =>
      match b == percent, hexValue? c, hexValue? d with
      | true, some high, some low =>
          if high = 0 && low = 0 then [] else (16 * high + low) :: decode rest
      | _, _, _ => b :: decode (c :: d :: rest)
  | bytes => bytes

def splitAtFirst (mark : UInt8) (bytes : List UInt8) : List UInt8 × List UInt8 :=
  (bytes.takeWhile (· ≠ mark), (bytes.dropWhile (· ≠ mark)).drop 1)

/-- The options with their values. One without a name is none. -/
def options (bytes : List UInt8) : List (List UInt8 × List UInt8) :=
  ((bytes.splitOnP (· == ampersand)).map fun option =>
    let (name, value) := splitAtFirst equals option
    (decode name, decode value)).filter fun option => !option.1.isEmpty

/-- What follows the authority, if that is this machine. -/
def afterAuthority (bytes : List UInt8) : Except DatabaseFault (List UInt8) :=
  match bytes with
  | 0x2F :: 0x2F :: rest =>
      let authority := rest.takeWhile (· ≠ Path.slash)
      if authority.isEmpty || authority = Utf8.encode "localhost" then
        .ok (rest.dropWhile (· ≠ Path.slash))
      else
        .error (.foreignAuthority (Utf8.shown authority))
  | bytes => .ok bytes

inductive Use where
  | onDisk (access : Access)
  | inMemory
deriving DecidableEq, Repr

def Access.rank : Access → Nat
  | .readOnly => 1
  | .readWrite => 2
  | .create => 3

def useNamed? (name : List UInt8) : Option Use :=
  if name = Utf8.encode "ro" then some (.onDisk .readOnly)
  else if name = Utf8.encode "rw" then some (.onDisk .readWrite)
  else if name = Utf8.encode "rwc" then some (.onDisk .create)
  else if name = Utf8.encode "memory" then some .inMemory
  else none

/-- The use left by an option behind those that left `before`. -/
def narrow (before : Use) (value : List UInt8) : Except DatabaseFault Use :=
  match useNamed? value, before with
  | none, _ => .error (.unknownAccess (Utf8.shown value))
  | some (.onDisk wanted), .onDisk allowed =>
      if Access.rank wanted ≤ Access.rank allowed then .ok (.onDisk wanted)
      else .error (.accessNotAllowed (Utf8.shown value))
  | some use, _ => .ok use

def useOf (before : Use) : List (List UInt8 × List UInt8) → Except DatabaseFault Use
  | [] => .ok before
  | (name, value) :: rest => do
      if name = Utf8.encode "mode" then
        useOf (← narrow before value) rest
      else if name = Utf8.encode "cache" then
        if value = Utf8.encode "shared" || value = Utf8.encode "private" then
          useOf before rest
        else
          throw (.unknownCache (Utf8.shown value))
      else
        useOf before rest

inductive FileSystem where
  | usual
  /-- Without memory that connections share. -/
  | withoutSharing
  | memory
deriving DecidableEq, Repr

def fileSystemNamed (name : List UInt8) : Except DatabaseFault FileSystem :=
  if name = Utf8.encode "unix" || name = Utf8.encode "unix-excl" then .ok .usual
  else if name = Utf8.encode "unix-none" || name = Utf8.encode "unix-dotfile" then
    .ok .withoutSharing
  else if name = Utf8.encode "memdb" then .ok .memory
  else .error (.unknownSystem (Utf8.shown name))

/-- Whether a value means yes. A number does unless it is a multiple of 256. -/
def isYes (value : List UInt8) : Bool :=
  let digits := value.takeWhile fun b => 0x30 ≤ b && b ≤ 0x39
  if digits.isEmpty then
    ["on", "yes", "true"].any fun word => isCaseless word (Utf8.shown value)
  else
    let number := digits.foldl (fun n b => 10 * n + (b.toNat - 0x30)) 0
    number < 2147483648 && number % 256 ≠ 0

def saysYes (options : List (List UInt8 × List UInt8)) (name : String) : Bool :=
  (List.lookup (Utf8.encode name) options).any isYes

def ofLocator (bytes : List UInt8) : Except DatabaseFault Location := do
  let bytes := (← afterAuthority bytes).takeWhile (· ≠ hash)
  let (name, options) := (splitAtFirst question bytes).map decode Location.options
  let use ← useOf (.onDisk .create) options
  let system ← match options.reverse.lookup (Utf8.encode "vfs") with
    | none => pure .usual
    | some system => fileSystemNamed system
  let immutable := saysYes options "immutable"
  let sharing := options.reverse.lookup (Utf8.encode "cache") == some (Utf8.encode "shared")
  let common := if sharing && !name.isEmpty then some ⟨⟨name⟩, false⟩ else none
  match use with
  | .inMemory => return .passing false common
  | .onDisk access =>
      let readOnly := access == .readOnly
      if name.isEmpty || name = memoryName then return .passing readOnly common
      if system = .memory then
        let common := if name.head? = some Path.slash && 1 < name.length then some ⟨⟨name⟩, true⟩
          else none
        return .passing (readOnly || immutable) common
      return .file ⟨name⟩
        { access, immutable, sharing
          alone := system == .withoutSharing || saysYes options "nolock"
          likeness := (List.lookup (Utf8.encode "modeof") options).map Path.mk }

def ofName (name : Path) : Except DatabaseFault Location :=
  match name.bytes.idxOf? 0 with
  | some position => .error (.holdsNul position)
  | none =>
      if scheme.isPrefixOf name.bytes then ofLocator (name.bytes.drop scheme.length)
      else if name.bytes.isEmpty || name.bytes = memoryName then .ok (.passing false none)
      else .ok (.file name {})

end Location

end MediaCatalog
