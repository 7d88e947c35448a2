import MediaCatalog.CommandLine.Execute
import MediaCatalog.CommandLine.Usage
import Std.Time.DateTime.Timestamp

/-!
The program. It gathers what the command may ask of the disk into a workspace,
runs the command there, and puts the database back.
-/

open MediaCatalog CommandLine

namespace MediaCatalog.Main

def milliseconds (time : IO.FS.SystemTime) : Int :=
  time.sec * 1000 + time.nsec.toNat / 1000000

/-- What there is at a path, with all below it if `deep` is set. Directories
of databases are not looked into. -/
partial def gather (deep : Bool) (path : String) : IO (Option Node) := do
  try
    let here ← IO.currentDir
    let path := here / path
    let about ← path.metadata
    match about.type with
    | .dir =>
        if !deep || path.fileName == some Store.directoryName then
          return some (.directory [])
        let mut entries : List Entry := []
        for child in ← path.readDir do
          if let some node ← gather true child.path.toString then
            entries := (node.named (Path.ofText child.fileName).bytes) :: entries
        return some (.directory entries)
    | _ =>
        return some (.file
          { content := .plain (← IO.FS.readBinFile path), modified := milliseconds about.modified })
  catch _ => return none

/-- The place a path names when each `..` takes the name before it away. -/
def placeOf (here path : Path) : Place :=
  let start := if path.isAbsolute then [] else here.names
  (start ++ path.names).foldl
    (fun place name => if name = Path.dotDot then place.dropLast else place ++ [name]) []

def withPath (here : Path) (deep : Bool) (disk : Disk) (path : Path) : IO Disk := do
  match Path.absolute? here path with
  | none => return disk
  | some path =>
      match ← gather deep path.shown with
      | none => return disk
      | some node =>
          let place := placeOf here path
          if !deep && (disk.at? place).isSome then return disk
          return disk.setAt place (some node)

def filesOf : Command → List Path
  | .resolve arguments => arguments.files
  | .addTags arguments | .removeTags arguments => [arguments.file]
  | .listTags arguments => [arguments.file]
  | _ => []

def scanned? (library : Path) : Command → Option Path
  | .scan arguments => some (arguments.directory.getD library)
  | _ => none

def settingsHome : IO Path := do
  match ← IO.getEnv "XDG_CONFIG_HOME" with
  | some directory => return .ofText directory
  | none => return (Path.ofText ((← IO.getEnv "HOME").getD "/")).join (.ofText ".config")

/-- A series of identifiers of its own for each run. -/
def freshSeries : IO String := do
  let bytes ← IO.getRandomBytes 16
  return Text.hex bytes.toList ++ "-"

def gatherWorkspace (invocation : Invocation) : IO (Workspace × Place) := do
  let here := Path.ofText (← IO.currentDir).toString
  let home ← settingsHome
  let library := invocation.common.library.getD ⟨Path.dot⟩
  let database := invocation.common.database.getD (Store.ofLibrary library)
  let whole := (Path.absolute? here database).getD database
  let beside := whole.parent?.getD (library.join (.ofText Store.directoryName))
  let user := (home.join (.ofText "mediadex"))
  let settings := [beside, user].map (·.join (.ofText Settings.fileName))
  let mut disk : Disk := {}
  for directory in [here, beside] do
    disk ← withPath here false disk directory
  if let some root := scanned? library invocation.command then
    disk ← withPath here true disk root
  for path in settings ++ invocation.common.settings.toList ++ filesOf invocation.command ++
      [database] do
    disk ← withPath here false disk path
  let now ← Std.Time.Timestamp.now
  let ws : Workspace :=
    { disk, here, settingsHome := home, supply := .ofSeries (← freshSeries),
      clock := now.toMillisecondsSinceUnixEpoch.val, held := none }
  let place := placeOf here whole
  match disk.at? place with
  | some (.file ⟨.plain bytes, modified, _⟩) =>
      match Codec.decode? bytes with
      | none => return (ws, place)
      | some catalog =>
          for record in catalog.files do
            disk ← withPath here false disk (.ofText record.path)
          let file : File := { content := .database (some catalog) .writeAhead, modified }
          return ({ ws with disk := disk.setAt place (some (.file file)) }, place)
  | _ => return (ws, place)

def keep (workspace : Workspace) (place : Place) : IO Unit := do
  if let some (.file ⟨.database (some catalog) _, _, _⟩) := workspace.disk.at? place then
    let path := (Path.mk [Path.slash]).joinNames place
    if let some parent := path.parent? then
      IO.FS.createDirAll parent.shown
    IO.FS.writeBinFile path.shown (Codec.encode catalog)

def run (written : List String) : IO UInt32 := do
  match Invocation.read written with
  | .error fault =>
      if fault.isRequest then
        IO.println fault.message
        return 0
      IO.eprintln fault.message
      return 2
  | .ok invocation =>
      let (workspace, place) ← gatherWorkspace invocation
      let (result, desk) := invocation.execute workspace
      keep desk.workspace place
      IO.print desk.results
      IO.eprint desk.remarks
      match result with
      | .ok () => return 0
      | .error fault =>
          IO.eprintln ("\n\x1b[31mError: " ++ fault.message ++ "\x1b[39m\n")
          return 1

end MediaCatalog.Main

def main (written : List String) : IO UInt32 :=
  MediaCatalog.Main.run written
