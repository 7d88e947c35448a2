import MediaCatalog.CommandLine.Command
import MediaCatalog.Settings
import MediaCatalog.Text.Json
import MediaCatalog.Workspace.Schedule
import MediaCatalog.Workspace.Search

/-!
Running a command. Results go to the first stream and remarks to the second. A
command that fails may have printed, and done, part of its work.
-/

namespace MediaCatalog.CommandLine

open Text Query

inductive CommandFault where
  | settings (fault : SettingsFault)
  /-- The last thing tried, if it is worth telling, and why it failed. -/
  | catalog (trying : Option String) (fault : CatalogFault)
deriving DecidableEq, Repr

/-- The message followed by those of its causes. -/
def CommandFault.message : CommandFault → String
  | .settings fault => ": ".intercalate fault.chain
  | .catalog trying fault => ": ".intercalate (trying.toList ++ fault.chain)

structure Desk where
  workspace : Workspace
  results : String := ""
  remarks : String := ""

/-- A command under way. What was done and printed before a fault stands. -/
abbrev Run := ExceptT CommandFault (StateM Desk)

structure Session where
  library : Path
  store : Store
  settings : Settings

def printLine (line : String) : Run Unit :=
  modify fun desk => { desk with results := desk.results ++ line ++ "\n" }

def printJson (layout : Layout) (json : Json) : Run Unit :=
  printLine (if layout.pretty then json.laidOut else json.compact)

/-- A remark, set off by empty lines. -/
def remark (message : String) : Run Unit :=
  modify fun desk => { desk with remarks := desk.remarks ++ "\n" ++ message ++ "\n\n" }

def yellow (message : String) : String :=
  "\x1b[33m" ++ message ++ "\x1b[39m"

/-- Does something in the workspace, and tells what was tried if it fails. -/
def perform {α : Type} (trying : Option String) (deed : Deed α) : Run α := do
  let (answer, workspace) := (← get).workspace.perform deed
  modify fun desk => { desk with workspace }
  match answer with
  | .ok value => return value
  | .error fault => throw (.catalog trying fault)

def absolute (path : Path) : Run Path := do
  perform none (liftExcept ((← get).workspace.absolute path))

/-- Resolves files side by side, whatever comes of each. -/
def attemptAll (session : Session) (files : List Path) :
    Run (List (Except CatalogFault MediaId)) := do
  let (answers, workspace) :=
    (← get).workspace.resolveTogether session.store session.settings.maxRetries files
  modify fun desk => { desk with workspace }
  return answers

def resolve (session : Session) (file : Path) : Run MediaId := do
  let (answer, workspace) :=
    (← get).workspace.resolveFile session.store session.settings.maxRetries file
  modify fun desk => { desk with workspace }
  match answer with
  | .ok id => return id
  | .error fault => throw (.catalog (some ("Failed to resolve " ++ file.shown)) fault)

/-- The catalog, of which the given table is looked at first. -/
def catalogOf (session : Session) (table : Table) : Run Catalog :=
  perform none (session.store.read table)

def openSession (common : Common) : Run Session := do
  let library := common.library.getD ⟨Path.dot⟩
  let path ← absolute (common.database.getD (Store.ofLibrary library))
  let beside := path.parent?.getD (library.join (.ofText Store.directoryName))
  let ws := (← get).workspace
  let settings := match common.settings with
    | some file => Settings.load ws.disk ws.here file
    | none => Settings.discover ws.disk ws.here ws.settingsHome beside
  match settings with
  | .error fault => throw (.settings fault)
  | .ok settings =>
      let store ← perform (some ("Failed to open store at " ++ path.shown)) (Store.openAt path)
      return ⟨library, store, settings⟩

def scan (session : Session) (arguments : ScanArguments) : Run Unit := do
  let root ← absolute (arguments.directory.getD session.library)
  let began := (← get).workspace.clock
  let files := (← get).workspace.filesBelow session.store root
  if files.isEmpty && !arguments.quiet then
    remark ("No files found under " ++ root.shown ++ ".")
  let answers ← attemptAll session files
  let ids := answers.filterMap Except.toOption
  let failed := files.length - ids.length
  let marked ← perform none session.store.markMissing
  if !arguments.quiet then
    if 0 < failed then
      remark (yellow (toString failed ++ " files could not be read and were skipped."))
    printLine "Scan complete!"
    printLine ("  Files resolved:  " ++ toString ids.length)
    printLine ("  Failed:          " ++ toString failed)
    printLine ("  Distinct ids:    " ++ toString ids.eraseDups.length)
    printLine ("  Marked missing:  " ++ toString marked)
    printLine ("  Duration:        " ++ toString ((← get).workspace.clock - began) ++ "ms")

def resolveAll (session : Session) (arguments : ResolveArguments) : Run Unit := do
  let resolved ← arguments.files.mapM fun file => do
    return (file.shown, ← resolve session file)
  if arguments.layout.json then
    printJson {} (.array (resolved.map fun (path, id) =>
      .object [("path", .text path), ("id", .text id.text)]))
  else
    for (path, id) in resolved do
      printLine (id.text ++ "  " ++ path)

structure Result where
  id : MediaId
  paths : List String
  tags : Option (List String)

def Result.json (result : Result) : Json :=
  .object ([("id", .text result.id.text), ("paths", .array (result.paths.map .text))] ++
    match result.tags with
    | some tags => [("tags", .array (tags.map .text))]
    | none => [])

def Result.print (result : Result) : Run Unit := do
  printLine result.id.text
  for path in result.paths do
    printLine ("  " ++ path)
  let tags := result.tags.getD []
  if !tags.isEmpty then
    printLine ("  tags: " ++ ", ".intercalate tags)

def search (session : Session) (arguments : SearchArguments) : Run Unit := do
  let orders ←
    if arguments.columns.isEmpty && arguments.directions.isEmpty then pure []
    else
      match SortOrder.pair arguments.columns arguments.directions with
      | .ok orders => pure orders
      | .error fault => throw (.catalog none (.invalidSort fault))
  let usual := UInt64.ofNat session.settings.defaultLimit
  let limit := if arguments.all then none else some (arguments.limit.getD usual)
  let ids ← perform none
    (session.store.search (compile arguments.query) orders ⟨limit, arguments.offset⟩)
  let catalog ← catalogOf session .files
  let results := ids.map fun id =>
    let tags := if arguments.withTags then some ((catalog.tagsOf id false).map TagRow.tag) else none
    Result.mk id (catalog.livePathsOf id) tags
  if arguments.layout.json then
    printJson arguments.layout (.array (results.map Result.json))
  else if results.isEmpty then
    printLine "No matches."
  else
    for result in results do
      result.print

def alignRight (width : Nat) (text : String) : String :=
  "".pushn ' ' (width - text.length) ++ text

def tags (session : Session) (arguments : TagsArguments) : Run Unit := do
  let frequencies ← perform none
    (session.store.tagFrequencies (compile arguments.query) ⟨arguments.limit, arguments.offset⟩)
  if arguments.layout.json then
    printJson arguments.layout (.array (frequencies.map fun frequency =>
      .object [("tag", .text frequency.tag), ("count", .integer frequency.count)]))
  else if frequencies.isEmpty then
    printLine "No tags."
  else
    let width := (frequencies.map fun frequency => (toString frequency.count).length).foldl max 0
    for frequency in frequencies do
      printLine (alignRight width (toString frequency.count) ++ "  " ++ frequency.tag)

/-- Adds or removes tags. Blanks around a tag do not count, and a tag of blanks
alone is none. -/
def editTags (session : Session) (arguments : EditArguments) (remove : Bool) : Run Unit := do
  let id ← resolve session arguments.file
  let now := (← get).workspace.clock
  for tag in arguments.tags.map trimBlanks do
    if !tag.isEmpty then
      let write := if remove then setTagDeleted id tag true now else addTag id tag now
      let changed ← perform none (session.store.mergeTag write)
      printLine (match remove, changed with
        | false, true => "+ " ++ tag
        | false, false => "  " ++ tag ++ " (already tagged)"
        | true, true => "- " ++ tag
        | true, false => "  " ++ tag ++ " (not changed)")

def listTags (session : Session) (arguments : ListArguments) : Run Unit := do
  let id ← resolve session arguments.file
  let rows := (← catalogOf session .tags).tagsOf id arguments.withDeleted
  if arguments.layout.json then
    printJson {} (.array (rows.map fun row =>
      .object [("tag", .text row.tag), ("modified", .integer row.modified),
        ("deleted", .truth row.deleted)]))
  else
    for row in rows do
      printLine (if row.deleted then row.tag ++ " (deleted)" else row.tag)

def clean (session : Session) (layout : Layout) : Run Unit := do
  let marked ← perform none session.store.markMissing
  if layout.json then
    printJson {} (.object [("marked_missing", .integer marked)])
  else
    printLine ("Marked " ++ toString marked ++ " missing files.")

def stats (session : Session) (layout : Layout) : Run Unit := do
  let counts := (← catalogOf session .files).counts
  if layout.json then
    printJson layout (.object [("files", .integer counts.files),
      ("missing_files", .integer counts.missingFiles),
      ("distinct_hashes", .integer counts.distinctHashes),
      ("canonical_ids", .integer counts.canonicalIds),
      ("live_tags", .integer counts.liveTags)])
  else
    printLine "Mediadex Store Statistics"
    printLine "========================="
    printLine ("Store:           " ++ session.store.path.shown)
    printLine ("Files:           " ++ toString counts.files)
    printLine ("Missing files:   " ++ toString counts.missingFiles)
    printLine ("Distinct hashes: " ++ toString counts.distinctHashes)
    printLine ("Canonical ids:   " ++ toString counts.canonicalIds)
    printLine ("Live tags:       " ++ toString counts.liveTags)

def Command.run (session : Session) : Command → Run Unit
  | .scan arguments => CommandLine.scan session arguments
  | .resolve arguments => resolveAll session arguments
  | .search arguments => CommandLine.search session arguments
  | .tags arguments => CommandLine.tags session arguments
  | .addTags arguments => editTags session arguments false
  | .removeTags arguments => editTags session arguments true
  | .listTags arguments => CommandLine.listTags session arguments
  | .clean layout => CommandLine.clean session layout
  | .stats layout => CommandLine.stats session layout

def Invocation.execute (invocation : Invocation) (workspace : Workspace) :
    Except CommandFault Unit × Desk :=
  let run : Run Unit := do
    let session ← openSession invocation.common
    invocation.command.run session
  (run.run { workspace }).run

end MediaCatalog.CommandLine
