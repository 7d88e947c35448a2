import MediaCatalog.Disk.Listing
import MediaCatalog.Identity.Maintenance
import MediaCatalog.Identity.Resolution
import MediaCatalog.Workspace.Basic

namespace MediaCatalog.Workspace

def absolute (ws : Workspace) (path : Path) : Except CatalogFault Path :=
  match Path.absolute? ws.here path with
  | some path => .ok path
  | none => .error (.disk .emptyPath)

def key (ws : Workspace) (path : Path) : Except CatalogFault String := do
  let path ← ws.absolute path
  match path.text? with
  | some key => return key
  | none => throw (.invalidPath path)

def startCall (ws : Workspace) (path : Path) (size : UInt64) (modified : Int) :
    Except CatalogFault Call := do
  return .start ⟨← ws.key path, size, modified⟩

def startFileCall (ws : Workspace) (path : Path) : Except CatalogFault Call :=
  match ws.disk.stat ws.here path with
  | .ok stat => ws.startCall path stat.size stat.modified
  | .error fault => .error (.unreadable path fault)

/-- One step of a call. A database that cannot be read ends it, and so does
one without tables. -/
def advance (ws : Workspace) (store : Store) (maxRetries : Nat) (call : Call) :
    Call × Workspace :=
  match call.stage with
  | .done _ => (call, ws)
  | .hash failed => (call.hash failed (ws.digest call.seen.path), ws)
  | .lookUp failed =>
      match ws.perform (store.read .files) with
      | (.ok catalog, ws) => (call.lookUp failed catalog, ws)
      | (.error fault, ws) => (call.goTo (.done (.error fault)), ws)
  | .commit failed digest =>
      match ws.perform store.beginWrite with
      | (.error fault, ws) =>
          if fault.isBusy then (call.retry maxRetries failed digest, ws)
          else (call.goTo (.done (.error fault)), ws)
      | (.ok (connection, reading), ws) =>
          match reading.tables with
          | none =>
              (call.goTo (.done (.error (.database (.noTable .files)))),
                (ws.perform (connection.finish reading none)).2)
          | some catalog =>
              let (call, registry) := call.commit maxRetries failed digest ws.present false
                ⟨catalog, ws.supply⟩
              let ws := (ws.perform (connection.finish reading (some registry.catalog))).2
              (call, { ws with supply := registry.supply })

theorem stepsLeft_advance (ws : Workspace) (store : Store) (maxRetries : Nat) (call : Call)
    (h : 0 < call.stepsLeft maxRetries) :
    (ws.advance store maxRetries call).1.stepsLeft maxRetries < call.stepsLeft maxRetries := by
  obtain ⟨seen, stage, hashings⟩ := call
  cases stage with
  | lookUp failed =>
      simp only [advance]
      split
      · exact Call.stepsLeft_lookUp ..
      · simp [Call.stepsLeft, Call.goTo]
  | hash failed => exact Call.stepsLeft_hash ..
  | commit failed digest =>
      simp only [advance]
      split
      · split
        · exact Call.stepsLeft_retry ..
        · simp [Call.stepsLeft, Call.goTo]
      · split
        · simp [Call.stepsLeft, Call.goTo]
        · exact Call.stepsLeft_commit ..
  | done answer => simp [Call.stepsLeft] at h

def finishCall (ws : Workspace) (store : Store) (maxRetries : Nat) (call : Call) :
    Except CatalogFault MediaId × Workspace :=
  match _h : call.stage with
  | .done answer => (answer, ws)
  | .lookUp _ | .hash _ | .commit _ _ =>
      (ws.advance store maxRetries call).2.finishCall store maxRetries
        (ws.advance store maxRetries call).1
termination_by call.stepsLeft maxRetries
decreasing_by
  all_goals exact stepsLeft_advance _ _ _ _ (by simp [Call.stepsLeft, _h])

/-- The identifier of a file as it is on disk. -/
def resolveFile (ws : Workspace) (store : Store) (maxRetries : Nat) (path : Path) :
    Except CatalogFault MediaId × Workspace :=
  match ws.startFileCall path with
  | .ok call => ws.finishCall store maxRetries call
  | .error fault => (.error fault, ws)

/-- Whether a path is that of the database or of a file that goes with it. Such
a file lies beside the database, and its name begins with the database's. -/
def isStoreFile (store path : Path) : Bool :=
  match path.fileName?, store.fileName?, path.parent?, store.parent? with
  | some name, some own, some parent, some beside =>
      (Text.Utf8.shown name).startsWith (Text.Utf8.shown own) && parent.sameParts beside
  | _, _, _, _ => false

def isSkipped (store path : Path) : Bool :=
  path.fileName? == some (Path.ofText Store.directoryName).bytes || isStoreFile store path

/-- The files at and below a path, except for those of databases, in the order
of their paths. -/
def filesBelow (ws : Workspace) (store : Store) (root : Path) : List Path :=
  match ws.disk.find? ws.here root with
  | .ok node =>
      (node.files (isSkipped store.path) root).mergeSort fun a b => a.bytes ≤ b.bytes
  | .error _ => []

end MediaCatalog.Workspace

namespace MediaCatalog.Store

/-- Marks every record whose file is gone, and tells how many were marked. If
none is to be marked nothing is written. -/
def markMissing (store : Store) : Deed Nat := do
  let catalog ← store.read .files
  let gone := catalog.gonePaths (← get).present
  if gone.isEmpty then return 0
  store.write (.error (.database (.noTable .files))) fun catalog => .ok (catalog.markAll gone)

def fileGone (store : Store) (path : Path) : Deed Bool := do
  let key ← liftExcept ((← get).key path)
  store.write (.error (.database (.noTable .files))) fun catalog =>
    .ok (catalog.setMissing key true)

end MediaCatalog.Store
