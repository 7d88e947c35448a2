import MediaCatalog.Workspace.Files

/-!
Files that are resolved side by side, by a schedule. In a turn one of them goes on:
it is looked at, or its call makes a step, which cannot be a transaction if another
is under way. When the schedule ends, what is left is done in order.
-/

namespace MediaCatalog

structure Task where
  path : Path
  /-- Once the file was looked at: its call, or why there is none. -/
  started : Option (Except CatalogFault Call) := none

namespace Workspace

def takeTurn (ws : Workspace) (store : Store) (maxRetries : Nat) (blocked : Bool) (call : Call) :
    Call × Workspace :=
  match call.stage, blocked with
  | .commit failed digest, true => (call.retry maxRetries failed digest, ws)
  | _, _ => ws.advance store maxRetries call

def goOn (ws : Workspace) (store : Store) (maxRetries : Nat) (blocked : Bool) (task : Task) :
    Task × Workspace :=
  match task.started with
  | none => ({ task with started := some (ws.startFileCall task.path) }, ws)
  | some (.error _) => (task, ws)
  | some (.ok call) =>
      let (call, ws) := ws.takeTurn store maxRetries blocked call
      ({ task with started := some (.ok call) }, ws)

def takeTurns (store : Store) (maxRetries : Nat) (slots : List Slot) (tasks : List Task)
    (ws : Workspace) : List Task × Workspace :=
  match slots with
  | [] => (tasks, ws)
  | slot :: rest =>
      match tasks[slot.task]? with
      | none => takeTurns store maxRetries rest tasks ws
      | some task =>
          let (task, ws) := ws.goOn store maxRetries slot.blocked task
          takeTurns store maxRetries rest (tasks.set slot.task task) ws

def finish (ws : Workspace) (store : Store) (maxRetries : Nat) (task : Task) :
    Except CatalogFault MediaId × Workspace :=
  match task.started with
  | none => ws.resolveFile store maxRetries task.path
  | some (.error fault) => (.error fault, ws)
  | some (.ok call) => ws.finishCall store maxRetries call

def finishAll (store : Store) (maxRetries : Nat) (tasks : List Task) (ws : Workspace) :
    List (Except CatalogFault MediaId) × Workspace :=
  match tasks with
  | [] => ([], ws)
  | task :: rest =>
      let (answer, ws) := ws.finish store maxRetries task
      let (answers, ws) := finishAll store maxRetries rest ws
      (answer :: answers, ws)

/-- Resolves files side by side, whatever comes of each. -/
def resolveTogether (ws : Workspace) (store : Store) (maxRetries : Nat) (files : List Path) :
    List (Except CatalogFault MediaId) × Workspace :=
  let (tasks, ws) := takeTurns store maxRetries ws.schedule (files.map fun path => { path }) ws
  finishAll store maxRetries tasks ws

end Workspace

end MediaCatalog
