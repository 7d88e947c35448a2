import MediaCatalog.Fault
import MediaCatalog.Identity.Reconcile

/-!
Resolving a file, step by step. A call looks its path up, reads the file if it is
not on record as it was seen, and then tries to settle its identifier in one
transaction. The digest of a call is taken once and kept for its later attempts.

Between two steps of one call anything may happen to the catalog and the disk.
-/

namespace MediaCatalog

/-- What a call meets at one of its steps. -/
structure Surroundings where
  present : String → Bool
  digest : String → Except DiskFault String
  locked : Bool

/-- What a call does next. `failed` counts the attempts that came to nothing. -/
inductive Stage where
  | lookUp (failed : Nat)
  | hash (failed : Nat)
  | commit (failed : Nat) (digest : Option String)
  | done (answer : Except CatalogFault MediaId)

structure Call where
  seen : Sighting
  stage : Stage
  /-- How often the call set out to read its file. -/
  hashings : Nat

namespace Call

def start (seen : Sighting) : Call :=
  ⟨seen, .lookUp 0, 0⟩

def path (call : Call) : Path :=
  .ofText call.seen.path

def goTo (call : Call) (stage : Stage) : Call :=
  { call with stage }

def retry (call : Call) (maxRetries failed : Nat) (digest : Option String) : Call :=
  if maxRetries ≤ failed then
    call.goTo (.done (.error (.conflict call.path (failed + 1))))
  else if digest.isSome then
    call.goTo (.commit (failed + 1) digest)
  else
    call.goTo (.lookUp (failed + 1))

def isUpToDate (call : Call) (catalog : Catalog) : Bool :=
  (catalog.record? call.seen.path).any fun record =>
    record.upToDate call.seen.size call.seen.modified

/-- Looks the path up. The digest is needed unless the file is up to date. -/
def lookUp (call : Call) (failed : Nat) (catalog : Catalog) : Call :=
  call.goTo (if call.isUpToDate catalog then .commit failed none else .hash failed)

def hash (call : Call) (failed : Nat) (digest : Except DiskFault String) : Call :=
  match digest with
  | .ok digest => ⟨call.seen, .commit failed (some digest), call.hashings + 1⟩
  | .error fault =>
      ⟨call.seen, .done (.error (.unreadable call.path fault)), call.hashings + 1⟩

def commit (call : Call) (maxRetries failed : Nat) (digest : Option String)
    (present : String → Bool) (locked : Bool) (registry : Registry) : Call × Registry :=
  if locked then
    (call.retry maxRetries failed digest, registry)
  else
    match registry.reconcile present call.seen digest with
    | some (id, registry) => (call.goTo (.done (.ok id)), registry)
    | none => (call.retry maxRetries failed digest, registry)

/-- One step of a call. Only a transaction changes the registry. -/
def next (call : Call) (maxRetries : Nat) (around : Surroundings) (registry : Registry) :
    Call × Registry :=
  match call.stage with
  | .lookUp failed => (call.lookUp failed registry.catalog, registry)
  | .hash failed => (call.hash failed (around.digest call.seen.path), registry)
  | .commit failed digest =>
      call.commit maxRetries failed digest around.present around.locked registry
  | .done _ => (call, registry)

/-- A bound on the steps a call has before it. -/
def stepsLeft (call : Call) (maxRetries : Nat) : Nat :=
  match call.stage with
  | .lookUp failed => 3 * (maxRetries - failed) + 3
  | .hash failed => 3 * (maxRetries - failed) + 2
  | .commit failed _ => 3 * (maxRetries - failed) + 1
  | .done _ => 0

theorem stepsLeft_retry (call : Call) (maxRetries failed : Nat) (digest : Option String) :
    (call.retry maxRetries failed digest).stepsLeft maxRetries <
      3 * (maxRetries - failed) + 1 := by
  unfold retry
  split
  · simp [stepsLeft, goTo]
  · split <;> simp only [stepsLeft, goTo] <;> omega

theorem stepsLeft_lookUp (call : Call) (maxRetries failed : Nat) (catalog : Catalog) :
    (call.lookUp failed catalog).stepsLeft maxRetries < 3 * (maxRetries - failed) + 3 := by
  unfold lookUp
  split <;> simp only [stepsLeft, goTo] <;> omega

theorem stepsLeft_hash (call : Call) (maxRetries failed : Nat)
    (digest : Except DiskFault String) :
    (call.hash failed digest).stepsLeft maxRetries < 3 * (maxRetries - failed) + 2 := by
  unfold hash
  split <;> simp only [stepsLeft] <;> omega

theorem stepsLeft_commit (call : Call) (maxRetries failed : Nat) (digest : Option String)
    (present : String → Bool) (locked : Bool) (registry : Registry) :
    (call.commit maxRetries failed digest present locked registry).1.stepsLeft maxRetries <
      3 * (maxRetries - failed) + 1 := by
  unfold commit
  split
  · exact stepsLeft_retry ..
  · split
    · simp [stepsLeft, goTo]
    · exact stepsLeft_retry ..

theorem stepsLeft_next (call : Call) (maxRetries : Nat) (around : Surroundings)
    (registry : Registry) (h : 0 < call.stepsLeft maxRetries) :
    (call.next maxRetries around registry).1.stepsLeft maxRetries <
      call.stepsLeft maxRetries := by
  obtain ⟨seen, stage, hashings⟩ := call
  cases stage with
  | lookUp failed => exact stepsLeft_lookUp ..
  | hash failed => exact stepsLeft_hash ..
  | commit failed digest => exact stepsLeft_commit ..
  | done answer => simp [stepsLeft] at h

structure Outcome where
  answer : Except CatalogFault MediaId
  hashings : Nat
  registry : Registry

def run (call : Call) (maxRetries : Nat) (around : Surroundings) (registry : Registry) :
    Outcome :=
  match _h : call.stage with
  | .done answer => ⟨answer, call.hashings, registry⟩
  | .lookUp _ | .hash _ | .commit _ _ =>
      (call.next maxRetries around registry).1.run maxRetries around
        (call.next maxRetries around registry).2
termination_by call.stepsLeft maxRetries
decreasing_by all_goals exact stepsLeft_next _ _ _ _ (by simp [stepsLeft, _h])

end Call

def Registry.resolve (registry : Registry) (maxRetries : Nat) (around : Surroundings)
    (seen : Sighting) : Call.Outcome :=
  (Call.start seen).run maxRetries around registry

end MediaCatalog
