import MediaCatalog.Proofs.Workspace.Failure

/-!
How often a call tries. Each step of it meets a workspace of its own, since
anything may be done by others in between: records come and go, and another
writer takes the database and lets it go. An attempt is fruitless if it meets
that writer, or finds that it needs a digest which the call does not bring.

As long as nothing else fails, a call counts its attempts rightly. It goes on
from a fruitless one until it has none left, takes a digest once at the most,
and ends with the first attempt that is not fruitless.
-/

namespace MediaCatalog

/-- An attempt of a call: the workspace that it meets, and the digest that the
call brings. -/
structure Attempt where
  ws : Workspace
  digest : Option String

namespace Attempt

/-- Another writer is in the way. -/
def Busy (attempt : Attempt) (store : Store) : Prop :=
  ∃ fault between, attempt.ws.perform store.beginWrite = (.error fault, between) ∧
    fault.isBusy = true

/-- A transaction begins, with these tables in the database. -/
def Begins (attempt : Attempt) (store : Store) (between : Workspace) (catalog : Catalog) : Prop :=
  ∃ connection reading,
    attempt.ws.perform store.beginWrite = (.ok (connection, reading), between) ∧
      reading.tables = some catalog

/-- The transaction needs a digest that the call does not bring: the file is not
on record as it was seen. -/
def Wanting (attempt : Attempt) (store : Store) (seen : Sighting) : Prop :=
  ∃ between catalog, attempt.Begins store between catalog ∧ attempt.digest = none ∧
    ∀ record, catalog.record? seen.path = some record →
      record.upToDate seen.size seen.modified = false

def Fruitless (attempt : Attempt) (store : Store) (seen : Sighting) : Prop :=
  attempt.Busy store ∨ attempt.Wanting store seen

/-- The transaction gives the file this identifier. -/
def Settles (attempt : Attempt) (store : Store) (seen : Sighting) (id : MediaId) : Prop :=
  ∃ between catalog after, attempt.Begins store between catalog ∧
    Registry.reconcile between.present ⟨catalog, between.supply⟩ seen attempt.digest =
      some (id, after)

variable {attempt : Attempt} {store : Store} {seen : Sighting}

theorem Begins.unique {between between' : Workspace} {catalog catalog' : Catalog}
    (hbegins : attempt.Begins store between catalog)
    (hagain : attempt.Begins store between' catalog') :
    between = between' ∧ catalog = catalog' := by
  obtain ⟨connection, reading, hbegun, htables⟩ := hbegins
  obtain ⟨connection', reading', hbegun', htables'⟩ := hagain
  rw [hbegun] at hbegun'
  obtain ⟨hanswer, rfl⟩ := Prod.mk.inj hbegun'
  obtain ⟨rfl, rfl⟩ := Prod.mk.inj (Except.ok.inj hanswer)
  exact ⟨rfl, Option.some.inj (htables.symm.trans htables')⟩

theorem Begins.not_busy {between : Workspace} {catalog : Catalog}
    (hbegins : attempt.Begins store between catalog) : ¬ attempt.Busy store := by
  rintro ⟨fault, between', hbegun', -⟩
  obtain ⟨connection, reading, hbegun, -⟩ := hbegins
  rw [hbegun] at hbegun'
  cases hbegun'

theorem Settles.unique {id id' : MediaId} (hsettles : attempt.Settles store seen id)
    (hagain : attempt.Settles store seen id') : id = id' := by
  obtain ⟨between, catalog, after, hbegins, hanswer⟩ := hsettles
  obtain ⟨between', catalog', after', hbegins', hanswer'⟩ := hagain
  obtain ⟨rfl, rfl⟩ := hbegins.unique hbegins'
  exact congrArg Prod.fst (Option.some.inj (hanswer.symm.trans hanswer'))

theorem Settles.not_fruitless {id : MediaId} (hsettles : attempt.Settles store seen id) :
    ¬ attempt.Fruitless store seen := by
  obtain ⟨between, catalog, after, hbegins, hanswer⟩ := hsettles
  rintro (hbusy | ⟨between', catalog', hbegins', hneeded⟩)
  · exact hbegins.not_busy hbusy
  · obtain ⟨rfl, rfl⟩ := hbegins.unique hbegins'
    rw [Registry.reconcile_eq_none_iff.mpr hneeded] at hanswer
    cases hanswer

end Attempt

namespace Workspace

open Text

/-- The step before the call goes well but for another writer: the database can
be read and has its tables, and so can the file. -/
def Obliges (ws : Workspace) (store : Store) (call : Call) : Prop :=
  match call.stage with
  | .lookUp _ => ∃ catalog between, ws.perform (store.read .files) = (.ok catalog, between)
  | .hash _ => ∃ digest, ws.digest call.seen.path = .ok digest
  | .commit _ digest =>
      Attempt.Busy ⟨ws, digest⟩ store ∨
        ∃ between catalog, Attempt.Begins ⟨ws, digest⟩ store between catalog
  | .done _ => True

/-- The attempt that the next step of the call is, if it is one. -/
def attempt? (ws : Workspace) (call : Call) : Option Attempt :=
  match call.stage with
  | .commit _ digest => some ⟨ws, digest⟩
  | .lookUp _ | .hash _ | .done _ => none

/-- The call after its first steps, where `worlds` has the workspace that each
of them meets. -/
def stepped (store : Store) (maxRetries : Nat) (worlds : Nat → Workspace) (call : Call) :
    Nat → Call
  | 0 => call
  | n + 1 => ((worlds n).advance store maxRetries (stepped store maxRetries worlds call n)).1

/-- The attempts among its first steps. -/
def attempted (store : Store) (maxRetries : Nat) (worlds : Nat → Workspace) (call : Call) :
    Nat → List Attempt
  | 0 => []
  | n + 1 =>
      attempted store maxRetries worlds call n ++
        ((worlds n).attempt? (stepped store maxRetries worlds call n)).toList

/-- Where a call stands behind its attempts. Before its end they were fruitless,
and their number is that of the failures it counts. -/
inductive Course (store : Store) (maxRetries : Nat) (seen : Sighting) :
    Call → List Attempt → Prop
  | lookUp {attempts : List Attempt} (hleft : attempts.length ≤ maxRetries)
      (hfruitless : ∀ attempt ∈ attempts, attempt.Fruitless store seen) :
      Course store maxRetries seen ⟨seen, .lookUp attempts.length, 0⟩ attempts
  | hash {attempts : List Attempt} (hleft : attempts.length ≤ maxRetries)
      (hfruitless : ∀ attempt ∈ attempts, attempt.Fruitless store seen) :
      Course store maxRetries seen ⟨seen, .hash attempts.length, 0⟩ attempts
  | commit {attempts : List Attempt} (digest : Option String)
      (hleft : attempts.length ≤ maxRetries)
      (hfruitless : ∀ attempt ∈ attempts, attempt.Fruitless store seen) :
      Course store maxRetries seen
        ⟨seen, .commit attempts.length digest, if digest.isSome then 1 else 0⟩ attempts
  | settled {before : List Attempt} {last : Attempt} {id : MediaId} {hashings : Nat}
      (honce : hashings ≤ 1) (hleft : before.length ≤ maxRetries)
      (hfruitless : ∀ attempt ∈ before, attempt.Fruitless store seen)
      (hsettles : last.Settles store seen id) :
      Course store maxRetries seen ⟨seen, .done (.ok id), hashings⟩ (before ++ [last])
  | conflict {attempts : List Attempt} {hashings : Nat} (honce : hashings ≤ 1)
      (hspent : attempts.length = maxRetries + 1)
      (hfruitless : ∀ attempt ∈ attempts, attempt.Fruitless store seen) :
      Course store maxRetries seen
        ⟨seen, .done (.error (.conflict (.ofText seen.path) (maxRetries + 1))), hashings⟩ attempts

section Course

variable {ws : Workspace} {store : Store} {maxRetries : Nat} {seen : Sighting} {call : Call}
  {attempts : List Attempt}

theorem Course.hashings_le (hcourse : Course store maxRetries seen call attempts) :
    call.hashings ≤ 1 := by
  cases hcourse with
  | lookUp | hash => exact Nat.zero_le 1
  | commit digest => cases digest <;> simp
  | settled honce | conflict honce => exact honce

theorem Course.length_le (hcourse : Course store maxRetries seen call attempts) :
    attempts.length ≤ maxRetries + 1 := by
  cases hcourse with
  | lookUp hleft | hash hleft | commit _ hleft => omega
  | settled _ hleft => simpa using hleft
  | conflict _ hspent => exact Nat.le_of_eq hspent

/-- A call ends well with its first attempt that is not fruitless. -/
theorem Course.ok_iff (hcourse : Course store maxRetries seen call attempts)
    {answer : Except CatalogFault MediaId} (hdone : call.stage = .done answer) (id : MediaId) :
    answer = .ok id ↔
      ∃ before last, attempts = before ++ [last] ∧
        (∀ attempt ∈ before, attempt.Fruitless store seen) ∧
        ¬ last.Fruitless store seen ∧ last.Settles store seen id := by
  cases hcourse with
  | lookUp | hash | commit => cases hdone
  | @settled before last known _ _ _ hfruitless hsettles =>
      obtain rfl : .ok known = answer := Stage.done.inj hdone
      constructor
      · rintro ⟨⟩
        exact ⟨before, last, rfl, hfruitless, hsettles.not_fruitless, hsettles⟩
      · rintro ⟨before', last', hsame, -, -, hsettles'⟩
        obtain ⟨-, hlast⟩ := List.append_inj' hsame rfl
        obtain rfl : last = last' := List.singleton_inj.mp hlast
        rw [hsettles.unique hsettles']
  | conflict _ _ hfruitless =>
      obtain rfl := Stage.done.inj hdone
      refine iff_of_false nofun ?_
      rintro ⟨before, last, rfl, -, hlast, -⟩
      exact hlast (hfruitless last (by simp))

/-- It ends with a conflict once all its attempts were fruitless. -/
theorem Course.error_iff (hcourse : Course store maxRetries seen call attempts)
    {answer : Except CatalogFault MediaId} (hdone : call.stage = .done answer)
    (fault : CatalogFault) :
    answer = .error fault ↔
      fault = .conflict (.ofText seen.path) (maxRetries + 1) ∧
        attempts.length = maxRetries + 1 ∧ ∀ attempt ∈ attempts, attempt.Fruitless store seen := by
  cases hcourse with
  | lookUp | hash | commit => cases hdone
  | @settled before last _ _ _ _ _ hsettles =>
      obtain rfl := Stage.done.inj hdone
      refine iff_of_false nofun ?_
      rintro ⟨-, -, hall⟩
      exact hsettles.not_fruitless (hall last (by simp))
  | conflict _ hspent hfruitless =>
      obtain rfl := Stage.done.inj hdone
      constructor
      · rintro ⟨⟩
        exact ⟨rfl, hspent, hfruitless⟩
      · rintro ⟨rfl, -, -⟩
        rfl

/-- After a fruitless attempt the call goes on if it has one left. -/
theorem Course.retry {attempt : Attempt} (hleft : attempts.length ≤ maxRetries)
    (hfruitless : ∀ attempt ∈ attempts, attempt.Fruitless store seen)
    (hlast : attempt.Fruitless store seen) (digest : Option String) :
    Course store maxRetries seen
      (Call.retry ⟨seen, .commit attempts.length digest, if digest.isSome then 1 else 0⟩
        maxRetries attempts.length digest) (attempts ++ [attempt]) := by
  have hall : ∀ other ∈ attempts ++ [attempt], other.Fruitless store seen := by
    intro other hother
    rcases List.mem_append.mp hother with hbefore | hsame
    · exact hfruitless other hbefore
    · rwa [List.mem_singleton.mp hsame]
  have hlength : attempts.length + 1 = (attempts ++ [attempt]).length := by simp
  unfold Call.retry
  split
  case isTrue hspent =>
    have hcount : attempts.length = maxRetries := Nat.le_antisymm hleft hspent
    rw [hcount]
    refine .conflict ?_ (hlength.symm.trans (by rw [hcount])) hall
    cases digest <;> simp
  case isFalse hmore =>
    have hnext : (attempts ++ [attempt]).length ≤ maxRetries := by omega
    rw [hlength]
    cases digest with
    | none => exact .lookUp hnext hall
    | some hash => exact .commit (some hash) hnext hall

/-- A step that goes well but for another writer keeps to the course. -/
theorem Course.advance (hcourse : Course store maxRetries seen call attempts)
    (hobliges : ws.Obliges store call) :
    Course store maxRetries seen (ws.advance store maxRetries call).1
      (attempts ++ (ws.attempt? call).toList) := by
  cases hcourse with
  | lookUp hleft hfruitless =>
      obtain ⟨catalog, between, hread⟩ := hobliges
      simp only [Workspace.advance, attempt?, hread, Call.lookUp, Call.goTo, Option.toList_none,
        List.append_nil]
      split
      · exact .commit none hleft hfruitless
      · exact .hash hleft hfruitless
  | hash hleft hfruitless =>
      obtain ⟨digest, hdigest⟩ := hobliges
      simp only [Workspace.advance, attempt?, hdigest, Call.hash, Option.toList_none,
        List.append_nil]
      exact .commit (some digest) hleft hfruitless
  | settled honce hleft hfruitless hsettles =>
      simp only [Workspace.advance, attempt?, Option.toList_none, List.append_nil]
      exact .settled honce hleft hfruitless hsettles
  | conflict honce hspent hfruitless =>
      simp only [Workspace.advance, attempt?, Option.toList_none, List.append_nil]
      exact .conflict honce hspent hfruitless
  | commit digest hleft hfruitless =>
      rcases hobliges with hbusy | ⟨between, catalog, connection, reading, hbegun, htables⟩
      · have hretried := Course.retry hleft hfruitless (Or.inl hbusy) digest
        obtain ⟨fault, between, hbegun, hfault⟩ := hbusy
        simp only [Workspace.advance, attempt?, hbegun, hfault, if_true]
        exact hretried
      · have hbegins : Attempt.Begins ⟨ws, digest⟩ store between catalog :=
          ⟨connection, reading, hbegun, htables⟩
        simp only [Workspace.advance, attempt?, hbegun, htables, Call.commit, Bool.false_eq_true,
          if_false]
        cases hanswer :
          Registry.reconcile between.present ⟨catalog, between.supply⟩ seen digest with
        | none =>
            obtain ⟨hnone, hneeded⟩ := Registry.reconcile_eq_none_iff.mp hanswer
            exact Course.retry hleft hfruitless
              (Or.inr ⟨between, catalog, hbegins, hnone, hneeded⟩) digest
        | some answer =>
            refine .settled ?_ hleft hfruitless ⟨between, catalog, answer.2, hbegins, hanswer⟩
            cases digest <;> simp

variable {worlds : Nat → Workspace}

theorem course_stepped (hstart : call = .start seen)
    (hobliges : ∀ n, (worlds n).Obliges store (stepped store maxRetries worlds call n)) (n : Nat) :
    Course store maxRetries seen (stepped store maxRetries worlds call n)
      (attempted store maxRetries worlds call n) := by
  induction n with
  | zero =>
      subst hstart
      exact @Course.lookUp store maxRetries seen [] (Nat.zero_le _) (by simp)
  | succ n ih => exact ih.advance (hobliges n)

/-- Each step brings the call nearer to its end. -/
theorem stepsLeft_stepped (n : Nat) :
    (stepped store maxRetries worlds call n).stepsLeft maxRetries ≤
      call.stepsLeft maxRetries - n := by
  induction n with
  | zero => exact Nat.le_refl _
  | succ n ih =>
      by_cases hleft : 0 < (stepped store maxRetries worlds call n).stepsLeft maxRetries
      · have hstep := stepsLeft_advance (worlds n) store maxRetries _ hleft
        simp only [stepped]
        omega
      · have hdone : (stepped store maxRetries worlds call (n + 1)).stepsLeft maxRetries =
            (stepped store maxRetries worlds call n).stepsLeft maxRetries := by
          cases hstage : (stepped store maxRetries worlds call n).stage with
          | done answer => simp only [stepped, advance, hstage]
          | lookUp | hash | commit =>
              simp only [Call.stepsLeft, hstage] at hleft
              omega
        omega

/-- Once ended, a call stays as it is. -/
theorem stepped_done {n : Nat} {answer : Except CatalogFault MediaId}
    (hdone : (stepped store maxRetries worlds call n).stage = .done answer) (later : Nat) :
    stepped store maxRetries worlds call (n + later) = stepped store maxRetries worlds call n := by
  induction later with
  | zero => rfl
  | succ later ih =>
      rw [← ih] at hdone
      rw [← ih, ← Nat.add_assoc, stepped]
      simp only [advance, hdone]

theorem stepped_ends (seen : Sighting) :
    ∃ answer, (stepped store maxRetries worlds (.start seen) (3 * maxRetries + 3)).stage =
      .done answer := by
  have hleft := @stepsLeft_stepped store maxRetries (.start seen) worlds (3 * maxRetries + 3)
  have hstart : (Call.start seen).stepsLeft maxRetries = 3 * maxRetries + 3 := rfl
  rw [hstart, Nat.sub_self] at hleft
  cases hstage : (stepped store maxRetries worlds (.start seen) (3 * maxRetries + 3)).stage with
  | done answer => exact ⟨answer, rfl⟩
  | lookUp | hash | commit =>
      simp only [Call.stepsLeft, hstage] at hleft
      omega

theorem startCall_eq {path : Path} {size : UInt64} {modified : Int}
    (hcall : ws.startCall path size modified = .ok call) : call = .start call.seen := by
  unfold startCall at hcall
  cases hkey : ws.key path with
  | error fault =>
      rw [hkey] at hcall
      cases hcall
  | ok key =>
      rw [hkey] at hcall
      cases hcall
      rfl

/-- Whatever each step of a call meets, as long as the database and the file can
be read and only another writer stops a transaction, the call takes one digest at
the most, makes `maxRetries + 1` attempts at the most, and comes to its end. It
ends well with the first attempt that is not fruitless, and with a conflict if and
only if all of them were made and were fruitless. -/
theorem attempts_bounded {path : Path} {size : UInt64} {modified : Int}
    (hcall : ws.startCall path size modified = .ok call) {worlds : Nat → Workspace}
    (hobliges : ∀ n, (worlds n).Obliges store (stepped store maxRetries worlds call n)) :
    let calls := stepped store maxRetries worlds call
    let attempts := attempted store maxRetries worlds call
    (∀ n, (calls n).hashings ≤ 1 ∧ (attempts n).length ≤ maxRetries + 1) ∧
      (∃ answer, (calls (3 * maxRetries + 3)).stage = .done answer) ∧
      ∀ n answer, (calls n).stage = .done answer →
        (∀ id, answer = .ok id ↔
          ∃ before last, attempts n = before ++ [last] ∧
            (∀ attempt ∈ before, attempt.Fruitless store call.seen) ∧
            ¬ last.Fruitless store call.seen ∧ last.Settles store call.seen id) ∧
        (∀ fault, answer = .error fault ↔
          fault = .conflict call.path (maxRetries + 1) ∧
            (attempts n).length = maxRetries + 1 ∧
            ∀ attempt ∈ attempts n, attempt.Fruitless store call.seen) := by
  intro calls attempts
  have hcourse (n : Nat) : Course store maxRetries call.seen (calls n) (attempts n) :=
    course_stepped (startCall_eq hcall) hobliges n
  refine ⟨fun n => ⟨(hcourse n).hashings_le, (hcourse n).length_le⟩, ?_, ?_⟩
  · have hends := @stepped_ends store maxRetries worlds call.seen
    rwa [← startCall_eq hcall] at hends
  · intro n answer hdone
    exact ⟨(hcourse n).ok_iff hdone, (hcourse n).error_iff hdone⟩

end Course

/-- A file beside the database. -/
def bystander : Entry := .file (Utf8.encode "a") { content := .plain .empty, modified := 9 }

theorem apart_bystander : Apart [bystander] := by
  unfold Apart
  decide +kernel

/-- The file is there, and the database has the catalog. -/
def stocked (catalog : Catalog) : Workspace :=
  { shelf with disk := diskWith catalog 0 [bystander] }

theorem stocked_read (catalog : Catalog) :
    (stocked catalog).perform (store.read .files) = (.ok catalog, stocked catalog) :=
  perform_storeRead apart_bystander rfl .files

theorem stocked_beginWrite (catalog : Catalog) :
    (stocked catalog).perform store.beginWrite =
      (.ok (connection, { tables := some catalog, logged := true }),
        { stocked catalog with disk := opened catalog 0 0 [bystander] }) :=
  perform_storeBeginWrite apart_bystander rfl

theorem stocked_digest (catalog : Catalog) :
    ∃ digest, (stocked catalog).digest "/a" = .ok digest := by
  have hread : (diskWith catalog 0 [bystander]).read shelf.here (.ofText "/a") =
      (diskWith {} 0 [bystander]).read shelf.here (.ofText "/a") := by
    apply read_diskWith
    decide +kernel
  have hok : ((diskWith {} 0 [bystander]).read shelf.here (.ofText "/a")).isOk = true := by
    decide +kernel
  cases hanswer : (diskWith {} 0 [bystander]).read shelf.here (.ofText "/a") with
  | error fault =>
      rw [hanswer] at hok
      cases hok
  | ok content =>
      refine ⟨Digest.digest content, ?_⟩
      change ((diskWith catalog 0 [bystander]).read shelf.here (.ofText "/a")).map _ = _
      rw [hread, hanswer]
      rfl

/-- Another writer holds the database. -/
def besieged : Workspace :=
  { shelf with
    disk := ⟨[.file databaseName { databaseWith {} 0 with holder := some ⟨false, true⟩ },
      newLog 0, newMemory 0]⟩ }

theorem besieged_busy : ∃ fault between,
    besieged.perform store.beginWrite = (.error fault, between) ∧ fault.isBusy = true := by
  have hbusy : (match (besieged.perform store.beginWrite).1 with
      | .error fault => fault.isBusy
      | .ok _ => false) = true := by
    decide +kernel
  split at hbusy
  · rename_i fault hfault
    exact ⟨fault, _, Prod.ext hfault rfl, hbusy⟩
  · cases hbusy

theorem startCall_shelf : shelf.startCall (.ofText "/a") 1 7 = .ok (.start ⟨"/a", 1, 7⟩) := by
  have habsolute : Path.absolute? shelf.here (.ofText "/a") = some (.ofText "/a") := by
    decide +kernel
  exact startCall_of_absolute habsolute (by decide +kernel)

/-- What the steps of a call meet: the record as the file was seen, then one that
was revised since, and at the second attempt another writer. -/
def contested : Nat → Workspace
  | 0 => stocked shelfCatalog
  | 4 => besieged
  | _ => stocked (shelfCatalog.replaceFile revised)

/-- The first attempt finds the record revised, and the second meets another
writer. A third settles the identifier, where the call has one. -/
theorem attempts_bounded_contested :
    let call := Call.start ⟨"/a", 1, 7⟩
    let calls := stepped store 1 contested call
    let attempts := attempted store 1 contested call
    shelf.startCall (.ofText "/a") 1 7 = .ok call ∧
      (∀ n, (contested n).Obliges store (calls n)) ∧
      (calls 5).stage = .done (.error (.conflict (.ofText "/a") 2)) ∧ (calls 5).hashings = 1 ∧
      (attempts 5).length = 2 ∧ ∀ attempt ∈ attempts 5, attempt.Fruitless store call.seen := by
  intro call calls attempts
  let left := shelfCatalog.replaceFile revised
  have hfound : calls 1 = ⟨⟨"/a", 1, 7⟩, .commit 0 none, 0⟩ :=
    congrArg Prod.fst (advance_lookUp rfl (stocked_read shelfCatalog) (shelf.surroundings false)
      shelf.supply)
  have hraced : calls 2 = ⟨⟨"/a", 1, 7⟩, .lookUp 1, 0⟩ := by
    have hstep : (stocked left).advance store 1 (calls 1) = _ :=
      advance_commit (congrArg Call.stage hfound) (stocked_beginWrite left) rfl
    exact (congrArg Prod.fst hstep).trans (by rw [hfound]; rfl)
  have hstale : calls 3 = ⟨⟨"/a", 1, 7⟩, .hash 1, 0⟩ := by
    have hstep : (stocked left).advance store 1 (calls 2) = _ :=
      advance_lookUp (congrArg Call.stage hraced) (stocked_read left) (shelf.surroundings false)
        shelf.supply
    exact (congrArg Prod.fst hstep).trans (by rw [hraced]; rfl)
  obtain ⟨digest, hdigest⟩ := stocked_digest left
  have hhashed : calls 4 = ⟨⟨"/a", 1, 7⟩, .commit 1 (some digest), 1⟩ := by
    change ((stocked left).advance store 1 (calls 3)).1 = _
    simp only [hstale, advance, hdigest, Call.hash]
  have hspent : (calls 5).stage = .done (.error (.conflict (.ofText "/a") 2)) ∧
      (calls 5).hashings = 1 := by
    obtain ⟨fault, between, hbegun, hbusy⟩ := besieged_busy
    have hstep : besieged.advance store 1 (calls 4) = _ :=
      advance_busy (congrArg Call.stage hhashed) hbegun hbusy ⟨{}, shelf.supply⟩
    have hcall : calls 5 = _ := congrArg Prod.fst hstep
    rw [hcall, hhashed]
    exact ⟨rfl, rfl⟩
  obtain ⟨hdone, hhashings⟩ := hspent
  have hobliges (n : Nat) : (contested n).Obliges store (calls n) := by
    rcases n with _ | _ | _ | _ | _ | later
    · exact ⟨_, _, stocked_read shelfCatalog⟩
    · change (stocked left).Obliges store (calls 1)
      rw [hfound]
      exact Or.inr ⟨_, _, _, _, stocked_beginWrite left, rfl⟩
    · change (stocked left).Obliges store (calls 2)
      rw [hraced]
      exact ⟨_, _, stocked_read left⟩
    · change (stocked left).Obliges store (calls 3)
      rw [hstale]
      exact ⟨digest, hdigest⟩
    · change besieged.Obliges store (calls 4)
      rw [hhashed]
      exact Or.inl besieged_busy
    · have hsame : calls (later + 5) = calls 5 := by
        rw [Nat.add_comm]
        exact stepped_done hdone later
      simp only [Obliges, hsame, hdone]
  obtain ⟨-, -, hends⟩ := attempts_bounded startCall_shelf hobliges
  obtain ⟨-, hlength, hfruitless⟩ := ((hends 5 _ hdone).2 _).mp rfl
  exact ⟨startCall_shelf, hobliges, hdone, hhashings, hlength, hfruitless⟩

end Workspace

end MediaCatalog
