import MediaCatalog.Proofs.Database.Untouched
import MediaCatalog.Proofs.Workspace.Upkeep

/-!
Failure leaves the tables as they were. A reading hands over the tables and
keeps them, and a transaction that stops keeps them, wherever it stops: before
it begins, in the middle, or where there are no tables. A call may come to its
fault after attempts that came to nothing, with anything done by others between
any two of its steps; none of its own steps has then changed a table, so that
the tables are what the others have made of them.
-/

namespace MediaCatalog

/-- The tables of a database, as they are on disk. -/
def Workspace.tables? (ws : Workspace) (store : Store) : Option Catalog :=
  ws.disk.tablesNamed? ws.here store.path

namespace Store

/-- A reader at `here` has these tables in the database. -/
def Has (store : Store) (here : Path) (tables : Option Catalog) (ws : Workspace) : Prop :=
  ws.here = here ∧ ws.disk.tablesNamed? here store.path = tables

variable {store : Store} {here : Path} {tables : Option Catalog} {ws : Workspace}

theorem Has.tables?_eq (hhas : store.Has here tables ws) : ws.tables? store = tables := by
  obtain ⟨rfl, htables⟩ := hhas
  exact htables

section Deeds

variable {α : Type} {connection : Connection} {tells : α → Prop}

theorem outcome_onDisk (deed : DiskDeed α) (ws : Workspace) :
    outcome (onDisk deed) ws =
      ((outcome deed ws.disk).1.mapError .database,
        { ws with disk := (outcome deed ws.disk).2 }) := by
  refine (ws.perform_onDisk deed).trans ?_
  have hsame : ws.disk.perform deed = outcome deed ws.disk := rfl
  rw [hsame]
  cases outcome deed ws.disk with
  | mk answer disk => cases answer <;> rfl

theorem keeps_onDisk {deed : DiskDeed α}
    (hdeed : Keeps (fun disk : Disk => disk.tablesNamed? here store.path = tables) deed tells) :
    Keeps (store.Has here tables) (onDisk deed) tells := by
  rintro ws ⟨hhere, htables⟩
  obtain ⟨hleft, htells⟩ := hdeed ws.disk htables
  rw [outcome_onDisk]
  refine ⟨⟨hhere, hleft⟩, ?_⟩
  intro value hvalue
  apply htells
  cases hanswer : (outcome deed ws.disk).1 with
  | ok other =>
      rw [hanswer] at hvalue
      exact congrArg Except.ok (Except.ok.inj hvalue)
  | error fault =>
      rw [hanswer] at hvalue
      cases hvalue

theorem keeps_connected (hleads : connection.LeadsTo here store.path) {deed : DiskDeed α}
    (hdeed : Keeps (fun disk => connection.tables? disk = tables) deed tells) :
    Keeps (store.Has here tables) (onDisk deed) tells := by
  apply keeps_onDisk
  have hsame : connection.tables? = fun disk => disk.tablesNamed? here store.path := funext hleads
  rwa [hsame] at hdeed

theorem connect_keeps (store : Store) :
    Keeps (store.Has here tables) store.connect fun connection =>
      connection.LeadsTo here store.path := by
  refine keeps_get_bind fun ws hws => keeps_onDisk ?_
  rw [hws.1]
  exact Connection.start_keeps ws.clock

theorem proceed_keeps (connection : Connection) (writing : Bool) :
    Keeps (store.Has here tables) (connection.proceed writing) fun _ => True := by
  refine keeps_get_bind fun ws _ => ?_
  split
  · exact keeps_throw _
  · exact keeps_pure trivial

/-- What a reading hands over are the tables that are there. -/
theorem read_keeps (store : Store) (table : Table) :
    Keeps (store.Has here tables) (store.read table) fun catalog => tables = some catalog := by
  refine (connect_keeps store).bind fun connection hleads => ?_
  refine (proceed_keeps connection false).bind fun _ _ => ?_
  refine keeps_get_bind fun ws _ => ?_
  refine (keeps_connected hleads (Connection.read_keeps connection ws.clock)).bind
    fun reading hreading => ?_
  refine (keeps_connected hleads (Connection.leave_keeps connection _)).bind fun _ _ => ?_
  split
  · rename_i catalog hcatalog
    exact keeps_pure (hreading.symm.trans hcatalog)
  · exact keeps_throw _

theorem tables?_of_read {table : Table} {catalog : Catalog}
    (hread : (ws.perform (store.read table)).1 = .ok catalog) :
    ws.tables? store = some catalog :=
  (read_keeps store table ws ⟨rfl, rfl⟩).2 catalog hread

theorem beginWrite_keeps (store : Store) :
    Keeps (store.Has here tables) store.beginWrite fun begun =>
      begun.1.LeadsTo here store.path ∧ begun.2.tables = tables := by
  refine (connect_keeps store).bind fun connection hleads => ?_
  refine (proceed_keeps connection true).bind fun _ _ => ?_
  refine keeps_get_bind fun ws _ => ?_
  refine (keeps_connected hleads (Connection.beginWrite_keeps connection ws.clock)).bind
    fun reading hreading => ?_
  exact keeps_pure ⟨hleads, hreading⟩

theorem finish_none_keeps (hleads : connection.LeadsTo here store.path) (reading : Reading) :
    Keeps (store.Has here tables) (connection.finish reading none) fun _ => True :=
  keeps_get_bind fun ws _ =>
    keeps_connected hleads (Connection.endWrite_none_keeps connection reading ws.clock)

/-- A transaction that leaves the tables that were there. -/
theorem finish_same_keeps (hleads : connection.LeadsTo here store.path) (reading : Reading) :
    Keeps (store.Has here tables) (connection.finish reading tables) fun _ => True :=
  keeps_get_bind fun ws _ =>
    keeps_connected hleads (Connection.endWrite_same_keeps connection reading ws.clock)

theorem onDisk_answers {deed : DiskDeed α} (hdeed : Answers deed) : Answers (onDisk deed) := by
  intro ws
  obtain ⟨value, hvalue⟩ := hdeed ws.disk
  refine ⟨value, ?_⟩
  rw [outcome_onDisk, hvalue]
  rfl

theorem finish_answers (connection : Connection) (reading : Reading) (kept : Option Catalog) :
    Answers (connection.finish reading kept) :=
  answers_get_bind fun ws =>
    onDisk_answers (Connection.endWrite_answers connection reading kept ws.clock)

/-- A transaction that stops keeps the tables: it could not begin, there were
none, or its change was refused. Once the change has gone through it does not
stop any more. -/
theorem write_spares (store : Store) (bare : Except CatalogFault α)
    (change : Catalog → Except CatalogFault (α × Catalog)) :
    Spares (store.Has here tables) (store.write bare change) := by
  refine (beginWrite_keeps store).bind_spares fun begun hbegun => ?_
  obtain ⟨connection, reading⟩ := begun
  obtain ⟨hleads, hreading⟩ := hbegun
  have hrefused (fault : CatalogFault) : Spares (store.Has here tables) (do
      connection.finish reading none
      throw fault : Deed α) :=
    (finish_none_keeps hleads reading).bind_spares fun _ _ => spares_throw fault
  dsimp only at hreading ⊢
  split
  · rename_i hnone
    obtain rfl : tables = none := hreading.symm.trans hnone
    split
    · refine spares_get_bind fun ws => ?_
      refine (keeps_connected hleads
        (Connection.settleBare_keeps connection reading ws.clock)).bind_spares fun _ _ => ?_
      exact (answers_pure _).spares
    · exact hrefused _
  · split
    · refine Answers.spares ?_
      exact (finish_answers connection reading _).bind fun _ => answers_pure _
    · exact hrefused _

theorem finish_leaves (hleads : connection.LeadsTo here store.path) (reading : Reading)
    (catalog left : Catalog) :
    Leaves (store.Has here (some catalog)) (connection.finish reading (some left))
      fun _ => store.Has here (some left) := by
  refine leaves_get_bind fun now => ?_
  rintro ws ⟨hhere, hcatalog⟩ _ -
  rw [← hleads] at hcatalog
  rw [outcome_onDisk]
  refine ⟨hhere, ?_⟩
  rw [← hleads]
  exact Connection.endWrite_some_leaves hcatalog reading left now.clock

/-- A transaction that answers leaves the tables that its change makes of those
that were there. -/
theorem write_leaves (store : Store) (bare : Except CatalogFault α)
    (change : Catalog → Except CatalogFault (α × Catalog)) :
    Leaves (store.Has here tables) (store.write bare change) fun value ws =>
      (tables = none ∧ store.Has here none ws) ∨
        ∃ catalog left, tables = some catalog ∧ change catalog = .ok (value, left) ∧
          store.Has here (some left) ws := by
  refine (beginWrite_keeps store).bind_leaves fun begun hbegun => ?_
  obtain ⟨connection, reading⟩ := begun
  obtain ⟨hleads, hreading⟩ := hbegun
  dsimp only at hreading ⊢
  split
  · rename_i hnone
    obtain rfl : tables = none := hreading.symm.trans hnone
    split
    · refine leaves_get_bind fun ws => ?_
      refine (keeps_connected hleads
        (Connection.settleBare_keeps connection reading ws.clock)).bind_leaves fun _ _ => ?_
      exact leaves_pure fun ws hws => Or.inl ⟨rfl, hws⟩
    · exact (finish_none_keeps hleads reading).bind_leaves fun _ _ => leaves_throw _
  · rename_i catalog hsome
    obtain rfl : tables = some catalog := hreading.symm.trans hsome
    split
    · rename_i value left hchange
      refine (finish_leaves hleads reading catalog left).bind fun _ => ?_
      exact leaves_pure fun ws hws => Or.inr ⟨catalog, left, rfl, hchange, hws⟩
    · exact (finish_none_keeps hleads reading).bind_leaves fun _ _ => leaves_throw _

end Deeds

section Upkeep

theorem fileGone_spares (store : Store) (path : Path) :
    Spares (store.Has here tables) (store.fileGone path) :=
  spares_get_bind fun ws =>
    (keeps_liftExcept (ws.key path)).bind_spares fun _ _ => write_spares store _ _

theorem markMissing_spares (store : Store) :
    Spares (store.Has here tables) store.markMissing := by
  refine (read_keeps store .files).bind_spares fun catalog _ => ?_
  refine spares_get_bind fun ws => ?_
  dsimp only
  split
  · exact (answers_pure _).spares
  · exact write_spares store _ _

end Upkeep

section Calls

variable {maxRetries : Nat} {call : Call} {fault : CatalogFault}

/-- An attempt that comes to nothing writes what it has read. -/
theorem commit_keeps {failed : Nat} {digest : Option String} (hws : store.Has here tables ws)
    (hstage : call.stage = .commit failed digest)
    (hnot : ∀ id, (ws.advance store maxRetries call).1.stage ≠ .done (.ok id)) :
    store.Has here tables (ws.advance store maxRetries call).2 := by
  have hbegun : store.Has here tables (ws.perform store.beginWrite).2 ∧
      ∀ begun, (ws.perform store.beginWrite).1 = .ok begun →
        begun.1.LeadsTo here store.path ∧ begun.2.tables = tables :=
    beginWrite_keeps store ws hws
  cases hfound : ws.perform store.beginWrite with
  | mk answer between =>
      rw [hfound] at hbegun
      obtain ⟨hbetween, hbegun⟩ := hbegun
      cases answer with
      | error fault =>
          simp only [Workspace.advance, hstage, hfound]
          split <;> exact hbetween
      | ok begun =>
          obtain ⟨connection, reading⟩ := begun
          obtain ⟨hleads, hreading⟩ := hbegun _ rfl
          have hreading : reading.tables = tables := hreading
          subst hreading
          cases htables : reading.tables with
          | none =>
              rw [htables] at hbetween
              simp only [Workspace.advance, hstage, hfound, htables]
              exact (finish_none_keeps hleads reading between hbetween).1
          | some catalog =>
              rw [htables] at hbetween
              have hadvanced : ws.advance store maxRetries call = _ :=
                Workspace.advance_commit hstage hfound htables
              rw [hadvanced] at hnot ⊢
              have hcases := @Call.next_cases call maxRetries (between.surroundings false)
                ⟨catalog, between.supply⟩
              rcases hcases with ⟨hkept, -⟩ | ⟨_, _, id, _, _, hended⟩
              · rw [hkept]
                exact (finish_same_keeps hleads reading between hbetween).1
              · exact absurd hended (hnot id)

/-- A step keeps the tables unless its call ends well with it. -/
theorem advance_keeps (hws : store.Has here tables ws)
    (hnot : ∀ id, (ws.advance store maxRetries call).1.stage ≠ .done (.ok id)) :
    store.Has here tables (ws.advance store maxRetries call).2 := by
  cases hstage : call.stage with
  | done answer =>
      simp only [Workspace.advance, hstage]
      exact hws
  | hash failed =>
      simp only [Workspace.advance, hstage]
      exact hws
  | lookUp failed =>
      have hread : store.Has here tables (ws.perform (store.read .files)).2 :=
        (read_keeps store .files ws hws).1
      cases hfound : ws.perform (store.read .files) with
      | mk answer left =>
          rw [hfound] at hread
          simp only [Workspace.advance, hstage, hfound]
          cases answer <;> exact hread
  | commit failed digest => exact commit_keeps hws hstage hnot

/-- The induction is on the steps that the call has before it. -/
theorem finishCall_keeps (hws : store.Has here tables ws)
    (hfault : (ws.finishCall store maxRetries call).1 = .error fault) :
    store.Has here tables (ws.finishCall store maxRetries call).2 := by
  fun_induction Workspace.finishCall ws store maxRetries call with
  | case1 ws call answer hstage => exact hws
  | case2 ws call failed hstage ih | case3 ws call failed hstage ih
  | case4 ws call failed digest hstage ih =>
      refine ih (advance_keeps hws fun id hended => ?_) hfault
      rw [Workspace.finishCall_done hended] at hfault
      cases hfault

end Calls

end Store

/-- What can be asked of a database that would change it. The last kind is a
transaction with any change whatever. -/
inductive Request : Type → Type 1 where
  | resolve (path : Path) (size : UInt64) (modified : Int) : Request MediaId
  | resolveFile (path : Path) : Request MediaId
  | fileGone (path : Path) : Request Bool
  | markMissing : Request Nat
  | addTag (item : MediaId) (tag : String) (modified : Int) : Request Bool
  | setTagDeleted (item : MediaId) (tag : String) (deleted : Bool) (modified : Int) :
      Request Bool
  | transact (operations : List Operation) : Request (List Finding)
  | write {α : Type} (bare : Except CatalogFault α)
      (change : Catalog → Except CatalogFault (α × Catalog)) : Request α

namespace Workspace

variable {α : Type} {store : Store} {maxRetries : Nat}

/-- What a request is answered, and the workspace that it leaves. -/
def serve (ws : Workspace) (store : Store) (maxRetries : Nat) :
    Request α → Except CatalogFault α × Workspace
  | .resolve path size modified =>
      match ws.startCall path size modified with
      | .ok call => ws.finishCall store maxRetries call
      | .error fault => (.error fault, ws)
  | .resolveFile path => ws.resolveFile store maxRetries path
  | .fileGone path => ws.perform (store.fileGone path)
  | .markMissing => ws.perform store.markMissing
  | .addTag item tag modified => ws.perform (store.mergeTag (MediaCatalog.addTag item tag modified))
  | .setTagDeleted item tag deleted modified =>
      ws.perform (store.mergeTag (MediaCatalog.setTagDeleted item tag deleted modified))
  | .transact operations => ws.perform (store.transact operations)
  | .write bare change => ws.perform (store.write bare change)

theorem serve_keeps {request : Request α} {ws : Workspace} {fault : CatalogFault}
    (hfault : (ws.serve store maxRetries request).1 = .error fault) :
    (ws.serve store maxRetries request).2.tables? store = ws.tables? store := by
  have hws : store.Has ws.here (ws.tables? store) ws := ⟨rfl, rfl⟩
  refine Store.Has.tables?_eq (?_ : store.Has ws.here (ws.tables? store) _)
  cases request with
  | resolve path size modified =>
      simp only [serve] at hfault ⊢
      split
      · rename_i call hcall
        rw [hcall] at hfault
        exact Store.finishCall_keeps hws hfault
      · exact hws
  | resolveFile path =>
      simp only [serve, resolveFile] at hfault ⊢
      split
      · rename_i call hcall
        rw [hcall] at hfault
        exact Store.finishCall_keeps hws hfault
      · exact hws
  | fileGone path => exact Store.fileGone_spares store path ws hws fault hfault
  | markMissing => exact Store.markMissing_spares store ws hws fault hfault
  | addTag | setTagDeleted | transact | write =>
      exact Store.write_spares store _ _ ws hws fault hfault

section Turns

/-- A turn in the run of a call: a step of its own, or anything that others do
in between. -/
inductive Turn where
  | own
  | others (act : Workspace → Workspace)

/-- The run of a call, turn by turn. -/
def play (store : Store) (maxRetries : Nat) (call : Call) (ws : Workspace) :
    List Turn → Call × Workspace
  | [] => (call, ws)
  | .own :: rest =>
      play store maxRetries (ws.advance store maxRetries call).1
        (ws.advance store maxRetries call).2 rest
  | .others act :: rest => play store maxRetries call (act ws) rest

/-- What the others do in such a run, without the call. -/
def playOthers (ws : Workspace) : List Turn → Workspace
  | [] => ws
  | .own :: rest => ws.playOthers rest
  | .others act :: rest => (act ws).playOthers rest

/-- What an act makes of the tables depends on them alone. -/
def DependsOnTables (store : Store) (act : Workspace → Workspace) : Prop :=
  ∀ ws other : Workspace, ws.tables? store = other.tables? store →
    (act ws).tables? store = (act other).tables? store

variable {call : Call} {ws : Workspace} {turns : List Turn} {fault : CatalogFault}

theorem play_done {answer : Except CatalogFault MediaId} (hdone : call.stage = .done answer)
    (turns : List Turn) : (play store maxRetries call ws turns).1 = call := by
  induction turns generalizing ws with
  | nil => rfl
  | cons turn rest ih =>
      cases turn with
      | own =>
          have hsame : ws.advance store maxRetries call = (call, ws) := by
            simp only [advance, hdone]
          simp only [play, hsame]
          exact ih
      | others act => exact ih

theorem play_append (turns later : List Turn) :
    play store maxRetries call ws (turns ++ later) =
      play store maxRetries (play store maxRetries call ws turns).1
        (play store maxRetries call ws turns).2 later := by
  induction turns generalizing call ws with
  | nil => rfl
  | cons turn rest ih =>
      cases turn with
      | own => exact ih
      | others act => exact ih

/-- A step keeps the tables if its call comes to a fault in the end, whatever the
others do afterwards. -/
theorem play_own_keeps
    (hfault : (play store maxRetries call ws (.own :: turns)).1.stage = .done (.error fault)) :
    (ws.advance store maxRetries call).2.tables? store = ws.tables? store := by
  have hws : store.Has ws.here (ws.tables? store) ws := ⟨rfl, rfl⟩
  refine Store.Has.tables?_eq (Store.advance_keeps hws fun id hended => ?_)
  rw [play, play_done hended, hended] at hfault
  cases hfault

/-- The tables are those that the others make of the same tables. The induction
is on the turns. -/
theorem play_playOthers {other : Workspace} (hsame : ws.tables? store = other.tables? store)
    (hdepends : ∀ act, .others act ∈ turns → DependsOnTables store act)
    (hfault : (play store maxRetries call ws turns).1.stage = .done (.error fault)) :
    (play store maxRetries call ws turns).2.tables? store =
      (other.playOthers turns).tables? store := by
  induction turns generalizing call ws other with
  | nil => exact hsame
  | cons turn rest ih =>
      have hrest : ∀ act, .others act ∈ rest → DependsOnTables store act :=
        fun act hact => hdepends act (List.mem_cons_of_mem _ hact)
      cases turn with
      | own => exact ih ((play_own_keeps hfault).trans hsame) hrest hfault
      | others act =>
          have hact : DependsOnTables store act := hdepends act List.mem_cons_self
          exact ih (hact ws other hsame) hrest hfault

/-- A request that is answered with a fault leaves the tables as they were. So
does a call whose steps are interleaved with what others do: none of its own steps
has changed the tables, and if what the others do depends on the tables alone,
they are in the end what they were without the call. The tables are those that a
reading hands over, and a transaction that answers leaves what its change makes
of them. -/
theorem failure_keeps_tables (store : Store) (maxRetries : Nat) :
    (∀ {α : Type} (request : Request α) (ws : Workspace) (fault : CatalogFault),
      (ws.serve store maxRetries request).1 = .error fault →
        (ws.serve store maxRetries request).2.tables? store = ws.tables? store) ∧
    (∀ (call : Call) (ws : Workspace) (turns : List Turn) (fault : CatalogFault),
      (play store maxRetries call ws turns).1.stage = .done (.error fault) →
        (∀ before after, turns = before ++ .own :: after →
          (play store maxRetries call ws (before ++ [.own])).2.tables? store =
            (play store maxRetries call ws before).2.tables? store) ∧
        ((∀ act, .others act ∈ turns → DependsOnTables store act) →
          (play store maxRetries call ws turns).2.tables? store =
            (ws.playOthers turns).tables? store)) ∧
    (∀ (ws : Workspace) (table : Table) (catalog : Catalog),
      (ws.perform (store.read table)).1 = .ok catalog → ws.tables? store = some catalog) ∧
    ∀ {α : Type} (bare : Except CatalogFault α)
      (change : Catalog → Except CatalogFault (α × Catalog)) (ws : Workspace) (value : α),
      (ws.perform (store.write bare change)).1 = .ok value →
        (ws.tables? store = none ∧
          (ws.perform (store.write bare change)).2.tables? store = none) ∨
        ∃ catalog left, ws.tables? store = some catalog ∧ change catalog = .ok (value, left) ∧
          (ws.perform (store.write bare change)).2.tables? store = some left := by
  refine ⟨fun request ws fault hfault => serve_keeps hfault, ?_,
    fun ws table catalog hread => Store.tables?_of_read hread, ?_⟩
  · intro call ws turns fault hfault
    refine ⟨?_, fun hdepends => play_playOthers rfl hdepends hfault⟩
    rintro before after rfl
    rw [play_append] at hfault ⊢
    exact play_own_keeps hfault
  · intro α bare change ws value hvalue
    have hws : store.Has ws.here (ws.tables? store) ws := ⟨rfl, rfl⟩
    rcases Store.write_leaves store bare change ws hws value hvalue with
      ⟨hnone, hleft⟩ | ⟨catalog, left, hcatalog, hchange, hleft⟩
    · exact Or.inl ⟨hnone, hleft.tables?_eq⟩
    · exact Or.inr ⟨catalog, left, hcatalog, hchange, hleft.tables?_eq⟩

def shelfCatalog : Catalog := { files := [⟨"/a", 1, 7, "5a", .numbered "#" 0, false⟩] }

/-- A workspace with one record in its database. -/
def shelf : Workspace where
  disk := diskWith shelfCatalog 0 []
  here := ⟨[Path.slash]⟩
  settingsHome := ⟨[Path.slash]⟩
  supply := .ofSeries "#"
  clock := 0
  held := none

def revised : FileRecord := ⟨"/a", 2, 9, "5b", .numbered "#" 0, false⟩

/-- Another writer, who revises the record in the tables that are there. -/
def reviseRecord (ws : Workspace) : Workspace :=
  { ws with
    disk := diskWith (((ws.tables? Workspace.store).getD {}).replaceFile revised) ws.clock [] }

theorem tables?_diskWith {ws : Workspace} {catalog : Catalog} {modified : Int}
    {rest : List Entry} (hdisk : ws.disk = diskWith catalog modified rest) :
    ws.tables? Workspace.store = some catalog := by
  obtain ⟨hname, habsolute, hnames, hdots, -⟩ := databasePath_spec
  have hplace : Place.follow [] databasePath.names = [databaseName] := by
    simp [hnames, Place.follow, hdots]
  simp only [tables?, Disk.tablesNamed?, Workspace.store, hname, habsolute, if_true,
    List.nil_append, hplace, hdisk, Disk.tables?_of_file at?_database]
  rfl

theorem reviseRecord_dependsOnTables : DependsOnTables Workspace.store reviseRecord := by
  intro ws other hsame
  have htables (ws : Workspace) : (reviseRecord ws).tables? Workspace.store =
      some (((ws.tables? Workspace.store).getD {}).replaceFile revised) := tables?_diskWith rfl
  rw [htables, htables, hsame]

theorem hosts_shelf : Hosts shelf.here 0 [] ⟨shelfCatalog, shelf.supply⟩ shelf :=
  ⟨⟨0, rfl⟩, rfl, rfl, rfl⟩

/-- A transaction is abandoned after its first operation, where without the second
it goes through. A call that has found its file up to date meets the record
revised by another writer, so that it needs a digest after all, and has no attempt
left. -/
theorem failure_keeps_tables_shelf :
    let operations := [Operation.updateFile revised, .abandon "no"]
    let abandoned := shelf.serve Workspace.store 0 (.transact operations)
    let late := play Workspace.store 0 ⟨⟨"/a", 1, 7⟩, .commit 0 none, 0⟩ shelf
      [.others reviseRecord, .own]
    (abandoned.1 = .error (.constraint "no") ∧
      abandoned.2.tables? Workspace.store = shelf.tables? Workspace.store) ∧
      (late.1.stage = .done (.error (.conflict (.ofText "/a") 1)) ∧
        late.2.tables? Workspace.store = (reviseRecord shelf).tables? Workspace.store) ∧
      shelf.tables? Workspace.store = some shelfCatalog ∧
      (shelf.perform (Workspace.store.transact [.updateFile revised])).2.tables?
        Workspace.store = some (shelfCatalog.replaceFile revised) := by
  intro operations abandoned late
  obtain ⟨hrequests, hruns, hreads, hwrites⟩ := failure_keeps_tables Workspace.store 0
  have habandoned : abandoned.1 = .error (.constraint "no") :=
    (hosts_shelf.write (fun _ _ => rfl) (Store.bareFindings operations) fun catalog =>
      (catalog.performAll operations).mapError .ofWrite).1
  have hread : shelf.perform (Workspace.store.read .files) = (.ok shelfCatalog, shelf) :=
    perform_storeRead (fun _ _ => rfl) rfl .files
  have htables : shelf.tables? Workspace.store = some shelfCatalog :=
    hreads shelf .files shelfCatalog (congrArg Prod.fst hread)
  have hlate : late.1.stage = .done (.error (.conflict (.ofText "/a") 1)) := by
    have hrevised : (reviseRecord shelf).disk =
        diskWith (shelfCatalog.replaceFile revised) 0 [] := by
      simp only [reviseRecord, htables]
      rfl
    have hbegun := perform_storeBeginWrite (fun _ _ => rfl) hrevised
    have hadvanced : (reviseRecord shelf).advance Workspace.store 0
        ⟨⟨"/a", 1, 7⟩, .commit 0 none, 0⟩ = _ := advance_commit rfl hbegun rfl
    simp only [late, play, hadvanced]
    rfl
  refine ⟨⟨habandoned, hrequests _ shelf _ habandoned⟩, ⟨hlate, ?_⟩, htables, ?_⟩
  · refine (hruns _ shelf _ _ hlate).2 ?_
    intro act hact
    obtain rfl : act = reviseRecord := by simpa using hact
    exact reviseRecord_dependsOnTables
  · have hdone : (shelf.perform (Workspace.store.transact [.updateFile revised])).1 =
        .ok [.done] :=
      (hosts_shelf.write (fun _ _ => rfl) (Store.bareFindings [.updateFile revised]) fun catalog =>
        (catalog.performAll [.updateFile revised]).mapError .ofWrite).1
    rcases hwrites _ _ shelf _ hdone with ⟨hnone, -⟩ | ⟨catalog, left, hcatalog, hchange, hleft⟩
    · rw [htables] at hnone
      cases hnone
    · obtain rfl : shelfCatalog = catalog := Option.some.inj (htables.symm.trans hcatalog)
      obtain rfl : shelfCatalog.replaceFile revised = left :=
        congrArg Prod.snd (Except.ok.inj hchange)
      exact hleft

end Turns

end Workspace

end MediaCatalog
