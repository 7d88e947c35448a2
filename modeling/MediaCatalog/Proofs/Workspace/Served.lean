import MediaCatalog.Proofs.Disk.Entries
import MediaCatalog.Proofs.Workspace.Calls
import MediaCatalog.Proofs.Workspace.Deeds

/-!
A database that serves a registry: one with a log, at the root of a disk, whose
other files have names of their own. Beside it a reading or a write makes the
log and the memory that its readers share, and takes both away when it ends.
Everything else on the disk is as it was.
-/

namespace MediaCatalog.Workspace

open Text

/-- The database, and the files that go with it. -/
def databasePath : Path := .ofText "/media.db"
def databaseName : Name := Utf8.encode "media.db"
def logName : Name := Utf8.encode "media.db-wal"
def memoryName : Name := Utf8.encode "media.db-shm"
def journalName : Name := Utf8.encode "media.db-journal"

/-- Which files go with the database. -/
theorem places : Place.log [databaseName] = [logName] ∧
    Place.sharedMemory [databaseName] = [memoryName] ∧
    Place.journal [databaseName] = [journalName] ∧ Place.fits [logName] = true := by
  decide +kernel

theorem log_place : Place.log [databaseName] = [logName] := places.1

theorem memory_place : Place.sharedMemory [databaseName] = [memoryName] := places.2.1

theorem journal_place : Place.journal [databaseName] = [journalName] := places.2.2.1

theorem database_ne : databaseName ≠ logName ∧ databaseName ≠ memoryName ∧
    databaseName ≠ journalName := by
  decide +kernel

theorem log_ne : logName ≠ memoryName := by
  decide +kernel

/-- The database with a catalog. -/
def databaseWith (catalog : Catalog) (modified : Int) : File :=
  { content := .database (some catalog) .writeAhead, modified }

/-- The database with a catalog, before other entries. -/
def diskWith (catalog : Catalog) (modified : Int) (rest : List Entry) : Disk :=
  ⟨.file databaseName (databaseWith catalog modified) :: rest⟩

/-- No entry has the name of the database or of a file that goes with it. -/
def Apart (rest : List Entry) : Prop :=
  ∀ name ∈ [databaseName, logName, memoryName, journalName], Entry.find? rest name = none

def newLog (now : Int) : Entry := .file logName { content := .plain .empty, modified := now }

def newMemory (now : Int) : Entry :=
  .file memoryName { content := .plain Connection.blankMemory, modified := now }

variable {catalog : Catalog} {modified now : Int} {rest : List Entry}

section Disk

theorem at?_database : (diskWith catalog modified rest).at? [databaseName] =
    some (.file (databaseWith catalog modified)) :=
  Disk.at?_of_file (Entry.find?_cons_self ..)

/-- A file that goes with the database is looked for behind it. -/
theorem find?_beside {name : Name} (hname : name ∈ [logName, memoryName, journalName]) :
    Entry.find? (diskWith catalog modified rest).entries name = Entry.find? rest name := by
  apply Entry.find?_cons_ne
  rintro rfl
  simp [Entry.name, database_ne] at hname

theorem find?_closed (hrest : Apart rest) {name : Name}
    (hname : name ∈ [logName, memoryName, journalName]) :
    Entry.find? (diskWith catalog modified rest).entries name = none := by
  rw [find?_beside hname]
  exact hrest name (List.mem_cons_of_mem _ hname)

/-- The disk while somebody works with the database. -/
def opened (catalog : Catalog) (modified now : Int) (rest : List Entry) : Disk :=
  diskWith catalog modified (rest ++ [newLog now, newMemory now])

theorem find?_opened (hrest : Apart rest) {name : Name}
    (hname : name ∈ [logName, memoryName, journalName]) :
    Entry.find? (opened catalog modified now rest).entries name =
      Entry.find? [newLog now, newMemory now] name := by
  unfold opened
  rw [find?_beside hname, Entry.find?_append (hrest name (List.mem_cons_of_mem _ hname))]

theorem opened_log (hrest : Apart rest) :
    Entry.find? (opened catalog modified now rest).entries logName = some (newLog now) := by
  rw [find?_opened hrest (by simp)]
  exact Entry.find?_cons_self [newMemory now] (newLog now)

theorem opened_memory (hrest : Apart rest) :
    Entry.find? (opened catalog modified now rest).entries memoryName = some (newMemory now) := by
  rw [find?_opened hrest (by simp), Entry.find?_cons_ne (newLog now) _ log_ne]
  exact Entry.find?_cons_self [] (newMemory now)

theorem makeFiles_closed (hrest : Apart rest) :
    ((diskWith catalog modified rest).makeFile [logName] .empty now).makeFile [memoryName]
      Connection.blankMemory now = opened catalog modified now rest := by
  have hlog : Entry.find? (diskWith catalog modified rest).entries logName = none :=
    find?_closed hrest (by simp)
  have hmemory : Entry.find? ((diskWith catalog modified rest).entries ++ [newLog now])
      memoryName = none := by
    rw [Entry.find?_append (find?_closed hrest (by simp)),
      Entry.find?_cons_ne (newLog now) _ log_ne]
    rfl
  have hmade : (diskWith catalog modified rest).makeFile [logName] .empty now =
      ⟨(diskWith catalog modified rest).entries ++ [newLog now]⟩ :=
    Disk.makeFile_of_none .empty now hlog
  rw [hmade, Disk.makeFile_of_none _ now hmemory]
  simp [opened, diskWith, newMemory]

theorem removeLog_opened (hrest : Apart rest) :
    (opened catalog modified now rest).removeLog [databaseName] =
      diskWith catalog modified rest := by
  have hlog : (opened catalog modified now rest).removeFile [logName] =
      ⟨(diskWith catalog modified rest).entries ++ [newMemory now]⟩ := by
    refine (Disk.removeFile_of_file (opened_log hrest)).trans (congrArg Disk.mk ?_)
    change Entry.drop ((diskWith catalog modified rest).entries ++ [newLog now, newMemory now])
      logName = _
    rw [Entry.drop_append, Entry.drop_of_none (find?_closed hrest (by simp))]
    simp [Entry.drop, newLog, newMemory, Entry.name, log_ne.symm]
  have hmemory : Entry.find? ((diskWith catalog modified rest).entries ++ [newMemory now])
      memoryName = some (newMemory now) := by
    rw [Entry.find?_append (find?_closed hrest (by simp))]
    exact Entry.find?_cons_self [] (newMemory now)
  rw [Disk.removeLog, log_place, memory_place, hlog]
  refine (Disk.removeFile_of_file hmemory).trans ?_
  rw [Entry.drop_append, Entry.drop_of_none (find?_closed hrest (by simp))]
  simp [Entry.drop, newMemory, Entry.name]

end Disk

section Connection

/-- A connection to the database. -/
def connection : Connection := .file [databaseName] {}

/-- What the bytes of the path tell. -/
theorem databasePath_spec :
    Location.ofName databasePath = .ok (.file databasePath {}) ∧
      databasePath.isAbsolute = true ∧ databasePath.names = [databaseName] ∧
      databaseName ≠ Path.dotDot ∧ Place.pathLength [databaseName] < Disk.lookedAtBytes ∧
      databaseName.length ≤ Disk.nameBytes ∧
      ¬ Disk.databaseBytes < Place.pathLength [databaseName] := by
  decide +kernel

theorem databasePlace?_database (here : Path) :
    (diskWith catalog modified rest).databasePlace? here databasePath = some [databaseName] := by
  obtain ⟨-, habsolute, hnames, hname, hlength, hfits, hbytes⟩ := databasePath_spec
  simp [Disk.databasePlace?, habsolute, hnames, Disk.placeFrom?, hname, Disk.canLook,
    Disk.at?_root, hlength, hfits, hbytes]

theorem perform_start (here : Path) :
    (diskWith catalog modified rest).perform (Connection.start here databasePath now) =
      (.ok connection, diskWith catalog modified rest) := by
  simp [Connection.start, databasePath_spec.1, databasePlace?_database, at?_database, liftExcept,
    connection]

theorem holder?_database : (diskWith catalog modified rest).holder? [databaseName] = none := by
  simp only [Disk.holder?, at?_database, databaseWith]

theorem perform_settleJournal (hrest : Apart rest) (manner : Manner) (keepsLog : Bool) :
    (diskWith catalog modified rest).perform
        (Connection.settleJournal [databaseName] manner keepsLog) =
      (.ok ⟨⟩, diskWith catalog modified rest) := by
  have hnone : (diskWith catalog modified rest).at? [journalName] = none :=
    Disk.at?_of_none (find?_closed hrest (by simp))
  simp [Connection.settleJournal, journal_place, Disk.isDirectory, Disk.hasJournal,
    Disk.bytesAt?, hnone]

theorem perform_joinLog (hrest : Apart rest) :
    (diskWith catalog modified rest).perform
        (Connection.joinLog [databaseName] {} true now) =
      (.ok true, opened catalog modified now rest) := by
  have hlog : (diskWith catalog modified rest).at? [logName] = none :=
    Disk.at?_of_none (find?_closed hrest (by simp))
  have hmemory : (diskWith catalog modified rest).at? [memoryName] = none :=
    Disk.at?_of_none (find?_closed hrest (by simp))
  have hfits : Place.fits [logName] = true := places.2.2.2
  have hmade : ((diskWith catalog modified rest).makeFile [logName] .empty now).makeFile
      [memoryName] Connection.blankMemory now = opened catalog modified now rest :=
    makeFiles_closed hrest
  simp [Connection.joinLog, log_place, memory_place, Disk.isDirectory, hlog, hmemory, hfits,
    Disk.canShare, Disk.hasMarkedLog, Disk.bytesAt?, holder?_database, hmade]

theorem perform_read (hrest : Apart rest) :
    (diskWith catalog modified rest).perform (connection.read now) =
      (.ok { tables := some catalog, logged := true }, opened catalog modified now rest) := by
  have halone : (Connection.file [databaseName] {}).joinsHolder
      (diskWith catalog modified rest) = false := rfl
  simp [Connection.read, connection, at?_database, databaseWith, Content.isBlank,
    Content.keepsLog, halone, perform_settleJournal hrest, perform_joinLog hrest]

theorem opened_canShare (hrest : Apart rest) :
    (opened catalog modified now rest).canShare [databaseName] = true := by
  have hmemory : (opened catalog modified now rest).at? [memoryName] =
      some (.file { content := .plain Connection.blankMemory, modified := now }) :=
    Disk.at?_of_file (opened_memory hrest)
  simp [Disk.canShare, memory_place, Disk.isDirectory, hmemory]

theorem holder?_opened : (opened catalog modified now rest).holder? [databaseName] = none :=
  holder?_database

theorem perform_leave (hrest : Apart rest) :
    (opened catalog modified now rest).perform (connection.leave true) =
      (.ok ⟨⟩, diskWith catalog modified rest) := by
  simp [Connection.leave, connection, holder?_opened, opened_canShare hrest,
    removeLog_opened hrest]

theorem perform_beginWrite (hrest : Apart rest) :
    (diskWith catalog modified rest).perform (connection.beginWrite now) =
      (.ok { tables := some catalog, logged := true }, opened catalog modified now rest) := by
  have hread : (diskWith catalog modified rest).perform
      ((Connection.file [databaseName] {}).read now) = _ := perform_read hrest
  have halone : (Connection.file [databaseName] {}).joinsHolder
      (diskWith catalog modified rest) = false := rfl
  simp [Connection.beginWrite, connection, hread, halone, holder?_opened, opened_canShare hrest]

/-- The tables take the place of the old ones. -/
theorem setAt_opened (hrest : Apart rest) (after : Catalog) (time : Int) :
    (opened catalog modified now rest).setAt [databaseName]
        (some (.file (databaseWith after time))) =
      opened after time now rest := by
  refine congrArg Disk.mk (Entry.put_cons_of_none _ _ rfl ?_)
  change Entry.find? (rest ++ [newLog now, newMemory now]) databaseName = none
  rw [Entry.find?_append (hrest databaseName (by simp)),
    Entry.find?_cons_ne (newLog now) _ database_ne.1.symm,
    Entry.find?_cons_ne (newMemory now) _ database_ne.2.1.symm]
  rfl

theorem perform_endWrite (hrest : Apart rest) (after : Catalog) :
    (opened catalog modified now rest).perform
        (connection.endWrite { tables := some catalog, logged := true } (some after) now) =
      (.ok ⟨⟩, diskWith after now rest) := by
  have hjournal : (opened catalog modified now rest).perform
      (Connection.file [databaseName] {}).journal =
        (.ok .writeAhead, opened catalog modified now rest) := by
    have hat : (opened catalog modified now rest).at? [databaseName] =
        some (.file ⟨.database (some catalog) .writeAhead, modified, none⟩) := at?_database
    simp [Connection.journal, hat]
  have hkept : (opened catalog modified now rest).perform
      ((Connection.file [databaseName] {}).keep (some after) .writeAhead now) =
        (.ok ⟨⟩, opened after now now rest) := by
    have hset : (opened catalog modified now rest).setAt [databaseName]
        (some (.file ⟨.database (some after) .writeAhead, now, none⟩)) =
          opened after now now rest := setAt_opened hrest after now
    simp [Connection.keep, holder?_opened, hset]
  have hleft : (opened after now now rest).perform
      ((Connection.file [databaseName] {}).leave true) = (.ok ⟨⟩, diskWith after now rest) :=
    perform_leave hrest
  simp [Connection.endWrite, connection, hjournal, hkept, hleft]

end Connection

section Store

/-- The workspace holds the registry: its tables in the database and its supply
of identifiers. -/
structure Hosts (here : Path) (now : Int) (rest : List Entry) (registry : Registry)
    (ws : Workspace) : Prop where
  disk : ∃ modified, ws.disk = diskWith registry.catalog modified rest
  here : ws.here = here
  supply : ws.supply = registry.supply
  clock : ws.clock = now

def store : Store := ⟨databasePath⟩

variable {ws : Workspace}

theorem perform_connect (hdisk : ws.disk = diskWith catalog modified rest) :
    ws.perform store.connect = (.ok connection, ws) := by
  obtain ⟨disk, here, home, supply, clock, held, plan, schedule⟩ := ws
  obtain rfl : disk = _ := hdisk
  simp [Store.connect, store, perform_onDisk, perform_start]

theorem perform_proceed (writing : Bool) :
    ws.perform (connection.proceed writing) = (.ok ⟨⟩, ws) := rfl

theorem perform_storeRead (hrest : Apart rest) (hdisk : ws.disk = diskWith catalog modified rest)
    (table : Table) : ws.perform (store.read table) = (.ok catalog, ws) := by
  have hconnect := perform_connect hdisk
  obtain ⟨disk, here, home, supply, clock, held, plan, schedule⟩ := ws
  obtain rfl : disk = _ := hdisk
  have hleft : (opened catalog modified clock rest).perform (connection.leave true) = _ :=
    perform_leave hrest
  simp [Store.read, Connection.load, hconnect, perform_proceed, perform_onDisk,
    perform_read hrest, hleft]

theorem perform_storeBeginWrite (hrest : Apart rest)
    (hdisk : ws.disk = diskWith catalog modified rest) :
    ws.perform store.beginWrite =
      (.ok (connection, { tables := some catalog, logged := true }),
        { ws with disk := opened catalog modified ws.clock rest }) := by
  simp [Store.beginWrite, perform_connect hdisk, perform_proceed, perform_onDisk, hdisk,
    perform_beginWrite hrest]

theorem perform_finish (hrest : Apart rest)
    (hdisk : ws.disk = opened catalog modified ws.clock rest) (after : Catalog) :
    ws.perform (connection.finish { tables := some catalog, logged := true } (some after)) =
      (.ok ⟨⟩, { ws with disk := diskWith after ws.clock rest }) := by
  simp [Connection.finish, perform_onDisk, hdisk, perform_endWrite hrest]

end Store

section Present

variable {other : Catalog} {time : Int}

/-- Another catalog in the database changes nothing but the file that it is in. -/
theorem diskWith_cases (catalog other : Catalog) (modified time : Int) (rest : List Entry)
    (place : Place) :
    place = [] ∨ place = [databaseName] ∨
      (diskWith catalog modified rest).at? place = (diskWith other time rest).at? place := by
  cases place with
  | nil => exact Or.inl rfl
  | cons name below =>
      right
      by_cases hname : databaseName = name
      · subst hname
        cases below with
        | nil => exact Or.inl rfl
        | cons next below =>
            right
            simp [Disk.at?, Entry.at?, diskWith, Entry.find?, Entry.name]
      · right
        simp [Disk.at?, Entry.at?, diskWith, Entry.find?, Entry.name, hname]

theorem step_diskWith (other : Catalog) (time : Int) :
    (diskWith catalog modified rest).step = (diskWith other time rest).step := by
  funext place part
  obtain rfl | rfl | hsame := diskWith_cases catalog other modified time rest place
  · have hfound : (Entry.find? (diskWith catalog modified rest).entries part).isSome =
        (Entry.find? (diskWith other time rest).entries part).isSome := by
      by_cases hname : databaseName = part <;>
        simp [diskWith, Entry.find?, Entry.name, hname]
    simp only [Disk.step, Disk.at?_root, hfound]
  · simp only [Disk.step, at?_database]
  · simp only [Disk.step, hsame]

theorem place?_diskWith (other : Catalog) (time : Int) (here path : Path) :
    (diskWith catalog modified rest).place? here path =
      (diskWith other time rest).place? here path := by
  simp only [Disk.place?, step_diskWith other time]
  cases List.foldlM (diskWith other time rest).step
    (if path.isAbsolute = true then [] else here.names) path.parts with
  | error fault => rfl
  | ok place =>
      simp only [bind, Except.bind]
      obtain rfl | rfl | hsame := diskWith_cases catalog other modified time rest place
      · simp only [Disk.at?_root]
      · simp only [at?_database]
      · simp only [hsame]

theorem present_diskWith (here path : Path) :
    (diskWith catalog modified rest).present here path =
      (diskWith other time rest).present here path := by
  simp only [Disk.present, Disk.find?, place?_diskWith other time]
  cases (diskWith other time rest).place? here path with
  | error fault => rfl
  | ok place =>
      simp only [bind, Except.bind]
      obtain rfl | rfl | hsame := diskWith_cases catalog other modified time rest place
      · simp only [Disk.at?_root, pure, Except.pure, Except.isOk, Except.toBool]
      · simp only [at?_database, pure, Except.pure, Except.isOk, Except.toBool]
      · simp only [hsame]

theorem read_diskWith {here path : Path}
    (hpath : (diskWith other time rest).place? here path ≠ .ok [databaseName]) :
    (diskWith catalog modified rest).read here path =
      (diskWith other time rest).read here path := by
  simp only [Disk.read, Disk.find?, place?_diskWith other time]
  cases hplace : (diskWith other time rest).place? here path with
  | error fault => rfl
  | ok place =>
      simp only [bind, Except.bind]
      obtain rfl | rfl | hsame := diskWith_cases catalog other modified time rest place
      · simp only [Disk.at?_root, pure, Except.pure]
      · exact absurd hplace hpath
      · simp only [hsame]

end Present

section Serves

/-- What a call meets in such a workspace: what is there while somebody works
with the database, and what can be read while nobody does. -/
def around (here : Path) (now : Int) (rest : List Entry) : Surroundings where
  present path := (opened {} now now rest).present here (.ofText path)
  digest path := ((diskWith {} now rest).read here (.ofText path)).map Digest.digest
  locked := false

variable {here : Path}

/-- The database serves calls for every path but its own. -/
theorem hosts_serves (hrest : Apart rest) {path : String}
    (hpath : (diskWith {} now rest).place? here (.ofText path) ≠ .ok [databaseName]) :
    Serves store (around here now rest) path (Hosts here now rest) where
  unlocked := rfl
  read := by
    intro registry ws hhosts
    obtain ⟨modified, hdisk⟩ := hhosts.disk
    exact ⟨ws, perform_storeRead hrest hdisk .files, hhosts⟩
  digest := by
    intro registry ws hhosts
    obtain ⟨modified, hdisk⟩ := hhosts.disk
    have hread : (diskWith registry.catalog modified rest).read here (.ofText path) =
        (diskWith {} now rest).read here (.ofText path) := read_diskWith hpath
    simp only [digest, around, hdisk, hhosts.here, hread]
  write := by
    intro registry ws hhosts
    obtain ⟨modified, hdisk⟩ := hhosts.disk
    refine ⟨connection, { tables := some registry.catalog, logged := true },
      { ws with disk := opened registry.catalog modified ws.clock rest },
      perform_storeBeginWrite hrest hdisk, rfl, hhosts.supply, ?_, ?_⟩
    · funext path
      simp only [present, around, opened, hhosts.here, hhosts.clock]
      exact present_diskWith ..
    · intro after
      rw [perform_finish hrest rfl after.catalog]
      exact ⟨⟨_, rfl⟩, hhosts.here, rfl, hhosts.clock⟩

end Serves

end MediaCatalog.Workspace
