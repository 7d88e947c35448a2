import MediaCatalog.Proofs.Disk.Companions
import MediaCatalog.Proofs.Workspace.Keeping

/-!
What connections do to the tables of their database. To begin a reading or a
write makes and takes away files beside the database, and hands over the tables
that are in it; so does its end. The tables change where a write ends with
others, and that never stops.
-/

namespace MediaCatalog

/-- Where names lead when each `..` takes the name before it away, on whatever
disk. -/
def Place.follow (place : Place) : List Name → Place
  | [] => place
  | name :: rest =>
      if name = Path.dotDot then follow place.dropLast rest else follow (place ++ [name]) rest

theorem Disk.placeFrom?_follow {disk : Disk} {place found : Place} {names : List Name}
    (hfound : disk.placeFrom? place names = some found) : found = place.follow names := by
  induction names generalizing place with
  | nil => exact (Option.some.inj hfound).symm
  | cons name rest ih =>
      unfold placeFrom? at hfound
      unfold Place.follow
      split at hfound
      · rename_i hname
        rw [if_pos hname]
        exact ih hfound
      · rename_i hname
        rw [if_neg hname]
        split at hfound
        · exact ih hfound
        · cases hfound

/-- The tables of the database that has a name for a reader at `here`. -/
def Disk.tablesNamed? (disk : Disk) (here name : Path) : Option Catalog :=
  match Location.ofName name with
  | .ok (.file target _) =>
      disk.tables?
        (Place.follow [] ((if target.isAbsolute then [] else here.names) ++ target.names))
  | _ => none

namespace Connection

/-- The tables of the database that a connection leads to. -/
def tables? (connection : Connection) (disk : Disk) : Option Catalog :=
  match connection with
  | .passing _ _ => none
  | .file place _ => disk.tables? place

/-- The connection leads to the database of a name, on whatever disk. -/
def LeadsTo (connection : Connection) (here name : Path) : Prop :=
  ∀ disk : Disk, connection.tables? disk = disk.tablesNamed? here name

variable {connection : Connection} {place : Place} {manner : Manner}
  {tables : Option Catalog} {logged : Bool} {reading : Reading} {holds : Disk → Prop}

section Beside

/-- The files beside a database have no part in the property. -/
structure Aside (place : Place) (holds : Disk → Prop) : Prop where
  removeFile : ∀ {disk : Disk} {companion}, companion ∈ place.companions → holds disk →
    holds (disk.removeFile companion)
  makeFile : ∀ {disk : Disk} {companion}, companion ∈ place.companions → holds disk →
    ∀ bytes now, holds (disk.makeFile companion bytes now)

/-- Those beside the database of the connection have none. -/
def SetsAside (connection : Connection) (holds : Disk → Prop) : Prop :=
  ∀ place manner, connection = .file place manner → Aside place holds

theorem SetsAside.file (haside : Aside place holds) :
    (Connection.file place manner).SetsAside holds := by
  rintro _ _ ⟨⟩
  exact haside

theorem tables_setsAside (connection : Connection) (tables : Option Catalog) :
    connection.SetsAside fun disk => connection.tables? disk = tables := by
  rintro place manner rfl
  exact ⟨fun hcompanion hdisk => (Disk.tables?_removeFile hcompanion).trans hdisk,
    fun hcompanion hdisk bytes now => (Disk.tables?_makeFile hcompanion bytes now).trans hdisk⟩

theorem clearBlank_aside (haside : Aside place holds) :
    Keeps holds (clearBlank place) fun _ => True := by
  unfold clearBlank
  dsimp only
  refine keeps_get_bind fun disk hdisk => ?_
  refine Keeps.guarded (fun _ => keeps_set (haside.removeFile (by simp) hdisk)) ?_
  refine Keeps.guarded (fun _ => keeps_throw _) ?_
  split
  · exact keeps_modify fun disk hdisk => haside.removeFile (by simp) hdisk
  · exact keeps_pure trivial

theorem settleJournal_aside (haside : Aside place holds) (keepsLog : Bool) :
    Keeps holds (settleJournal place manner keepsLog) fun _ => True := by
  unfold settleJournal
  dsimp only
  refine keeps_get_bind fun disk hdisk => ?_
  refine Keeps.guarded (fun _ => keeps_throw _) ?_
  split
  · split
    · split
      · exact keeps_throw _
      · exact keeps_pure trivial
    · split
      · exact keeps_throw _
      · exact keeps_set (haside.removeFile (by simp) hdisk)
  · exact keeps_pure trivial

theorem joinLog_aside (haside : Aside place holds) (keepsLog : Bool) (now : Int) :
    Keeps holds (joinLog place manner keepsLog now) fun _ => True := by
  unfold joinLog
  dsimp only
  refine keeps_get_bind fun disk hdisk => ?_
  split
  · exact keeps_pure trivial
  refine Keeps.guarded (fun _ => keeps_throw _) ?_
  refine Keeps.guarded (fun _ => keeps_throw _) ?_
  refine Keeps.bind (keeps_modify fun disk hdisk => ?_) fun _ _ => ?_
  · exact haside.makeFile (by simp) hdisk _ _
  refine Keeps.guarded (fun _ => keeps_modify fun disk hdisk => ?_) ?_
  · exact haside.makeFile (by simp) hdisk _ _
  · exact keeps_pure trivial

theorem leave_aside (haside : connection.SetsAside holds) (logged : Bool) :
    Keeps holds (connection.leave logged) fun _ => True := by
  cases connection with
  | passing => exact keeps_pure trivial
  | file place manner =>
      have haside := haside place manner rfl
      unfold leave
      dsimp only
      refine keeps_get_bind fun disk hdisk => ?_
      split
      · exact keeps_set (haside.removeFile (by simp) (haside.removeFile (by simp) hdisk))
      · exact keeps_pure trivial

theorem leave_keeps (connection : Connection) (logged : Bool) :
    Keeps (fun disk => connection.tables? disk = tables) (connection.leave logged)
      fun _ => True :=
  leave_aside (tables_setsAside connection tables) logged

theorem refuse_aside {α : Type} (haside : connection.SetsAside holds) (logged : Bool)
    (fault : DatabaseFault) {tells : α → Prop} :
    Keeps holds (connection.refuse logged fault) tells :=
  (leave_aside haside logged).bind fun _ _ => keeps_throw fault

end Beside

section Transactions

/-- The end of a reading. -/
theorem handOver_aside (haside : connection.SetsAside holds) {content : Content}
    (htables : content.tables? = tables) (logged : Bool) :
    Keeps holds
      (match content with
        | .database tables _ => pure { tables, logged }
        | .plain _ => connection.refuse logged .notDatabase)
      fun reading : Reading => reading.tables = tables := by
  cases content with
  | database => exact keeps_pure htables
  | plain => exact refuse_aside haside logged _

/-- What a reading hands over are the tables that are there. -/
theorem read_aside (haside : connection.SetsAside holds)
    (htables : ∀ disk, holds disk → connection.tables? disk = tables) (now : Int) :
    Keeps holds (connection.read now) fun reading => reading.tables = tables := by
  cases connection with
  | passing => exact keeps_of_state fun disk hdisk => keeps_pure (htables disk hdisk)
  | file place manner =>
      unfold read
      dsimp only
      refine keeps_get_bind fun disk hdisk => ?_
      have htables : disk.tables? place = tables := htables disk hdisk
      have hbeside := haside place manner rfl
      split
      · rename_i found hfound
        rw [Disk.tables?_of_file hfound] at htables
        refine keeps_get_bind fun _ _ => ?_
        split
        · rename_i hblank
          rw [Content.tables?_of_isBlank hblank] at htables
          exact Keeps.guarded (fun _ => clearBlank_aside hbeside) (keeps_pure htables)
        · have hend := handOver_aside haside htables
          split
          · exact hend false
          · refine (settleJournal_aside hbeside _).bind fun _ _ => ?_
            exact (joinLog_aside hbeside _ now).bind fun logged _ => hend logged
      · exact keeps_throw _
      · rename_i hnone
        rw [Disk.tables?_of_none hnone] at htables
        exact keeps_pure htables

theorem read_keeps (connection : Connection) (now : Int) :
    Keeps (fun disk => connection.tables? disk = tables) (connection.read now)
      fun reading => reading.tables = tables :=
  read_aside (tables_setsAside connection tables) (fun _ htables => htables) now

theorem beginWrite_aside (haside : connection.SetsAside holds)
    (htables : ∀ disk, holds disk → connection.tables? disk = tables) (now : Int) :
    Keeps holds (connection.beginWrite now) fun reading => reading.tables = tables := by
  cases connection with
  | passing readOnly common =>
      refine keeps_of_state fun disk hdisk => ?_
      exact Keeps.guarded (fun _ => keeps_throw _) (keeps_pure (htables disk hdisk))
  | file place manner =>
      unfold beginWrite
      dsimp only
      refine keeps_get_bind fun _ _ => ?_
      refine Keeps.guarded (fun _ => keeps_throw _) ?_
      refine (read_aside haside htables now).bind fun reading hreading => ?_
      refine keeps_get_bind fun _ _ => ?_
      refine Keeps.guarded (fun _ => refuse_aside haside _ _) ?_
      refine Keeps.guarded (fun _ => refuse_aside haside _ _) ?_
      exact Keeps.guarded (fun _ => keeps_throw _) (keeps_pure hreading)

theorem beginWrite_keeps (connection : Connection) (now : Int) :
    Keeps (fun disk => connection.tables? disk = tables) (connection.beginWrite now)
      fun reading => reading.tables = tables :=
  beginWrite_aside (tables_setsAside connection tables) (fun _ htables => htables) now

/-- The tables that are there already may be written once more. -/
theorem keep_keeps (connection : Connection) (journal : Journal) (now : Int) :
    Keeps (fun disk => connection.tables? disk = tables) (connection.keep tables journal now)
      fun _ => True := by
  cases connection with
  | passing => exact keeps_pure trivial
  | file place manner =>
      refine keeps_modify fun disk hdisk => ?_
      exact Disk.tables?_rewritten hdisk

theorem journal_keeps (connection : Connection) : Keeps holds connection.journal fun _ => True := by
  cases connection with
  | passing => exact keeps_pure trivial
  | file place manner =>
      refine keeps_get_bind fun disk _ => ?_
      split <;> exact keeps_pure trivial

theorem endWrite_some (connection : Connection) (reading : Reading) (catalog : Catalog)
    (now : Int) :
    connection.endWrite reading (some catalog) now = (do
      connection.keep (some catalog) (← connection.journal) now
      connection.endWrite reading none now) :=
  rfl

theorem endWrite_none_aside (haside : connection.SetsAside holds) (reading : Reading) (now : Int) :
    Keeps holds (connection.endWrite reading none now) fun _ => True := by
  cases connection with
  | passing => exact keeps_pure trivial
  | file place manner =>
      refine Keeps.guarded (fun _ => keeps_modify fun disk hdisk => ?_) (leave_aside haside _)
      exact (haside place manner rfl).removeFile (by simp) hdisk

theorem endWrite_none_keeps (connection : Connection) (reading : Reading) (now : Int) :
    Keeps (fun disk => connection.tables? disk = tables) (connection.endWrite reading none now)
      fun _ => True :=
  endWrite_none_aside (tables_setsAside connection tables) reading now

/-- The end of a write keeps what is kept where the tables are written. -/
theorem endWrite_aside (haside : connection.SetsAside holds) {kept : Option Catalog} {now : Int}
    (hkeep : ∀ journal, Keeps holds (connection.keep kept journal now) fun _ => True)
    (reading : Reading) : Keeps holds (connection.endWrite reading kept now) fun _ => True := by
  cases kept with
  | none => exact endWrite_none_aside haside reading now
  | some catalog =>
      rw [endWrite_some]
      refine (journal_keeps connection).bind fun journal _ => ?_
      exact (hkeep journal).bind fun _ _ => endWrite_none_aside haside reading now

/-- A write that leaves the tables that were there. -/
theorem endWrite_same_keeps (connection : Connection) (reading : Reading) (now : Int) :
    Keeps (fun disk => connection.tables? disk = tables) (connection.endWrite reading tables now)
      fun _ => True :=
  endWrite_aside (tables_setsAside connection tables)
    (fun journal => keep_keeps connection journal now) reading

/-- A write of other tables leaves these. -/
theorem endWrite_some_leaves {disk : Disk} {old : Catalog}
    (hold : connection.tables? disk = some old) (reading : Reading) (catalog : Catalog)
    (now : Int) :
    connection.tables? (outcome (connection.endWrite reading (some catalog) now) disk).2 =
      some catalog := by
  cases connection with
  | passing => cases hold
  | file place manner =>
      have hjournal : ∃ journal, outcome (Connection.file place manner).journal disk =
          (.ok journal, disk) := by
        change ∃ journal, disk.perform (Connection.file place manner).journal = (.ok journal, disk)
        simp only [journal, Disk.perform_bind, Disk.perform_get]
        split <;> exact ⟨_, rfl⟩
      obtain ⟨journal, hjournal⟩ := hjournal
      let written := disk.setAt place
        (some (.file ⟨.database (some catalog) journal, now, disk.holder? place⟩))
      have hkept : outcome ((Connection.file place manner).keep (some catalog) journal now) disk =
          (.ok ⟨⟩, written) := rfl
      have hwritten : written.tables? place = some catalog := Disk.tables?_overwritten hold
      rw [endWrite_some, outcome_bind, hjournal]
      dsimp only
      rw [outcome_bind, hkept]
      exact (endWrite_none_keeps (.file place manner) reading now written hwritten).1

theorem leave_answers (connection : Connection) (logged : Bool) :
    Answers (connection.leave logged) := by
  cases connection with
  | passing => exact answers_pure _
  | file place manner =>
      refine answers_get_bind fun disk => ?_
      split
      · exact answers_set _
      · exact answers_pure _

theorem journal_answers (connection : Connection) : Answers connection.journal := by
  cases connection with
  | passing => exact answers_pure _
  | file place manner =>
      refine answers_get_bind fun disk => ?_
      split <;> exact answers_pure _

theorem keep_answers (connection : Connection) (kept : Option Catalog) (journal : Journal)
    (now : Int) : Answers (connection.keep kept journal now) := by
  cases connection with
  | passing => exact answers_pure _
  | file place manner => exact answers_modify _

/-- A write that was begun comes to its end. -/
theorem endWrite_answers (connection : Connection) (reading : Reading) (kept : Option Catalog)
    (now : Int) : Answers (connection.endWrite reading kept now) := by
  have hnone : Answers (connection.endWrite reading none now) := by
    cases connection with
    | passing => exact answers_pure _
    | file place manner => exact Answers.guarded (answers_modify _) (leave_answers _ _)
  cases kept with
  | none => exact hnone
  | some catalog =>
      rw [endWrite_some]
      refine (journal_answers connection).bind fun journal => ?_
      exact (keep_answers connection _ journal now).bind fun _ => hnone

theorem settleBare_keeps (connection : Connection) (reading : Reading) (now : Int) :
    Keeps (fun disk => connection.tables? disk = none) (connection.settleBare reading now)
      fun _ => True := by
  unfold settleBare
  dsimp only
  refine keeps_get_bind fun _ _ => ?_
  refine Keeps.guarded (fun _ => keep_keeps connection _ now) ?_
  refine (endWrite_none_keeps connection reading now).bind fun _ _ => ?_
  split
  · exact keeps_throw _
  · exact keeps_pure trivial

end Transactions

section Start

variable {here name : Path}

theorem databasePlace?_follow {disk : Disk} {place : Place}
    (hplace : disk.databasePlace? here name = some place) :
    place = Place.follow [] ((if name.isAbsolute then [] else here.names) ++ name.names) := by
  unfold Disk.databasePlace? at hplace
  obtain ⟨found, hfound, hplace⟩ := Option.bind_eq_some_iff.mp hplace
  split at hplace
  · cases hplace
  · obtain rfl : found = place := Option.some.inj hplace
    exact Disk.placeFrom?_follow hfound

/-- The file that a connection makes for a database is blank. -/
theorem start_keeps (now : Int) :
    Keeps (fun disk : Disk => disk.tablesNamed? here name = tables) (start here name now)
      fun connection => connection.LeadsTo here name := by
  unfold start
  dsimp only
  refine (keeps_liftExcept _).bind fun location hlocation => ?_
  cases location with
  | passing readOnly common =>
      refine keeps_pure fun disk => ?_
      simp only [Disk.tablesNamed?, hlocation, tables?]
  | file target manner =>
      refine keeps_get_bind fun disk hdisk => ?_
      split
      · rename_i place hplace
        have hleads : (Connection.file place manner).LeadsTo here name := by
          intro disk
          simp only [Disk.tablesNamed?, hlocation, tables?, databasePlace?_follow hplace]
        split
        on_goal 1 => refine Keeps.guarded (fun _ => keeps_throw _) ?_
        all_goals
          split
          · exact keeps_pure hleads
          · split
            · exact keeps_pure hleads
            · exact keeps_throw _
          · refine Keeps.guarded (fun _ => keeps_throw _) ?_
            refine (keeps_set ?_).bind fun _ _ => keeps_pure hleads
            rw [← hdisk, ← hleads, ← hleads]
            exact Disk.tables?_makeFile_self .empty now
      · exact keeps_throw _

end Start

end Connection

end MediaCatalog
