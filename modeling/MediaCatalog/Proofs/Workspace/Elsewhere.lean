import MediaCatalog.Proofs.Database.Elsewhere
import MediaCatalog.Proofs.Identity.Settlement
import MediaCatalog.Proofs.Workspace.Failure

/-!
What readings, writes and calls leave around their database. Where a database
has tables to begin with, nobody who works with it touches anything on the disk
but its file and those that go with it, and what is recorded of other files can
be checked against the disk as it was. A call that ends well has settled its
file in one transaction on the tables as they were when it began.
-/

namespace MediaCatalog

namespace Workspace

/-- For a reader at `here` the database at a place has the catalog, and around it
the disk is seen as it was. -/
def Steady (here : Path) (place : Place) (before : Disk) (catalog : Catalog)
    (ws : Workspace) : Prop :=
  ws.here = here ∧ Disk.Steady place before catalog ws.disk

variable {ws : Workspace} {store : Store} {here : Path} {place : Place} {before : Disk}
  {catalog : Catalog}

theorem steady_of_tables (htables : ws.tables? store = some catalog) :
    ∃ place, store.path.databasePlace? ws.here = some place ∧
      Steady ws.here place ws.disk catalog ws := by
  rw [tables?, Disk.tablesNamed?_eq] at htables
  obtain ⟨place, hplace, htables⟩ := Option.bind_eq_some_iff.mp htables
  obtain ⟨file, hfile⟩ := Disk.file_of_tables? htables
  exact ⟨place, hplace, rfl, htables, Disk.SameBut.refl hfile⟩

theorem Steady.tables?_eq (hsteady : Steady here place before catalog ws)
    (hplace : store.path.databasePlace? here = some place) : ws.tables? store = some catalog := by
  obtain ⟨rfl, htables, -⟩ := hsteady
  rw [tables?, Disk.tablesNamed?_eq, hplace]
  exact htables

/-- Whether there is anything at a path does not change, unless it leads to a
file that goes with the database. -/
theorem Steady.present_eq (hsteady : Steady here place before catalog ws) {path : String}
    (hpath : (Path.ofText path).placeFrom here ∉ place.companions) :
    ws.present path = before.present here (.ofText path) := by
  obtain ⟨rfl, -, hsame⟩ := hsteady
  exact hsame.present_eq hpath

end Workspace

namespace Store

/-- The path leads to a file that goes with the database. -/
def Accompanied (store : Store) (here path : Path) : Prop :=
  ∃ place, store.path.databasePlace? here = some place ∧ path.placeFrom here ∈ place.companions

/-- The path leads to the database, or to a file that goes with it. -/
def Owns (store : Store) (here path : Path) : Prop :=
  ∃ place, store.path.databasePlace? here = some place ∧
    path.placeFrom here ∈ place :: place.companions

theorem placeFrom_of_not_owns {store : Store} {here path : Path} {place : Place}
    (hplace : store.path.databasePlace? here = some place) (hclear : ¬ store.Owns here path) :
    path.placeFrom here ≠ place ∧ path.placeFrom here ∉ place.companions :=
  ⟨fun hown => hclear ⟨place, hplace, hown ▸ List.mem_cons_self⟩,
    fun hown => hclear ⟨place, hplace, List.mem_cons_of_mem _ hown⟩⟩

open Workspace (Steady)

variable {α : Type} {store : Store} {here : Path} {place : Place} {manner : Manner}
  {before : Disk} {catalog : Catalog} {tells : α → Prop}

theorem keeps_onDisk_steady {deed : DiskDeed α}
    (hdeed : Keeps (Disk.Steady place before catalog) deed tells) :
    Keeps (Steady here place before catalog) (onDisk deed) tells := by
  rintro ws ⟨hhere, hholds⟩
  obtain ⟨hleft, htells⟩ := hdeed ws.disk hholds
  rw [outcome_onDisk]
  refine ⟨⟨hhere, hleft⟩, ?_⟩
  intro value hvalue
  apply htells
  cases hanswer : (outcome deed ws.disk).1 with
  | ok other =>
      rw [hanswer] at hvalue
      exact congrArg Except.ok (Except.ok.inj hvalue)
  | error fault =>
      rw [hanswer] at hvalue
      cases hvalue

theorem proceed_steady (connection : Connection) (writing : Bool) :
    Keeps (Steady here place before catalog) (connection.proceed writing) fun _ => True := by
  refine keeps_get_bind fun ws _ => ?_
  split
  · exact keeps_throw _
  · exact keeps_pure trivial

/-- Others find the tables that a write leaves. -/
theorem finish_steady {ws : Workspace} (hsteady : Steady here place before catalog ws)
    (reading : Reading) (left : Catalog) :
    Steady here place before left
      (ws.perform ((Connection.file place manner).finish reading (some left))).2 := by
  simp only [Connection.finish, Workspace.perform_bind, Workspace.perform_get]
  have hended := outcome_onDisk ((Connection.file place manner).endWrite reading (some left)
    ws.clock) ws
  rw [outcome] at hended
  rw [Workspace.perform, hended]
  exact ⟨hsteady.1, Connection.endWrite_steady hsteady.2 reading left ws.clock⟩

section Named

variable (hplace : store.path.databasePlace? here = some place)

include hplace

theorem connect_steady :
    Keeps (Steady here place before catalog) store.connect fun connection =>
      ∃ manner, connection = .file place manner := by
  refine keeps_get_bind fun ws hws => keeps_onDisk_steady ?_
  rw [hws.1]
  exact Connection.start_there hplace (fun disk hdisk => Disk.file_of_tables? hdisk.1) ws.clock

theorem read_steady (table : Table) :
    Keeps (Steady here place before catalog) (store.read table) fun found => found = catalog := by
  refine (connect_steady hplace).bind ?_
  rintro _ ⟨manner, rfl⟩
  refine (proceed_steady _ false).bind fun _ _ => ?_
  refine keeps_get_bind fun ws _ => ?_
  refine (keeps_onDisk_steady (Connection.read_aside Connection.steady_setsAside
    (fun disk hdisk => hdisk.1) ws.clock)).bind fun reading hreading => ?_
  refine (keeps_onDisk_steady (Connection.leave_aside Connection.steady_setsAside _)).bind
    fun _ _ => ?_
  split
  · rename_i found hfound
    exact keeps_pure (Option.some.inj (hfound.symm.trans hreading))
  · exact keeps_throw _

theorem beginWrite_steady :
    Keeps (Steady here place before catalog) store.beginWrite fun begun =>
      (∃ manner, begun.1 = .file place manner) ∧ begun.2.tables = some catalog := by
  refine (connect_steady hplace).bind ?_
  rintro _ ⟨manner, rfl⟩
  refine (proceed_steady _ true).bind fun _ _ => ?_
  refine keeps_get_bind fun ws _ => ?_
  refine (keeps_onDisk_steady (Connection.beginWrite_aside Connection.steady_setsAside
    (fun disk hdisk => hdisk.1) ws.clock)).bind fun reading hreading => ?_
  exact keeps_pure ⟨⟨manner, rfl⟩, hreading⟩

variable {ws between : Workspace} {connection : Connection} {reading : Reading}

theorem steady_of_begun (hsteady : Steady here place before catalog ws)
    (hbegun : ws.perform store.beginWrite = (.ok (connection, reading), between)) :
    (∃ manner, connection = .file place manner) ∧ reading.tables = some catalog ∧
      Steady here place before catalog between := by
  have hkept : Steady here place before catalog (ws.perform store.beginWrite).2 ∧
      ∀ begun, (ws.perform store.beginWrite).1 = .ok begun →
        (∃ manner, begun.1 = .file place manner) ∧ begun.2.tables = some catalog :=
    beginWrite_steady hplace ws hsteady
  rw [hbegun] at hkept
  obtain ⟨hbetween, htells⟩ := hkept
  obtain ⟨hconnection, htables⟩ := htells _ rfl
  exact ⟨hconnection, htables, hbetween⟩

/-- A transaction that can begin answers if its change is not refused, and leaves
what that leaves. -/
theorem write_steady (hsteady : Steady here place before catalog ws)
    (hbegun : ws.perform store.beginWrite = (.ok (connection, reading), between))
    (bare : Except CatalogFault α) {change : Catalog → Except CatalogFault (α × Catalog)}
    {value : α} {left : Catalog} (hchange : change catalog = .ok (value, left)) :
    ∃ after, ws.perform (store.write bare change) = (.ok value, after) ∧
      Steady here place before left after := by
  obtain ⟨⟨manner, rfl⟩, htables, hbetween⟩ := steady_of_begun hplace hsteady hbegun
  let finish := (Connection.file place manner).finish reading (some left)
  obtain ⟨⟨⟩, hanswer⟩ : ∃ value, (between.perform finish).1 = .ok value :=
    finish_answers (.file place manner) reading (some left) between
  have hended : between.perform finish = (.ok ⟨⟩, (between.perform finish).2) :=
    Prod.ext hanswer rfl
  refine ⟨(between.perform finish).2, ?_, finish_steady hbetween reading left⟩
  simp only [Store.write, Workspace.perform_bind, hbegun, htables, hchange]
  rw [hended]
  rfl

/-- However a transaction ends whose change is not refused, the tables are as they
were, or as it leaves them. -/
theorem steady_of_write (hsteady : Steady here place before catalog ws)
    (bare : Except CatalogFault α) {change : Catalog → Except CatalogFault (α × Catalog)}
    {value : α} {left : Catalog} (hchange : change catalog = .ok (value, left)) :
    ∃ kept, (kept = catalog ∨ kept = left) ∧
      Steady here place before kept (ws.perform (store.write bare change)).2 := by
  cases hbegun : ws.perform store.beginWrite with
  | mk answer between =>
      cases answer with
      | error fault =>
          have hkept : Steady here place before catalog (ws.perform store.beginWrite).2 :=
            (beginWrite_steady hplace ws hsteady).1
          refine ⟨catalog, Or.inl rfl, ?_⟩
          simp only [Store.write, Workspace.perform_bind, hbegun]
          rwa [hbegun] at hkept
      | ok begun =>
          obtain ⟨after, hwritten, hafter⟩ := write_steady hplace hsteady hbegun bare hchange
          exact ⟨left, Or.inr rfl, by rwa [hwritten]⟩

end Named

end Store

namespace Workspace

/-- One transaction for a file, with which a call ends well, leads from the one
catalog to the other. Whether there is anything at a path is as on the disk
`before`, unless it leads to a file that goes with the database. -/
def Settles (here : Path) (place : Place) (before : Disk) (seen : Sighting)
    (catalog left : Catalog) : Prop :=
  ∃ present supply digest id registry,
    (∀ path, (Path.ofText path).placeFrom here ∉ place.companions →
      present path = before.present here (.ofText path)) ∧
    Registry.reconcile present ⟨catalog, supply⟩ seen digest = some (id, registry) ∧
    registry.catalog = left

variable {ws : Workspace} {store : Store} {here : Path} {place : Place} {before : Disk}
  {catalog : Catalog} {maxRetries : Nat} {call : Call} {id : MediaId}

theorem seen_advance : (ws.advance store maxRetries call).1.seen = call.seen := by
  rcases advance_cases ws store maxRetries call with ⟨fault, hended⟩ | ⟨around, registry, -, hnext⟩
  · rw [hended]
    rfl
  · rw [hnext, Call.seen_next]

/-- Only a transaction ends a call well. -/
theorem not_ok_of_next {around : Surroundings} {registry : Registry} (hpending : call.Pending)
    (hstage : ∀ failed digest, call.stage ≠ .commit failed digest) (id : MediaId) :
    (call.next maxRetries around registry).1.stage ≠ .done (.ok id) := by
  rcases @Call.next_cases call maxRetries around registry with
    ⟨-, hnot⟩ | ⟨failed, digest, _, hcommit, -, -⟩
  · exact hnot hpending id
  · exact absurd hcommit (hstage failed digest)

/-- A step with which a call ends well is its transaction. Any other leaves the
tables. -/
theorem advance_steady (hplace : store.path.databasePlace? here = some place)
    (hsteady : Steady here place before catalog ws) (hpending : call.Pending) :
    (Steady here place before catalog (ws.advance store maxRetries call).2 ∧
      ∀ id, (ws.advance store maxRetries call).1.stage ≠ .done (.ok id)) ∨
    ∃ id left, (ws.advance store maxRetries call).1.stage = .done (.ok id) ∧
      Settles here place before call.seen catalog left ∧
      Steady here place before left (ws.advance store maxRetries call).2 := by
  cases hstage : call.stage with
  | done answer => exact absurd hstage (hpending answer)
  | hash failed =>
      left
      rw [advance_hash hstage false ⟨catalog, ws.supply⟩]
      exact ⟨hsteady, not_ok_of_next hpending (by simp [hstage])⟩
  | lookUp failed =>
      left
      have hread : Steady here place before catalog (ws.perform (store.read .files)).2 :=
        (Store.read_steady hplace .files ws hsteady).1
      cases hfound : ws.perform (store.read .files) with
      | mk answer between =>
          rw [hfound] at hread
          cases answer with
          | ok found =>
              rw [advance_lookUp hstage hfound (ws.surroundings false) ws.supply]
              exact ⟨hread, not_ok_of_next hpending (by simp [hstage])⟩
          | error fault =>
              simp only [advance, hstage, hfound]
              exact ⟨hread, fun id => by simp [Call.goTo]⟩
  | commit failed digest =>
      cases hfound : ws.perform store.beginWrite with
      | mk answer between =>
          cases answer with
          | error fault =>
              left
              have hkept : Steady here place before catalog (ws.perform store.beginWrite).2 :=
                (Store.beginWrite_steady hplace ws hsteady).1
              rw [hfound] at hkept
              simp only [advance, hstage, hfound]
              split
              · exact ⟨hkept, fun id => Call.retry_not_ok⟩
              · exact ⟨hkept, fun id => by simp [Call.goTo]⟩
          | ok begun =>
              obtain ⟨connection, reading⟩ := begun
              obtain ⟨⟨manner, rfl⟩, htables, hbetween⟩ :=
                Store.steady_of_begun hplace hsteady hfound
              have hadvanced : ws.advance store maxRetries call = _ :=
                advance_commit hstage hfound htables
              rw [hadvanced]
              have hended (left : Catalog) (supply : IdSupply) : Steady here place before left
                  { (between.perform ((Connection.file place manner).finish reading
                      (some left))).2 with supply } :=
                Store.finish_steady hbetween reading left
              rcases @Call.next_cases call maxRetries (between.surroundings false)
                  ⟨catalog, between.supply⟩ with
                ⟨hkept, hnot⟩ | ⟨_, digest, id, _, hanswer, hdone⟩
              · left
                rw [hkept]
                exact ⟨hended catalog between.supply, hnot hpending⟩
              · right
                refine ⟨id, _, hdone, ⟨between.present, _, digest, id, _, ?_, hanswer, rfl⟩,
                  hended _ _⟩
                intro path hpath
                exact hbetween.present_eq hpath

/-- A call for a file starts with what the file is seen to be. -/
theorem startFileCall_seen {path : Path} (hhere : ws.here = here)
    (habsolute : Path.absolute? here path = some path)
    (hcall : ws.startFileCall path = .ok call) :
    ∃ key stat, path.text? = some key ∧ ws.disk.stat here path = .ok stat ∧
      call = .start ⟨key, stat.size, stat.modified⟩ := by
  subst hhere
  unfold startFileCall at hcall
  cases hstat : ws.disk.stat ws.here path with
  | error fault => simp [hstat] at hcall
  | ok stat =>
      cases htext : path.text? with
      | none =>
          simp [hstat, startCall, key, absolute, habsolute, htext, bind, Except.bind, throw,
            throwThe, MonadExceptOf.throw] at hcall
      | some key =>
          simp only [hstat, startCall_of_absolute habsolute htext, Except.ok.injEq] at hcall
          exact ⟨key, stat, rfl, rfl, hcall.symm⟩

namespace Settles

variable {seen : Sighting} {left : Catalog} (hpaths : catalog.PathsDistinct)
  (hsettles : Settles here place before seen catalog left)

include hpaths hsettles

theorem settlement : ∃ present supply digest id registry new gone,
    (∀ path, (Path.ofText path).placeFrom here ∉ place.companions →
      present path = before.present here (.ofText path)) ∧
    Registry.Settlement present ⟨catalog, supply⟩ registry seen digest id new gone ∧
    registry.catalog = left := by
  obtain ⟨present, supply, digest, id, registry, hpresent, hanswer, hleft⟩ := hsettles
  obtain ⟨new, gone, hsettled⟩ := Registry.reconcile_settlement hpaths hanswer
  exact ⟨present, supply, digest, id, registry, new, gone, hpresent, hsettled, hleft⟩

theorem pathsDistinct : left.PathsDistinct := by
  obtain ⟨_, _, _, _, _, _, _, -, hsettled, rfl⟩ := settlement hpaths hsettles
  exact hsettled.paths

/-- The file that was settled is on record as it was seen. -/
theorem record?_seen : ∃ record, left.record? seen.path = some record ∧
    record.missing = false ∧ record.size = seen.size ∧ record.modified = seen.modified := by
  obtain ⟨_, _, _, _, _, new, _, -, hsettled, rfl⟩ := settlement hpaths hsettles
  exact ⟨new, hsettled.record?_seen, hsettled.live, hsettled.size, hsettled.modified⟩

/-- The record of another file stays as it is if the file is there. -/
theorem record?_other {key : String} (hother : key ≠ seen.path)
    (hclear : (Path.ofText key).placeFrom here ∉ place.companions)
    (hthere : before.present here (.ofText key) = true) :
    left.record? key = catalog.record? key := by
  obtain ⟨_, _, _, _, _, _, _, hpresent, hsettled, rfl⟩ := settlement hpaths hsettles
  rcases hsettled.record?_other hpaths hother with hkept | ⟨-, hgone⟩
  · exact hkept
  · rw [hpresent key hclear, hthere] at hgone
    cases hgone

end Settles

end Workspace

end MediaCatalog
