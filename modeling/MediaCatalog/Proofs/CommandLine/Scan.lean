import MediaCatalog.CommandLine.Execute
import MediaCatalog.Proofs.Workspace.Listing
import MediaCatalog.Proofs.Workspace.Marking
import MediaCatalog.Proofs.Workspace.Schedule

/-!
What a scan leaves. It resolves the files that are listed side by side, and marks
the records of those that are gone at its end, which are none of the files that it
resolved. So a scan in which every call ended well leaves a live record of each
file, with its size and time, whatever the schedule.
-/

namespace MediaCatalog

namespace Workspace

variable {ws : Workspace} {store : Store} {here path : Path} {place : Place} {before : Disk}
  {catalog : Catalog}

/-- No record of a file that is there is marked. -/
theorem tracks_markAll (hplace : store.path.databasePlace? here = some place)
    (hclear : ¬ store.Owns here path) (hsteady : Steady here place before catalog ws)
    (htracked : catalog.Tracks before here path) :
    (catalog.markAll (catalog.gonePaths ws.present)).2.Tracks before here path := by
  obtain ⟨key, record, htext, hrecord, hlive, hstat⟩ := htracked
  have hpath : (Path.ofText key).placeFrom here ∉ place.companions := by
    rw [Path.ofText_of_text? htext]
    exact (Store.placeFrom_of_not_owns hplace hclear).2
  have hthere : ws.present key = true := by
    rw [hsteady.present_eq hpath, Path.ofText_of_text? htext]
    exact Disk.present_of_stat hstat
  refine ⟨key, record, htext, ?_, hlive, hstat⟩
  rw [Catalog.record?_markAll (Catalog.not_mem_gonePaths hthere), hrecord]

theorem tracks_markMissing (hplace : store.path.databasePlace? here = some place)
    (hsteady : Steady here place before catalog ws) :
    ∃ left, Steady here place before left (ws.perform store.markMissing).2 ∧
      catalog.Retained store here before left := by
  cases hread : ws.perform (store.read .files) with
  | mk answer between =>
      cases answer with
      | error fault =>
          have hkept : Steady here place before catalog (ws.perform (store.read .files)).2 :=
            (Store.read_steady hplace .files ws hsteady).1
          refine ⟨catalog, ?_, fun _ _ htracked => htracked⟩
          simp only [Store.markMissing, perform_bind, hread]
          rwa [hread] at hkept
      | ok found =>
          obtain ⟨rfl, hbetween⟩ := Store.steady_of_read hplace hsteady hread
          let change (catalog : Catalog) : Except CatalogFault (Nat × Catalog) :=
            .ok (catalog.markAll (found.gonePaths between.present))
          have hchange : change found = .ok (found.markAll (found.gonePaths between.present)) := rfl
          simp only [Store.markMissing, perform_bind, hread, perform_get]
          split
          · exact ⟨found, hbetween, fun _ _ htracked => htracked⟩
          · obtain ⟨kept, hkept, hleft⟩ := Store.steady_of_write hplace hbetween
              (.error (.database (.noTable .files))) hchange
            refine ⟨kept, hleft, fun path hclear htracked => ?_⟩
            rcases hkept with rfl | rfl
            · exact htracked
            · exact tracks_markAll hplace hclear hbetween htracked

end Workspace

namespace CommandLine

variable {desk left : Desk} {session : Session} {arguments : ScanArguments} {ws : Workspace}

theorem printLine_keeps (line : String) :
    Keeps (fun desk => desk.workspace = ws) (printLine line) fun _ => True :=
  keeps_modify fun _ hdesk => hdesk

theorem remark_keeps (message : String) :
    Keeps (fun desk => desk.workspace = ws) (remark message) fun _ => True :=
  keeps_modify fun _ hdesk => hdesk

theorem outcome_perform {α : Type} (trying : Option String) (deed : Deed α) (desk : Desk) :
    outcome (perform trying deed) desk =
      ((desk.workspace.perform deed).1.mapError (.catalog trying),
        { desk with workspace := (desk.workspace.perform deed).2 }) := by
  have hget : outcome (get : Run Desk) desk = (.ok desk, desk) := rfl
  rw [perform, outcome_bind, hget]
  dsimp only
  cases desk.workspace.perform deed with
  | mk answer after => cases answer <;> rfl

theorem perform_leaves {α : Type} (trying : Option String) (deed : Deed α) :
    Leaves (fun desk => desk.workspace = ws) (perform trying deed) fun _ desk =>
      desk.workspace = (ws.perform deed).2 := by
  rintro desk rfl value -
  rw [outcome_perform]

/-- A reader who is where the workspace is gets the absolute form of a path. -/
theorem absolute_keeps {path root : Path} (hroot : Path.absolute? ws.here path = some root) :
    Keeps (fun desk => desk.workspace = ws) (absolute path) fun found => found = root := by
  refine keeps_get_bind fun desk hdesk state hstate => ?_
  subst hdesk
  have hfound : desk.workspace.absolute path = .ok root := by simp [Workspace.absolute, hroot]
  rw [outcome_perform, hfound, hstate]
  refine ⟨rfl, ?_⟩
  rintro found ⟨⟩
  rfl

theorem outcome_attemptAll (session : Session) (files : List Path) (desk : Desk) :
    let together :=
      desk.workspace.resolveTogether session.store session.settings.maxRetries files
    outcome (attemptAll session files) desk =
      (.ok together.1, { desk with workspace := together.2 }) :=
  rfl

theorem attemptAll_leaves (session : Session) (files : List Path) :
    Leaves (fun desk => desk.workspace = ws) (attemptAll session files) fun _ desk =>
      desk.workspace =
        (ws.resolveTogether session.store session.settings.maxRetries files).2 := by
  rintro desk rfl answers -
  rw [outcome_attemptAll]

/-- What a scan does to the workspace, if it comes to its end. -/
theorem scan_leaves {root : Path} (hroot : Path.absolute? ws.here
      (arguments.directory.getD session.library) = some root) :
    Leaves (fun desk => desk.workspace = ws) (scan session arguments) fun _ left =>
      left.workspace = ((ws.resolveTogether session.store session.settings.maxRetries
        (ws.filesBelow session.store root)).2.perform session.store.markMissing).2 := by
  refine (absolute_keeps hroot).bind_leaves ?_
  rintro _ rfl
  refine keeps_get.bind_leaves fun _ _ => keeps_get.bind_leaves ?_
  rintro desk rfl
  dsimp only
  split
  on_goal 1 => refine (remark_keeps _).bind_leaves fun _ _ => ?_
  all_goals
    refine (attemptAll_leaves session _).bind fun answers => ?_
    refine (perform_leaves none session.store.markMissing).bind fun marked => ?_
    refine Keeps.leaves_holding ?_
    split
    · refine Keeps.guarded (fun _ => remark_keeps _) ?_
      refine (printLine_keeps _).bind fun _ _ => (printLine_keeps _).bind fun _ _ => ?_
      refine (printLine_keeps _).bind fun _ _ => (printLine_keeps _).bind fun _ _ => ?_
      exact (printLine_keeps _).bind fun _ _ => keeps_get_bind fun _ _ => printLine_keeps _
    · exact keeps_pure trivial

section Complete

open Text
open Workspace (PassedOver isSkipped)

variable {store : Store} {root : Path} {node : Node}

/-- A scan that comes to its end, and to whose files every call ended well, leaves a
live record of each with its size and time, which are as they were before. Left out
are files that go with the database, which are written to meanwhile. -/
theorem tracks_scan (hnode : ws.disk.find? ws.here root = .ok node) (hproper : ws.disk.Proper)
    {catalog : Catalog} (hhere : ws.here.Whole)
    (hroot : Path.absolute? ws.here (arguments.directory.getD session.library) = some root)
    (htables : ws.tables? session.store = some catalog) (hpaths : catalog.PathsDistinct)
    (hall : ∀ answer ∈ (ws.resolveTogether session.store session.settings.maxRetries
      (ws.filesBelow session.store root)).1, ∃ id, answer = .ok id)
    (hdesk : desk.workspace = ws) (hscan : outcome (scan session arguments) desk = (.ok ⟨⟩, left)) :
    ∃ known, left.workspace.tables? session.store = some known ∧
      ∀ names file, node.at? names = some (.file file) →
        root.joinNames names ∈ ws.filesBelow session.store root →
        ¬ session.store.Owns ws.here (root.joinNames names) →
        known.Tracks left.workspace.disk ws.here (root.joinNames names) ∧
          left.workspace.disk.stat ws.here (root.joinNames names) =
            .ok (Disk.statOf (some file)) := by
  have hleft := scan_leaves hroot desk hdesk ⟨⟩ (congrArg Prod.fst hscan)
  rw [hscan] at hleft
  dsimp only at hleft
  obtain ⟨place, hplace, hsteady⟩ := Workspace.steady_of_tables htables
  have hwhole : ∀ file ∈ ws.filesBelow session.store root,
      Path.absolute? ws.here file = some file := by
    intro file hfile
    obtain ⟨names, hnames, rfl⟩ := Workspace.joinNames_of_listed hnode hproper hfile
    have hfile := Path.whole_joinNames (Path.whole_of_absolute? hhere hroot)
      fun name hname => (hnames name hname).1
    exact hfile.2 ws.here
  obtain ⟨between, hbetween, hresolved⟩ :=
    Workspace.resolveTogether_tracks hplace hsteady hpaths hwhole hall
  obtain ⟨known, hknown, hmarked⟩ := Workspace.tracks_markMissing hplace hbetween.steady
  rw [← hleft] at hknown
  refine ⟨known, hknown.tables?_eq hplace, fun names file hat hlisted hclear => ?_⟩
  obtain ⟨key, record, htext, hrecord, hlive, hstat⟩ :=
    hmarked _ hclear (hresolved _ hlisted hclear)
  obtain ⟨hdatabase, hcompanion⟩ := Store.placeFrom_of_not_owns hplace hclear
  have hstill := hknown.2.2.stat_of_stat hdatabase hcompanion hstat
  refine ⟨⟨key, record, htext, hrecord, hlive, hstill⟩, hstill.trans (congrArg Except.ok ?_)⟩
  exact Workspace.stat_of_listed hnode hproper hat hstat

/-- Every file at or below a path is listed, once, but for what is passed over: what
has the name under which libraries keep their databases, what stands beside the
database with a name that begins with the database's, and all below. So a scan that
comes to its end, and to whose files every call ended well, leaves a live record of
each of these files, with the size and time that it had and still has, whatever the
schedule of the workspace, unless the file is one that the scan itself writes to,
under a path that does not look like it. -/
theorem scan_complete (hnode : ws.disk.find? ws.here root = .ok node)
    (hproper : ws.disk.Proper) (hincluded : isSkipped store.path root = false) :
    let files := ws.filesBelow store root
    files.Nodup ∧
      (∀ path, path ∈ files ↔ ∃ names file, node.at? names = some (.file file) ∧
        path = root.joinNames names ∧ ∀ front name rest, names = front ++ name :: rest →
          ¬ PassedOver store.path root front name) ∧
      ∀ session arguments desk left catalog, session.store = store → desk.workspace = ws →
        ws.here.Whole →
        Path.absolute? ws.here (arguments.directory.getD session.library) = some root →
        ws.tables? store = some catalog → catalog.PathsDistinct →
        ∀ answers between, outcome (attemptAll session files) desk = (.ok answers, between) →
        (∀ answer ∈ answers, ∃ id, answer = .ok id) →
        outcome (scan session arguments) desk = (.ok ⟨⟩, left) →
        ∃ known, left.workspace.tables? store = some known ∧
          ∀ names file, node.at? names = some (.file file) → root.joinNames names ∈ files →
            ¬ store.Owns ws.here (root.joinNames names) →
            known.Tracks left.workspace.disk ws.here (root.joinNames names) ∧
              left.workspace.disk.stat ws.here (root.joinNames names) =
                .ok (Disk.statOf (some file)) := by
  refine ⟨Workspace.nodup_filesBelow hnode hproper,
    fun path => Workspace.mem_filesBelow hnode hproper hincluded, ?_⟩
  rintro session arguments desk left catalog rfl rfl hhere hroot htables hpaths answers between
    hanswers hall hscan
  rw [outcome_attemptAll] at hanswers
  obtain rfl := Except.ok.inj (congrArg Prod.fst hanswers)
  exact tracks_scan hnode hproper hhere hroot htables hpaths hall rfl hscan

/-- A file in a directory of the library, and one in a directory for databases. -/
def albums : List Entry :=
  [.directory (Utf8.encode "d")
      [.file (Utf8.encode "b") { content := .plain .empty, modified := 9 }],
    .directory (Utf8.encode ".mediadex")
      [.file (Utf8.encode "b") { content := .plain .empty, modified := 9 }]]

/-- The file is on record, and marked. -/
def marked : Catalog where
  files := [⟨"/d/b", 0, 9, "5b", .numbered "#" 0, true⟩]
  canonical := [⟨"5b", .numbered "#" 0⟩]

/-- The call is started, looks the file up, and finds another transaction under
way at its first attempt. -/
def library : Workspace :=
  { Workspace.shelf with
    disk := Workspace.diskWith marked 0 albums
    schedule := [⟨0, false⟩, ⟨0, false⟩, ⟨0, true⟩] }

/-- What the names in the library tell. -/
theorem library_spec :
    Workspace.Apart albums ∧ library.disk.Proper ∧ Workspace.databaseName ≠ Utf8.encode "d" ∧
      isSkipped Workspace.store.path library.here = false ∧
      library.filesBelow Workspace.store library.here = [.ofText "/d/b"] := by
  simp only [Workspace.Apart, Disk.Proper, library, Workspace.diskWith, albums, Entry.AllProper,
    Entry.Proper, Path.LeadsDown, Path.IsPart]
  decide +kernel

/-- What the paths of the library and of the listed file tell. -/
theorem listed_spec :
    library.here.Whole ∧ (Path.ofText "/d/b").Whole ∧ (Path.ofText "/d/b").text? = some "/d/b" ∧
      library.here.joinNames [Utf8.encode "d", Utf8.encode "b"] = .ofText "/d/b" ∧
      library.disk.stat library.here (.ofText "/d/b") = .ok ⟨0, 9⟩ ∧
      (Path.ofText "/d/b").placeFrom library.here ∉
        [Workspace.databaseName] :: Place.companions [Workspace.databaseName] := by
  simp only [Path.whole_iff]
  decide +kernel

theorem library_at? :
    (Node.directory library.disk.entries).at? [Utf8.encode "d", Utf8.encode "b"] =
      some (.file { content := .plain .empty, modified := 9 }) := by
  obtain ⟨-, -, hdatabase, -⟩ := library_spec
  refine (Entry.at?_cons _ albums _ _).trans ((if_neg hdatabase).trans ?_)
  refine (Entry.at?_cons _ _ _ _).trans ((if_pos rfl).trans ?_)
  exact (Entry.at?_cons _ [] _ _).trans (if_pos rfl)

theorem library_call :
    library.startFileCall (.ofText "/d/b") = .ok (.start ⟨"/d/b", 0, 9⟩) := by
  obtain ⟨-, hwhole, htext, -, hstat, -⟩ := listed_spec
  simp only [Workspace.startFileCall, hstat]
  exact Workspace.startCall_of_absolute (hwhole.2 library.here) htext

/-- The file was seen as it is on record, so that it need not be read. -/
theorem library_resolved :
    (library.resolveTogether Workspace.store 5 [.ofText "/d/b"]).1 = [.ok (.numbered "#" 0)] ∧
      ∃ registry, Workspace.Hosts library.here 0 albums registry
        (library.resolveTogether Workspace.store 5 [.ofText "/d/b"]).2 := by
  have hhosts : Workspace.Hosts library.here 0 albums ⟨marked, library.supply⟩ library :=
    ⟨⟨0, rfl⟩, rfl, rfl, rfl⟩
  have hserves : Workspace.Serves Workspace.store (Workspace.around library.here 0 albums) "/d/b"
      (Workspace.Hosts library.here 0 albums) :=
    Workspace.hosts_serves library_spec.1 (by decide +kernel)
  let started : Call := .start ⟨"/d/b", 0, 9⟩
  let looked : Call := ⟨⟨"/d/b", 0, 9⟩, .commit 0 none, 0⟩
  let retried : Call := ⟨⟨"/d/b", 0, 9⟩, .lookUp 1, 0⟩
  obtain ⟨hlooked, hfirst⟩ := Workspace.Serves.takeTurn started hserves hhosts 5 false
  replace hlooked : (library.takeTurn Workspace.store 5 false started).1 = looked := hlooked
  obtain ⟨hblocked, hsecond⟩ := Workspace.Serves.takeTurn looked hserves hfirst 5 true
  replace hblocked : ((library.takeTurn Workspace.store 5 false started).2.takeTurn
      Workspace.store 5 true looked).1 = retried := hblocked
  obtain ⟨hanswer, hleft⟩ :=
    @Workspace.Serves.finishCall _ _ 5 retried _ _ _ _ hserves rfl hsecond
  have htogether : library.resolveTogether Workspace.store 5 [.ofText "/d/b"] =
      Workspace.finishAll Workspace.store 5 [⟨.ofText "/d/b", some (.ok retried)⟩]
        ((library.takeTurn Workspace.store 5 false started).2.takeTurn
          Workspace.store 5 true looked).2 := by
    have hschedule : library.schedule = [⟨0, false⟩, ⟨0, false⟩, ⟨0, true⟩] := rfl
    simp [Workspace.resolveTogether, hschedule, Workspace.takeTurns, Workspace.goOn, library_call,
      hlooked, hblocked, started]
  rw [htogether]
  refine ⟨congrArg (fun answer => [answer]) (hanswer.trans ?_), _, hleft⟩
  decide +kernel

def librarySession : Session :=
  ⟨library.here, Workspace.store, {}⟩

theorem library_attempted :
    outcome (attemptAll librarySession (library.filesBelow Workspace.store library.here))
        { workspace := library } =
      (.ok [.ok (.numbered "#" 0)],
        { workspace := (library.resolveTogether Workspace.store 5 [.ofText "/d/b"]).2 }) := by
  obtain ⟨-, -, -, -, hlisted⟩ := library_spec
  rw [hlisted, outcome_attemptAll, ← library_resolved.1]
  rfl

theorem library_scanned :
    (outcome (scan librarySession { quiet := true }) { workspace := library }).1 = .ok ⟨⟩ := by
  obtain ⟨-, registry, hhosts⟩ := library_resolved
  have hmarked := (hhosts.markMissing library_spec.1).1
  have hroot : outcome (absolute librarySession.library) { workspace := library } =
      (.ok library.here, { workspace := library }) := by
    have hfound : library.absolute librarySession.library = .ok library.here := by
      simp [Workspace.absolute, librarySession, listed_spec.1.2 library.here]
    rw [absolute, outcome_bind]
    change outcome (perform none (liftExcept (library.absolute librarySession.library)))
      { workspace := library } = _
    rw [outcome_perform, hfound]
    rfl
  have hget (desk : Desk) : outcome (get : Run Desk) desk = (.ok desk, desk) := rfl
  have hstore : librarySession.store = Workspace.store := rfl
  unfold scan
  rw [outcome_bind, Option.getD_none, hroot]
  simp only [outcome_bind, hget, hstore, Bool.not_true, Bool.and_false, Bool.false_eq_true,
    if_false, library_attempted, outcome_perform, hmarked]
  rfl

/-- A scan of the library clears the mark, and passes over the other file. -/
theorem scan_complete_library :
    ∃ left known record,
      library.filesBelow librarySession.store library.here = [.ofText "/d/b"] ∧
      outcome (scan librarySession { quiet := true }) { workspace := library } = (.ok ⟨⟩, left) ∧
      left.workspace.tables? librarySession.store = some known ∧
      known.record? "/d/b" = some record ∧ record.missing = false ∧ record.size = 0 ∧
      record.modified = 9 := by
  obtain ⟨-, hproper, -, hincluded, hlisted⟩ := library_spec
  obtain ⟨hwhole, -, htold, hpath, -, hclear⟩ := listed_spec
  obtain ⟨left, hscan⟩ : ∃ left,
      outcome (scan librarySession { quiet := true }) { workspace := library } = (.ok ⟨⟩, left) :=
    ⟨_, Prod.ext library_scanned rfl⟩
  obtain ⟨-, -, hcomplete⟩ := scan_complete
    (rfl : library.disk.find? library.here library.here = .ok (.directory library.disk.entries))
    hproper hincluded
  obtain ⟨known, htables, htracked⟩ := hcomplete librarySession { quiet := true }
    { workspace := library } left marked rfl rfl hwhole (hwhole.2 library.here)
    (Workspace.tables?_diskWith rfl) (by unfold Catalog.PathsDistinct; decide) _ _
    library_attempted (by simp) hscan
  have howned : ¬ librarySession.store.Owns library.here (.ofText "/d/b") := by
    rintro ⟨place, hplace, hown⟩
    obtain rfl :=
      Option.some.inj (hplace.symm.trans (Workspace.databasePlace?_store library.here))
    exact hclear hown
  obtain ⟨⟨key, record, htext, hrecord, hlive, hstat⟩, hstill⟩ :=
    htracked _ _ library_at? (by rw [hpath]; exact hlisted ▸ List.mem_singleton_self _)
      (hpath.symm ▸ howned)
  rw [hpath] at htext
  have hkey : key = "/d/b" := Option.some.inj (htext.symm.trans htold)
  have hfile := Except.ok.inj (hstat.symm.trans hstill)
  exact ⟨left, known, record, hlisted, hscan, htables, hkey ▸ hrecord, hlive,
    congrArg Stat.size hfile, congrArg Stat.modified hfile⟩

/-- Beside a database called photo, a directory called photos. -/
def gallery : Workspace :=
  { Workspace.shelf with
    disk := ⟨[.file (Utf8.encode "photo") (Workspace.databaseWith {} 0),
      .directory (Utf8.encode "photos")
        [.file (Utf8.encode "a.jpg") { content := .plain .empty, modified := 9 }]]⟩ }

theorem neighbour_unlisted :
    let root : Path := ⟨[Path.slash]⟩
    let database := Path.ofText "/photo"
    let names := [Utf8.encode "photos", Utf8.encode "a.jpg"]
    ∃ node file, gallery.disk.find? gallery.here root = .ok node ∧
      node.at? names = some (.file file) ∧ isSkipped database root = false ∧
      Utf8.encode Store.directoryName ∉ names ∧
      root.joinNames names ∉ [database, .ofText "/photo-wal", .ofText "/photo-shm"] ∧
      root.joinNames names ∉ gallery.filesBelow ⟨database⟩ root := by
  intro root database names
  refine ⟨.directory gallery.disk.entries, { content := .plain .empty, modified := 9 }, rfl, ?_⟩
  constructor
  · have hdatabase : Utf8.encode "photo" ≠ Utf8.encode "photos" := by decide +kernel
    refine (Entry.at?_cons _ _ _ _).trans ((if_neg hdatabase).trans ?_)
    refine (Entry.at?_cons _ [] _ _).trans ((if_pos rfl).trans ?_)
    exact (Entry.at?_cons _ [] _ _).trans (if_pos rfl)
  · decide +kernel

end Complete

end CommandLine

end MediaCatalog
