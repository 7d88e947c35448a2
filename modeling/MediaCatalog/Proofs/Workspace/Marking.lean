import MediaCatalog.Proofs.Catalog.Marks
import MediaCatalog.Proofs.Workspace.Attempts
import MediaCatalog.Proofs.Workspace.Elsewhere
import MediaCatalog.Proofs.Workspace.Upkeep

/-!
Marking what is gone. The cleaner looks for the files of a catalog before it
begins to write, and writes one record after the other. As long as nobody comes
in between, what it marks is what is gone when it is done, and it finds nothing
when it is called again; so what is found afterwards is there.
-/

namespace MediaCatalog

namespace Store

open Workspace (Steady)

variable {store : Store} {here : Path} {place : Place} {before : Disk} {catalog : Catalog}
  {ws between : Workspace}

/-- What a reading hands over, and leaves. -/
theorem steady_of_read (hplace : store.path.databasePlace? here = some place)
    (hsteady : Steady here place before catalog ws) {table : Table} {found : Catalog}
    (hread : ws.perform (store.read table) = (.ok found, between)) :
    found = catalog ∧ Steady here place before catalog between := by
  have hkept : Steady here place before catalog (ws.perform (store.read table)).2 ∧
      ∀ other, (ws.perform (store.read table)).1 = .ok other → other = catalog :=
    read_steady hplace table ws hsteady
  rw [hread] at hkept
  exact ⟨hkept.2 found rfl, hkept.1⟩

/-- The cleaner marks what is gone, if it can write where anything is. -/
theorem markMissing_steady (hplace : store.path.databasePlace? here = some place)
    (hsteady : Steady here place before catalog ws) (hpaths : catalog.PathsDistinct)
    {present : String → Bool} (hpresent : ∀ path, before.present here (.ofText path) = present path)
    (hown : ∀ file ∈ catalog.live, (Path.ofText file.path).placeFrom here ∉ place.companions)
    {found : Catalog} (hread : ws.perform (store.read .files) = (.ok found, between))
    (hfree : catalog.gone present ≠ [] →
      ∃ begun left, between.perform store.beginWrite = (.ok begun, left)) :
    ∃ after, ws.perform store.markMissing = (.ok (catalog.gone present).length, after) ∧
      Steady here place before (catalog.marked present) after := by
  obtain ⟨rfl, hbetween⟩ := steady_of_read hplace hsteady hread
  have hsame : ∀ file ∈ found.live, between.present file.path = present file.path :=
    fun file hfile => (hbetween.present_eq (hown file hfile)).trans (hpresent file.path)
  have hgone : found.gone between.present = found.gone present := Catalog.gone_congr hsame
  have hmarks : found.markMissing between.present =
      ((found.gone present).length, found.marked present) := by
    rw [Catalog.markMissing_eq hpaths, hgone, Catalog.marked_congr hsame]
  simp only [markMissing, Workspace.perform_bind, hread, Workspace.perform_get,
    Catalog.gonePaths_isEmpty, hgone]
  cases hnone : found.gone present with
  | nil =>
      rw [Catalog.marked_of_none hnone]
      exact ⟨between, rfl, hbetween⟩
  | cons file rest =>
      have hsome : found.gone present ≠ [] := by simp [hnone]
      obtain ⟨⟨connection, reading⟩, left, hbegun⟩ := hfree hsome
      let change (catalog : Catalog) : Except CatalogFault (Nat × Catalog) :=
        .ok (catalog.markAll (found.gonePaths between.present))
      have hchange : change found = .ok ((found.gone present).length, found.marked present) :=
        congrArg Except.ok hmarks
      have hwritten := write_steady hplace hbetween hbegun (.error (.database (.noTable .files)))
        hchange
      rw [hnone] at hwritten
      exact hwritten

end Store

namespace Workspace

open Query

variable {ws between : Workspace} {store : Store} {catalog : Catalog}

/-- Where the tables can be read, and written if anything is gone, the cleaner
marks the records that have no mark and nothing at their path, counts them, and
changes nothing else in any table. Whatever can be read of the database then is
this: another call marks nothing and changes nothing, and what a search finds,
be it asked in whatever way, has live paths, at all of which there is something.
The files that go with the database come and go with its readers, so no live
record is taken to be of one of these. -/
theorem markMissing_exact (hread : ws.perform (store.read .files) = (.ok catalog, between))
    (hpaths : catalog.PathsDistinct)
    (hown : ∀ file ∈ catalog.live, ¬ store.Accompanied ws.here (.ofText file.path))
    (hfree : catalog.gone ws.present ≠ [] →
      ∃ begun left, between.perform store.beginWrite = (.ok begun, left)) :
    ∃ after, ws.perform store.markMissing = (.ok (catalog.gone ws.present).length, after) ∧
      after.tables? store = some (catalog.marked ws.present) ∧
      (∀ path, ¬ store.Accompanied ws.here (.ofText path) →
        after.present path = ws.present path) ∧
      (∀ again left, after.perform (store.read .files) = (.ok again, left) →
        ∃ last, after.perform store.markMissing = (.ok 0, last) ∧
          last.tables? store = some (catalog.marked ws.present)) ∧
      ∀ query orders page ids left,
        after.perform (store.search query orders page) = (.ok ids, left) →
        ∀ again later, left.perform (store.read .files) = (.ok again, later) →
          ∀ id ∈ ids, again.livePathsOf id ≠ [] ∧
            ∀ path ∈ again.livePathsOf id, later.present path = true := by
  obtain ⟨place, hplace, hsteady⟩ := steady_of_tables (Store.tables?_of_read
    (congrArg Prod.fst hread : (ws.perform (store.read .files)).1 = .ok catalog))
  have hclear {path : String} (hpath : ¬ store.Accompanied ws.here (.ofText path)) :
      (Path.ofText path).placeFrom ws.here ∉ place.companions :=
    fun hcompanion => hpath ⟨place, hplace, hcompanion⟩
  have hpresent (path : String) :
      ws.disk.present ws.here (.ofText path) = ws.present path := rfl
  obtain ⟨after, hmarked, hafter⟩ := Store.markMissing_steady hplace hsteady hpaths hpresent
    (fun file hfile => hclear (hown file hfile)) hread hfree
  refine ⟨after, hmarked, hafter.tables?_eq hplace, ?_, ?_, ?_⟩
  · intro path hpath
    exact hafter.present_eq (hclear hpath)
  · intro again left hagain
    have hgone := @Catalog.gone_marked catalog ws.present
    obtain ⟨last, hnothing, hlast⟩ := Store.markMissing_steady hplace hafter
      (Catalog.pathsDistinct_marked hpaths) hpresent
      (fun file hfile => hclear (hown file (Catalog.mem_live_marked.mp hfile).1)) hagain
      (fun hsome => absurd hgone hsome)
    rw [Catalog.marked_of_none hgone] at hlast
    rw [hgone] at hnothing
    exact ⟨last, hnothing, hlast.tables?_eq hplace⟩
  · intro query orders page ids left hsearch again later hagain id hid
    obtain ⟨-, -, found, hfound, hids⟩ := perform_search_eq_ok.mp hsearch
    obtain ⟨rfl, hleft⟩ := Store.steady_of_read hplace hafter hfound
    obtain ⟨rfl, hlater⟩ := Store.steady_of_read hplace hleft hagain
    obtain ⟨hsome, hlisted⟩ := Catalog.listed_of_search hids id hid
    refine ⟨hsome, fun path hpath => ?_⟩
    obtain ⟨file, hfile, rfl⟩ := hlisted path hpath
    obtain ⟨hlive, hthere⟩ := Catalog.mem_live_marked.mp hfile
    rw [hlater.present_eq (hclear (hown file hlive))]
    exact hthere

theorem databasePlace?_store (here : Path) :
    Workspace.store.path.databasePlace? here = some [databaseName] := by
  obtain ⟨hname, habsolute, hnames, hdots, -⟩ := databasePath_spec
  simp [Workspace.store, Path.databasePlace?, hname, habsolute, hnames, Place.follow, hdots]

/-- A file that is there, one that is gone, and one that was found gone before. -/
def depleted : Catalog where
  files := [⟨"/a", 1, 7, "5a", .numbered "#" 0, false⟩, ⟨"/b", 1, 7, "5b", .numbered "#" 1, false⟩,
    ⟨"/c", 1, 7, "5b", .numbered "#" 2, true⟩]
  canonical := [⟨"5a", .numbered "#" 0⟩, ⟨"5b", .numbered "#" 1⟩]

theorem depleted_not_accompanied : ∀ file ∈ depleted.live,
    ¬ Store.Accompanied Workspace.store shelf.here (.ofText file.path) := by
  rintro file hfile ⟨place, hplace, hcompanion⟩
  obtain rfl := Option.some.inj (hplace.symm.trans (databasePlace?_store shelf.here))
  revert file
  decide +kernel

theorem markMissing_exact_depleted :
    let ws := stocked depleted
    let left : Catalog := { depleted with
      files := [⟨"/a", 1, 7, "5a", .numbered "#" 0, false⟩,
        ⟨"/b", 1, 7, "5b", .numbered "#" 1, true⟩, ⟨"/c", 1, 7, "5b", .numbered "#" 2, true⟩] }
    ∃ after last searched later, ws.perform Workspace.store.markMissing = (.ok 1, after) ∧
      after.tables? Workspace.store = some left ∧
      after.perform Workspace.store.markMissing = (.ok 0, last) ∧
      last.tables? Workspace.store = some left ∧
      after.perform (Workspace.store.search (compile "f~/") [] {}) =
        (.ok [.numbered "#" 0], searched) ∧
      searched.perform (Workspace.store.read .files) = (.ok left, later) ∧
      left.livePathsOf (.numbered "#" 0) = ["/a"] ∧ later.present "/a" = true := by
  intro ws left
  have hpresent : ws.present = fun path => (diskWith {} 0 [bystander]).present shelf.here
      (.ofText path) := by
    funext path
    exact present_diskWith shelf.here (.ofText path)
  have hgone : depleted.gone ws.present = [⟨"/b", 1, 7, "5b", .numbered "#" 1, false⟩] := by
    rw [hpresent]
    decide +kernel
  have hmarked : depleted.marked ws.present = left := by
    rw [Catalog.marked, hgone]
    decide +kernel
  have hpaths : depleted.PathsDistinct := by
    unfold Catalog.PathsDistinct
    decide
  obtain ⟨after, hfirst, htables, -, hagain, hfound⟩ := markMissing_exact (stocked_read depleted)
    hpaths depleted_not_accompanied fun _ => ⟨_, _, stocked_beginWrite depleted⟩
  have hhosts : Hosts shelf.here 0 [bystander] ⟨depleted, shelf.supply⟩ ws :=
    ⟨⟨0, rfl⟩, rfl, rfl, rfl⟩
  obtain ⟨-, hleft⟩ := hhosts.markMissing apart_bystander
  rw [hfirst] at hleft
  obtain ⟨modified, hdisk⟩ := hleft.disk
  have hmissing : (depleted.markMissing ws.present).2 = left :=
    (congrArg Prod.snd (Catalog.markMissing_eq hpaths)).trans hmarked
  have hread : after.perform (Workspace.store.read .files) = (.ok left, after) :=
    hmissing ▸ perform_storeRead apart_bystander hdisk .files
  obtain ⟨last, hsecond, hlast⟩ := hagain _ _ hread
  rw [hgone] at hfirst
  rw [hmarked] at htables hlast
  have hmatching : left.matching (compile "f~/").clauses =
      [(⟨"/a", 1, 7, "5a", .numbered "#" 0, false⟩, .numbered "#" 0)] := by decide
  have hsearch : after.perform (Workspace.store.search (compile "f~/") [] {}) =
      (.ok [.numbered "#" 0], after) := by
    refine perform_search_eq_ok.mpr ⟨by decide, by decide, left, hread, ?_⟩
    rw [Catalog.search_of_comparable (by decide), Catalog.found_of_single hmatching]
    rfl
  have hpath : left.livePathsOf (.numbered "#" 0) = ["/a"] := by decide +kernel
  obtain ⟨-, hthere⟩ := hfound _ _ _ _ _ hsearch _ _ hread _ (List.mem_singleton_self _)
  exact ⟨after, last, after, after, hfirst, htables, hsecond, hlast, hsearch, hread, hpath,
    hthere "/a" (hpath ▸ List.mem_singleton_self _)⟩

end Workspace

end MediaCatalog
