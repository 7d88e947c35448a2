import MediaCatalog.Proofs.Database.Untouched
import MediaCatalog.Proofs.Disk.Faces

/-!
What is around a database while somebody works with it. Connections write to its
file, and make and take away those that go with it; nothing else on the disk
changes, and no directory is made or taken away. So the database stays where it
is, and a path that leads to none of these files leads where it led before.
-/

namespace MediaCatalog

open Text

/-- A database is in none of the files that go with it. -/
theorem Place.not_mem_companions {place : Place} (hplace : place ≠ []) :
    place ∉ place.companions := by
  intro hmem
  obtain ⟨ending, hending, hbeside⟩ := companion_beside hmem
  obtain ⟨front, name, rfl⟩ := (List.eq_nil_or_concat' place).resolve_left hplace
  simp [beside, hending] at hbeside

/-- Another disk with the database at the same place: nothing but its file and
those that go with it is seen to differ, and neither are directories. -/
structure Disk.SameBut (place : Place) (before after : Disk) : Prop where
  elsewhere : ∀ other, other ≠ place → other ∉ place.companions →
    after.face? other = before.face? other
  directories : ∀ other, after.face? other = some none ↔ before.face? other = some none
  before : ∃ file, before.face? place = some (some file)
  after : ∃ file, after.face? place = some (some file)

namespace Disk.SameBut

variable {place own other : Place} {before after : Disk}

theorem refl {file : File} (hat : before.at? place = some (.file file)) :
    before.SameBut place before :=
  have hface : before.face? place = some (some file) := face?_eq_file.mpr hat
  ⟨fun _ _ _ => rfl, fun _ => Iff.rfl, ⟨file, hface⟩, ⟨file, hface⟩⟩

theorem symm (hsame : before.SameBut place after) : after.SameBut place before :=
  ⟨fun other hother hcompanion => (hsame.elsewhere other hother hcompanion).symm,
    fun other => (hsame.directories other).symm, hsame.after, hsame.before⟩

theorem place_ne_nil (hsame : before.SameBut place after) : place ≠ [] := by
  rintro rfl
  obtain ⟨file, hfile⟩ := hsame.after
  cases hfile

/-- Setting or removing a file of the database's own. -/
theorem setFile (hsame : before.SameBut place after) (hown : own ∈ place :: place.companions)
    (hnot : after.face? own ≠ some none) (file : Option File)
    (hkept : own = place → file.isSome) :
    before.SameBut place (after.setAt own (file.map .file)) := by
  obtain ⟨found, hfound⟩ := hsame.after
  have hbeside : ∃ name, own = place.dropLast ++ [name] := by
    rcases List.mem_cons.mp hown with rfl | hcompanion
    · exact ⟨_, (List.dropLast_append_getLast hsame.place_ne_nil).symm⟩
    · obtain ⟨ending, -, rfl⟩ := Place.companion_beside hcompanion
      exact ⟨_, rfl⟩
  obtain ⟨name, rfl⟩ := hbeside
  have hfront : after.face? place.dropLast = some none := face?_dropLast (by simp [hfound])
  have hseen := @face?_setFile after file _ name hfront hnot
  refine ⟨?_, ?_, hsame.before, ?_⟩
  · intro other hother hcompanion
    have hne : other ≠ place.dropLast ++ [name] := by
      rintro rfl
      exact (List.mem_cons.mp hown).elim hother hcompanion
    rw [hseen, if_neg hne, hsame.elsewhere other hother hcompanion]
  · intro other
    rw [hseen, ← hsame.directories other]
    split
    · rename_i hsame
      rw [hsame]
      cases file <;> simp [hnot]
    · rfl
  · rw [hseen]
    split
    · rename_i hplace
      obtain ⟨value, rfl⟩ := Option.isSome_iff_exists.mp (hkept hplace.symm)
      exact ⟨value, rfl⟩
    · exact ⟨found, hfound⟩

theorem removeFile (hsame : before.SameBut place after) (hown : own ∈ place.companions) :
    before.SameBut place (after.removeFile own) := by
  unfold Disk.removeFile
  split
  · rename_i file hat
    refine hsame.setFile (List.mem_cons_of_mem _ hown) ?_ none ?_
    · simp [face?_eq_file.mpr hat]
    · rintro rfl
      exact absurd hown (Place.not_mem_companions hsame.place_ne_nil)
  · exact hsame

theorem makeFile (hsame : before.SameBut place after) (hown : own ∈ place.companions)
    (bytes : ByteArray) (now : Int) : before.SameBut place (after.makeFile own bytes now) := by
  unfold Disk.makeFile
  split
  · rename_i hat
    refine hsame.setFile (List.mem_cons_of_mem _ hown) ?_ (some _) fun _ => rfl
    simp [face?_eq_none.mpr hat]
  · exact hsame

theorem removeLog (hsame : before.SameBut place after) :
    before.SameBut place (after.removeLog place) :=
  (hsame.removeFile (by simp [Place.companions])).removeFile (by simp [Place.companions])

theorem overwrite (hsame : before.SameBut place after) (file : File) :
    before.SameBut place (after.setAt place (some (.file file))) := by
  obtain ⟨found, hfound⟩ := hsame.after
  exact hsame.setFile List.mem_cons_self (by simp [hfound]) (some file) fun _ => rfl

end Disk.SameBut

namespace Place

/-- Where the parts of a path lead, if they lead anywhere. -/
theorem follow_next (place : Place) (part : Name) (rest : List Name) :
    (place.next part).follow (rest.filter (· ≠ Path.dot)) =
      place.follow ((part :: rest).filter (· ≠ Path.dot)) := by
  unfold next
  by_cases hdot : part = Path.dot
  · rw [if_pos hdot, List.filter_cons_of_neg (by simp [hdot])]
  · rw [if_neg hdot, List.filter_cons_of_pos (by simpa using hdot), follow]
    split <;> rfl

end Place

/-- Where a path leads, if it leads anywhere. -/
def Path.placeFrom (path here : Path) : Place :=
  (Disk.startOf here path).follow path.names

namespace Disk

variable {disk before after : Disk} {place found : Place} {here path : Path}

theorem follow_of_steps {start : Place} {parts : List Name}
    (hsteps : parts.foldlM disk.step start = .ok found) :
    found = start.follow (parts.filter (· ≠ Path.dot)) := by
  induction parts generalizing start with
  | nil => exact (Except.ok.inj hsteps).symm
  | cons part rest ih =>
      rw [List.foldlM_cons] at hsteps
      cases hstep : disk.step start part with
      | error fault =>
          rw [hstep] at hsteps
          cases hsteps
      | ok next =>
          rw [hstep] at hsteps
          obtain ⟨-, -, rfl, -⟩ := step_eq_ok.mp hstep
          rw [ih hsteps, Place.follow_next]

theorem place?_placeFrom (hplace : disk.place? here path = .ok found) :
    found = path.placeFrom here := by
  obtain ⟨-, -, -, hsteps, -⟩ := place?_eq_ok.mp hplace
  exact follow_of_steps hsteps

/-- Steps that lead somewhere lead there on any disk that has the same
directories, and something where they end. -/
theorem steps_congr (hdirectories : ∀ other, after.face? other = some none ↔
      before.face? other = some none)
    (hfound : before.face? found ≠ none → after.face? found ≠ none) {start : Place}
    {parts : List Name} (hsteps : parts.foldlM before.step start = .ok found) :
    parts.foldlM after.step start = .ok found := by
  induction parts generalizing start with
  | nil => exact hsteps
  | cons part rest ih =>
      rw [List.foldlM_cons] at hsteps ⊢
      cases hstep : before.step start part with
      | error fault =>
          rw [hstep] at hsteps
          cases hsteps
      | ok next =>
          rw [hstep] at hsteps
          have hrest : rest.foldlM before.step next = .ok found := hsteps
          obtain ⟨hstart, hshort, hnext, hsome⟩ := step_eq_ok.mp hstep
          have hlater : after.face? next ≠ none := by
            -- A part on the way leads to a directory, and only the last to what is found.
            cases rest with
            | nil =>
                obtain rfl : next = found := Except.ok.inj hrest
                exact hfound hsome
            | cons later rest =>
                have hinside : before.face? next = some none := by
                  rw [List.foldlM_cons] at hrest
                  cases hlater : before.step next later with
                  | error fault =>
                      rw [hlater] at hrest
                      cases hrest
                  | ok _ => exact (step_eq_ok.mp hlater).1
                rw [(hdirectories next).mpr hinside]
                simp
          rw [step_eq_ok.mpr ⟨(hdirectories start).mpr hstart, hshort, hnext, hlater⟩]
          exact ih hrest

namespace SameBut

variable (hsame : before.SameBut place after)

include hsame

/-- There is something where there was something before. -/
theorem face?_ne_none {other : Place} (hother : other ∉ place.companions) :
    before.face? other ≠ none ↔ after.face? other ≠ none := by
  by_cases hplace : other = place
  · subst hplace
    obtain ⟨old, hold⟩ := hsame.before
    obtain ⟨new, hnew⟩ := hsame.after
    simp [hold, hnew]
  · rw [hsame.elsewhere other hplace hother]

theorem place?_of_place? (hpath : path.placeFrom here ∉ place.companions)
    (hfound : before.place? here path = .ok found) : after.place? here path = .ok found := by
  rw [← place?_placeFrom hfound] at hpath
  obtain ⟨hempty, hnul, hlong, hsteps, hslash⟩ := place?_eq_ok.mp hfound
  have hsome := (hsame.face?_ne_none hpath).mp
  refine place?_eq_ok.mpr ⟨hempty, hnul, hlong, steps_congr hsame.directories hsome hsteps, ?_⟩
  intro hends file hface
  have hthere : before.face? found ≠ none :=
    (hsame.face?_ne_none hpath).mpr (by simp [hface])
  obtain ⟨seen, hseen⟩ := Option.ne_none_iff_exists'.mp hthere
  cases seen with
  | none =>
      rw [(hsame.directories found).mpr hseen] at hface
      cases hface
  | some old => exact hslash hends old hseen

theorem place?_iff (hpath : path.placeFrom here ∉ place.companions) :
    before.place? here path = .ok found ↔ after.place? here path = .ok found :=
  ⟨hsame.place?_of_place? hpath, hsame.symm.place?_of_place? hpath⟩

/-- A path that leads to no file beside the database leads to something as
before. -/
theorem present_eq (hpath : path.placeFrom here ∉ place.companions) :
    after.present here path = before.present here path := by
  rw [Bool.eq_iff_iff, present_iff, present_iff]
  constructor
  · rintro ⟨found, hfound, hsome⟩
    have hbefore := (hsame.place?_iff hpath).mpr hfound
    rw [← place?_placeFrom hfound] at hpath
    exact ⟨found, hbefore, (hsame.face?_ne_none hpath).mpr hsome⟩
  · rintro ⟨found, hfound, hsome⟩
    have hafter := (hsame.place?_iff hpath).mp hfound
    rw [← place?_placeFrom hfound] at hpath
    exact ⟨found, hafter, (hsame.face?_ne_none hpath).mp hsome⟩

/-- A path that leads elsewhere leads to a file of the same size and time. -/
theorem stat_of_stat {stat : Stat} (hdatabase : path.placeFrom here ≠ place)
    (hpath : path.placeFrom here ∉ place.companions) (hstat : before.stat here path = .ok stat) :
    after.stat here path = .ok stat := by
  obtain ⟨found, face, hfound, hface, rfl⟩ := stat_eq_ok.mp hstat
  have hafter := (hsame.place?_iff hpath).mp hfound
  rw [← place?_placeFrom hfound] at hdatabase hpath
  exact stat_eq_ok.mpr
    ⟨found, face, hafter, (hsame.elsewhere found hdatabase hpath).trans hface, rfl⟩

end SameBut

end Disk

/-- The place of the database that has a name for a reader at `here`, unless it
is one that passes. -/
def Path.databasePlace? (name here : Path) : Option Place :=
  match Location.ofName name with
  | .ok (.file target _) =>
      some (Place.follow [] ((if target.isAbsolute then [] else here.names) ++ target.names))
  | _ => none

theorem Disk.tablesNamed?_eq (disk : Disk) (here name : Path) :
    disk.tablesNamed? here name = (name.databasePlace? here).bind disk.tables? := by
  unfold tablesNamed? Path.databasePlace?
  cases Location.ofName name with
  | error fault => rfl
  | ok location => cases location <;> rfl

theorem Disk.file_of_tables? {disk : Disk} {place : Place} {catalog : Catalog}
    (htables : disk.tables? place = some catalog) : ∃ file, disk.at? place = some (.file file) := by
  unfold tables? at htables
  split at htables
  · rename_i file hat
    exact ⟨file, hat⟩
  · cases htables

namespace Connection

variable {before : Disk} {place : Place} {manner : Manner} {here name : Path}

theorem sameBut_setsAside : (Connection.file place manner).SetsAside (before.SameBut place) :=
  SetsAside.file
    ⟨fun hcompanion hsame => hsame.removeFile hcompanion,
      fun hcompanion hsame bytes now => hsame.makeFile hcompanion bytes now⟩

theorem SetsAside.and {connection : Connection} {holds also : Disk → Prop}
    (hholds : connection.SetsAside holds) (halso : connection.SetsAside also) :
    connection.SetsAside fun disk => holds disk ∧ also disk := by
  intro place manner hconnection
  have hfirst := hholds place manner hconnection
  have hsecond := halso place manner hconnection
  exact ⟨fun hcompanion hdisk =>
      ⟨hfirst.removeFile hcompanion hdisk.1, hsecond.removeFile hcompanion hdisk.2⟩,
    fun hcompanion hdisk bytes now =>
      ⟨hfirst.makeFile hcompanion hdisk.1 bytes now, hsecond.makeFile hcompanion hdisk.2 bytes now⟩⟩

/-- A connection to a database that is there changes nothing when it begins. -/
theorem start_there {holds : Disk → Prop} (hname : name.databasePlace? here = some place)
    (hthere : ∀ disk, holds disk → ∃ file, disk.at? place = some (.file file)) (now : Int) :
    Keeps holds (start here name now) fun connection =>
      ∃ manner, connection = .file place manner := by
  unfold start
  dsimp only
  refine (keeps_liftExcept _).bind fun location hlocation => ?_
  cases location with
  | passing readOnly common => simp [Path.databasePlace?, hlocation] at hname
  | file target manner =>
      refine keeps_get_bind fun disk hdisk => ?_
      obtain ⟨file, hfile⟩ := hthere disk hdisk
      split
      · rename_i found hfound
        have hplace : found = place := by
          rw [databasePlace?_follow hfound]
          simpa [Path.databasePlace?, hlocation] using hname
        subst hplace
        split
        on_goal 1 => refine Keeps.guarded (fun _ => keeps_throw _) ?_
        all_goals
          rw [hfile]
          exact keeps_pure ⟨manner, rfl⟩
      · exact keeps_throw _

end Connection

/-- The database at a place has the catalog, and around it the disk is seen as it
was. -/
def Disk.Steady (place : Place) (before : Disk) (catalog : Catalog) (disk : Disk) : Prop :=
  disk.tables? place = some catalog ∧ before.SameBut place disk

namespace Connection

/-- Only to keep tables changes them. -/
theorem steady_setsAside {catalog : Catalog} :
    (Connection.file place manner).SetsAside (Disk.Steady place before catalog) :=
  (tables_setsAside (.file place manner) (some catalog)).and sameBut_setsAside

/-- The tables that a write leaves are in the file of the database. -/
theorem endWrite_steady {catalog : Catalog} {disk : Disk}
    (hsteady : Disk.Steady place before catalog disk) (reading : Reading) (left : Catalog)
    (now : Int) :
    Disk.Steady place before left
      (outcome ((Connection.file place manner).endWrite reading (some left) now) disk).2 := by
  have htables : (Connection.file place manner).tables? disk = some catalog := hsteady.1
  refine ⟨endWrite_some_leaves htables reading left now, ?_⟩
  have hkept : Keeps (before.SameBut place)
      ((Connection.file place manner).endWrite reading (some left) now) fun _ => True :=
    endWrite_aside sameBut_setsAside
      (fun journal => keeps_modify fun disk hsame => hsame.overwrite _) reading
  exact (hkept disk hsteady.2).1

end Connection

end MediaCatalog
