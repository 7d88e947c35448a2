import MediaCatalog.Proofs.Disk.Names
import MediaCatalog.Proofs.Workspace.Elsewhere
import MediaCatalog.Workspace.Schedule

/-!
Files resolved side by side, by whatever schedule. A file is tracked if its
record is live and tells its size and time. A turn tracks at most one file more,
that of the call which it ends well, and loses none. So if all calls end well all
files are tracked, in whichever order they took their turns and however often
they stood in each other's way.
-/

namespace MediaCatalog

/-- A file has a live record with the size and time that it has on the disk. -/
def Catalog.Tracks (catalog : Catalog) (disk : Disk) (here path : Path) : Prop :=
  ∃ key record, path.text? = some key ∧ catalog.record? key = some record ∧
    record.missing = false ∧ disk.stat here path = .ok ⟨record.size, record.modified⟩

/-- What the first catalog tracks the second tracks, but for files that go with
the database. -/
def Catalog.Retained (store : Store) (here : Path) (before : Disk) (catalog left : Catalog) :
    Prop :=
  ∀ path, ¬ store.Owns here path → catalog.Tracks before here path → left.Tracks before here path

namespace Workspace

variable {ws : Workspace} {store : Store} {here path other : Path} {place : Place}
  {before : Disk} {catalog left : Catalog} {maxRetries : Nat} {blocked : Bool} {call : Call}
  {task : Task} {tasks : List Task}

/-- To settle a file as it is leaves it tracked, and every other that was. -/
theorem Settles.tracks (hplace : store.path.databasePlace? here = some place)
    (hpaths : catalog.PathsDistinct) {key : String} {stat : Stat} (htext : path.text? = some key)
    (hstat : ¬ store.Owns here path → before.stat here path = .ok stat)
    (hsettles : Settles here place before ⟨key, stat.size, stat.modified⟩ catalog left)
    (hclear : ¬ store.Owns here other) (hother : other = path ∨ catalog.Tracks before here other) :
    left.Tracks before here other := by
  by_cases hsame : other = path
  · subst hsame
    obtain ⟨record, hrecord, hlive, hsize, hmodified⟩ := Settles.record?_seen hpaths hsettles
    refine ⟨key, record, htext, hrecord, hlive, ?_⟩
    rw [hsize, hmodified]
    exact hstat hclear
  · obtain ⟨own, record, hown, hrecord, hlive, hfile⟩ := hother.resolve_left hsame
    refine ⟨own, record, hown, ?_, hlive, hfile⟩
    have hne : own ≠ key := by
      rintro rfl
      exact hsame ((Path.ofText_of_text? hown).symm.trans (Path.ofText_of_text? htext))
    rw [← hrecord]
    refine Settles.record?_other hpaths hsettles hne ?_ ?_
    · rw [Path.ofText_of_text? hown]
      exact (Store.placeFrom_of_not_owns hplace hclear).2
    · rw [Path.ofText_of_text? hown]
      exact Disk.present_of_stat hfile

/-- The tables are those of a catalog that tracks what another did. -/
structure Reached (store : Store) (here : Path) (place : Place) (before : Disk)
    (catalog left : Catalog) (ws : Workspace) : Prop where
  steady : Steady here place before left ws
  paths : left.PathsDistinct
  retained : catalog.Retained store here before left

theorem Reached.refl (hsteady : Steady here place before catalog ws)
    (hpaths : catalog.PathsDistinct) : Reached store here place before catalog catalog ws :=
  ⟨hsteady, hpaths, fun _ _ htracked => htracked⟩

theorem Reached.trans {later : Workspace} {last : Catalog}
    (hfirst : Reached store here place before catalog left ws)
    (hsecond : Reached store here place before left last later) :
    Reached store here place before catalog last later where
  steady := hsecond.steady
  paths := hsecond.paths
  retained path hclear htracked :=
    hsecond.retained path hclear (hfirst.retained path hclear htracked)

/-- A call for a file has seen it as it is, and if it ended well the file is
tracked. -/
structure Pursues (store : Store) (here : Path) (before : Disk) (catalog : Catalog) (path : Path)
    (call : Call) : Prop where
  seen : ∃ key stat, path.text? = some key ∧ call.seen = ⟨key, stat.size, stat.modified⟩ ∧
    (¬ store.Owns here path → before.stat here path = .ok stat)
  settled : ∀ id, call.stage = .done (.ok id) → ¬ store.Owns here path →
    catalog.Tracks before here path

theorem Pursues.retained (hcall : Pursues store here before catalog path call)
    (hretained : catalog.Retained store here before left) :
    Pursues store here before left path call where
  seen := hcall.seen
  settled id hdone hclear := hretained path hclear (hcall.settled id hdone hclear)

/-- Whatever a call does but end well changes nothing of this. -/
theorem Pursues.of_not_ok {next : Call} (hcall : Pursues store here before catalog path call)
    (hseen : next.seen = call.seen) (hnot : ∀ id, next.stage ≠ .done (.ok id)) :
    Pursues store here before catalog path next where
  seen := hseen ▸ hcall.seen
  settled id hdone := absurd hdone (hnot id)

section Calls

variable (hplace : store.path.databasePlace? here = some place)
  (hsteady : Steady here place before catalog ws) (hpaths : catalog.PathsDistinct)

include hplace hsteady

theorem pursues_start (habsolute : Path.absolute? here path = some path)
    (hcall : ws.startFileCall path = .ok call) : Pursues store here before catalog path call := by
  obtain ⟨key, stat, htext, hstat, rfl⟩ := startFileCall_seen hsteady.1 habsolute hcall
  refine ⟨⟨key, stat, htext, rfl, fun hclear => ?_⟩, fun id hdone => by cases hdone⟩
  obtain ⟨hdatabase, hcompanion⟩ := Store.placeFrom_of_not_owns hplace hclear
  exact hsteady.2.2.symm.stat_of_stat hdatabase hcompanion hstat

include hpaths

theorem Pursues.advance (hcall : Pursues store here before catalog path call)
    (maxRetries : Nat) :
    ∃ left, Reached store here place before catalog left (ws.advance store maxRetries call).2 ∧
      Pursues store here before left path (ws.advance store maxRetries call).1 := by
  by_cases hpending : call.Pending
  · rcases advance_steady hplace hsteady hpending with
      ⟨hkept, hnot⟩ | ⟨id, left, hdone, hsettles, hleft⟩
    · exact ⟨catalog, .refl hkept hpaths, hcall.of_not_ok seen_advance hnot⟩
    · obtain ⟨key, stat, htext, hseen, hstat⟩ := hcall.seen
      rw [hseen] at hsettles
      have htracks {other : Path} (hclear : ¬ store.Owns here other)
          (hother : other = path ∨ catalog.Tracks before here other) :
          left.Tracks before here other :=
        hsettles.tracks hplace hpaths htext hstat hclear hother
      refine ⟨left, ⟨hleft, hsettles.pathsDistinct hpaths, fun other hclear htracked =>
        htracks hclear (Or.inr htracked)⟩, ?_, fun _ _ hclear => htracks hclear (Or.inl rfl)⟩
      exact ⟨key, stat, htext, seen_advance.trans hseen, hstat⟩
  · obtain ⟨answer, hdone⟩ : ∃ answer, call.stage = .done answer := by
      simpa [Call.Pending] using hpending
    simp only [Workspace.advance, hdone]
    exact ⟨catalog, .refl hsteady hpaths, hcall⟩

theorem Pursues.takeTurn (hcall : Pursues store here before catalog path call)
    (maxRetries : Nat) (blocked : Bool) :
    ∃ left,
      Reached store here place before catalog left
        (ws.takeTurn store maxRetries blocked call).2 ∧
      Pursues store here before left path (ws.takeTurn store maxRetries blocked call).1 := by
  unfold Workspace.takeTurn
  split
  · refine ⟨catalog, .refl hsteady hpaths, hcall.of_not_ok (Call.seen_retry ..) fun id => ?_⟩
    exact Call.retry_not_ok
  · exact hcall.advance hplace hsteady hpaths maxRetries

/-- The induction is on the steps that the call has before it. -/
theorem Pursues.finishCall (hcall : Pursues store here before catalog path call)
    {id : MediaId} (hok : (ws.finishCall store maxRetries call).1 = .ok id) :
    ∃ left, Reached store here place before catalog left
        (ws.finishCall store maxRetries call).2 ∧
      (¬ store.Owns here path → left.Tracks before here path) := by
  fun_induction Workspace.finishCall ws store maxRetries call generalizing catalog with
  | case1 ws call answer hdone =>
      exact ⟨catalog, .refl hsteady hpaths, hcall.settled id (hdone.trans (congrArg _ hok))⟩
  | case2 ws call failed hstage ih | case3 ws call failed hstage ih
  | case4 ws call failed digest hstage ih =>
      obtain ⟨between, hreached, hnext⟩ := hcall.advance hplace hsteady hpaths maxRetries
      obtain ⟨left, hleft, htracked⟩ := ih hreached.steady hreached.paths hnext hok
      exact ⟨left, hreached.trans hleft, htracked⟩

end Calls

/-- How far a task has come. -/
structure Fits (store : Store) (here : Path) (before : Disk) (catalog : Catalog) (task : Task) :
    Prop where
  absolute : Path.absolute? here task.path = some task.path
  pursued : ∀ call, task.started = some (.ok call) →
    Pursues store here before catalog task.path call

theorem Fits.retained (hfits : Fits store here before catalog task)
    (hretained : catalog.Retained store here before left) :
    Fits store here before left task where
  absolute := hfits.absolute
  pursued call hcall := (hfits.pursued call hcall).retained hretained

theorem path_goOn : (ws.goOn store maxRetries blocked task).1.path = task.path := by
  unfold goOn
  split <;> rfl

/-- A turn leaves every task its file. -/
theorem paths_goOn {i : Nat} (htask : tasks[i]? = some task) :
    (tasks.set i (ws.goOn store maxRetries blocked task).1).map Task.path =
      tasks.map Task.path := by
  obtain ⟨hlt, rfl⟩ := List.getElem?_eq_some_iff.mp htask
  rw [List.map_set, path_goOn, ← List.getElem_map Task.path (h := by simpa using hlt)]
  exact List.set_getElem_self _

/-- A blocked turn of a call is a step of it that meets another writer. -/
theorem Serves.takeTurn {around : Surroundings} {Holds : Registry → Workspace → Prop}
    {registry : Registry} (call : Call) (hserves : Serves store around call.seen.path Holds)
    (hholds : Holds registry ws) (maxRetries : Nat) (blocked : Bool) :
    let next := call.next maxRetries { around with locked := blocked } registry
    (ws.takeTurn store maxRetries blocked call).1 = next.1 ∧
      Holds next.2 (ws.takeTurn store maxRetries blocked call).2 := by
  have hfree := hserves.advance hholds maxRetries
  cases blocked with
  | false =>
      have haround : { around with locked := false } = around := by rw [← hserves.unlocked]
      rw [haround]
      cases hstage : call.stage <;> simpa only [Workspace.takeTurn, hstage] using hfree
  | true =>
      cases hstage : call.stage with
      | commit failed digest =>
          simp only [Workspace.takeTurn, Call.next, hstage, Call.commit, if_true]
          exact ⟨trivial, hholds⟩
      | lookUp | hash | done =>
          simpa only [Workspace.takeTurn, Call.next, hstage] using hfree

section Tasks

variable (hplace : store.path.databasePlace? here = some place)
  (hsteady : Steady here place before catalog ws) (hpaths : catalog.PathsDistinct)

include hplace hsteady hpaths

theorem Fits.goOn (hfits : Fits store here before catalog task) (maxRetries : Nat)
    (blocked : Bool) :
    ∃ left, Reached store here place before catalog left
        (ws.goOn store maxRetries blocked task).2 ∧
      Fits store here before left (ws.goOn store maxRetries blocked task).1 := by
  unfold Workspace.goOn
  split
  · refine ⟨catalog, .refl hsteady hpaths, hfits.absolute, fun call hcall => ?_⟩
    exact pursues_start hplace hsteady hfits.absolute (Option.some.inj hcall)
  · exact ⟨catalog, .refl hsteady hpaths, hfits⟩
  · rename_i call hcall
    obtain ⟨left, hreached, hnext⟩ :=
      (hfits.pursued call hcall).takeTurn hplace hsteady hpaths maxRetries blocked
    refine ⟨left, hreached, hfits.absolute, ?_⟩
    rintro _ ⟨⟩
    exact hnext

/-- The induction is on the slots that are left. -/
theorem takeTurns_fits (maxRetries : Nat) (slots : List Slot)
    (hfits : ∀ task ∈ tasks, Fits store here before catalog task) :
    ∃ left, Reached store here place before catalog left
        (takeTurns store maxRetries slots tasks ws).2 ∧
      (∀ task ∈ (takeTurns store maxRetries slots tasks ws).1,
        Fits store here before left task) ∧
      (takeTurns store maxRetries slots tasks ws).1.map Task.path = tasks.map Task.path := by
  induction slots generalizing ws catalog tasks with
  | nil => exact ⟨catalog, .refl hsteady hpaths, hfits, rfl⟩
  | cons slot rest ih =>
      unfold takeTurns
      split
      · exact ih hsteady hpaths hfits
      · rename_i task htask
        have hmem : task ∈ tasks := List.mem_of_getElem? htask
        obtain ⟨between, hreached, hnext⟩ :=
          (hfits task hmem).goOn hplace hsteady hpaths maxRetries slot.blocked
        have hset : ∀ other ∈ tasks.set slot.task
            (ws.goOn store maxRetries slot.blocked task).1,
            Fits store here before between other := by
          intro other hother
          rcases List.mem_or_eq_of_mem_set hother with hkept | rfl
          · exact (hfits other hkept).retained hreached.retained
          · exact hnext
        obtain ⟨left, hleft, hall, hsame⟩ := ih hreached.steady hreached.paths hset
        exact ⟨left, hreached.trans hleft, hall, hsame.trans (paths_goOn htask)⟩

theorem Fits.finish (hfits : Fits store here before catalog task) {id : MediaId}
    (hok : (ws.finish store maxRetries task).1 = .ok id) :
    ∃ left, Reached store here place before catalog left (ws.finish store maxRetries task).2 ∧
      (¬ store.Owns here task.path → left.Tracks before here task.path) := by
  unfold Workspace.finish at hok ⊢
  cases hstarted : task.started with
  | none =>
      simp only [hstarted, resolveFile] at hok ⊢
      cases hcall : ws.startFileCall task.path with
      | error fault => simp [hcall] at hok
      | ok call =>
          simp only [hcall] at hok ⊢
          have hpursued := pursues_start hplace hsteady hfits.absolute hcall
          exact hpursued.finishCall hplace hsteady hpaths hok
  | some started =>
      cases started with
      | error fault => simp [hstarted] at hok
      | ok call =>
          simp only [hstarted] at hok ⊢
          exact (hfits.pursued call hstarted).finishCall hplace hsteady hpaths hok

/-- The induction is on the tasks that are left. -/
theorem finishAll_tracks (hfits : ∀ task ∈ tasks, Fits store here before catalog task)
    (hall : ∀ answer ∈ (finishAll store maxRetries tasks ws).1, ∃ id, answer = .ok id) :
    ∃ left, Reached store here place before catalog left
        (finishAll store maxRetries tasks ws).2 ∧
      ∀ task ∈ tasks, ¬ store.Owns here task.path → left.Tracks before here task.path := by
  induction tasks generalizing ws catalog with
  | nil => exact ⟨catalog, .refl hsteady hpaths, fun _ hnone => absurd hnone List.not_mem_nil⟩
  | cons task rest ih =>
      obtain ⟨hfirst, hrest⟩ := List.forall_mem_cons.mp hfits
      obtain ⟨⟨id, hok⟩, hlater⟩ := List.forall_mem_cons.mp hall
      obtain ⟨between, hreached, hsettled⟩ := hfirst.finish hplace hsteady hpaths hok
      obtain ⟨left, hleft, htracked⟩ := ih hreached.steady hreached.paths
        (fun other hother => (hrest other hother).retained hreached.retained) hlater
      refine ⟨left, hreached.trans hleft, List.forall_mem_cons.mpr ⟨fun hclear => ?_, htracked⟩⟩
      exact hleft.retained _ hclear (hsettled hclear)

/-- All files that were resolved are tracked, whatever the schedule. -/
theorem resolveTogether_tracks {files : List Path}
    (hwhole : ∀ file ∈ files, Path.absolute? here file = some file)
    (hall : ∀ answer ∈ (ws.resolveTogether store maxRetries files).1, ∃ id, answer = .ok id) :
    ∃ left, Reached store here place before catalog left
        (ws.resolveTogether store maxRetries files).2 ∧
      ∀ path ∈ files, ¬ store.Owns here path → left.Tracks before here path := by
  have hfits : ∀ task ∈ files.map fun path => ({ path } : Task),
      Fits store here before catalog task := by
    simp only [List.forall_mem_map]
    exact fun path hpath => ⟨hwhole path hpath, fun _ hnone => by cases hnone⟩
  obtain ⟨between, hreached, hlater, hsame⟩ :=
    takeTurns_fits hplace hsteady hpaths maxRetries ws.schedule hfits
  obtain ⟨left, hleft, htracked⟩ :=
    finishAll_tracks hplace hreached.steady hreached.paths hlater hall
  refine ⟨left, hreached.trans hleft, fun path hpath hclear => ?_⟩
  have hlisted : path ∈ (takeTurns store maxRetries ws.schedule
      (files.map fun path => ({ path } : Task)) ws).1.map Task.path := by
    rw [hsame]
    simpa using hpath
  obtain ⟨task, htask, rfl⟩ := List.mem_map.mp hlisted
  exact htracked task htask hclear

end Tasks

end Workspace

end MediaCatalog
