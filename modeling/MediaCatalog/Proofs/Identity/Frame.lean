import MediaCatalog.Proofs.Identity.Interleaving
import MediaCatalog.Proofs.Identity.Undisturbed

/-!
What is left alone. A call changes the record of its own path and adds at most
one canonical identifier; of the other records it takes away those of files
that are not there, and nothing else. So a file that stays where it is keeps
its record through everything that is done about other files, and its
identifier with it.
-/

namespace MediaCatalog

namespace Registry

section Transaction

variable {present : String → Bool} {before after : Registry} {seen : Sighting}
  {digest : Option String} {id : MediaId} {new : FileRecord} {gone : List FileRecord}

namespace Settlement

variable (hsettled : Settlement present before after seen digest id new gone)

include hsettled

theorem kept_or_absent {file : FileRecord} (hfile : file ∈ before.catalog.files)
    (hother : file.path ≠ seen.path) :
    file ∈ after.catalog.files ∨
      (∀ other ∈ after.catalog.files, other.path ≠ file.path) ∧ present file.path = false := by
  rw [← hsettled.path] at hother
  by_cases hstale : ∃ stale ∈ gone, file.path = stale.path
  · obtain ⟨stale, hmem, hpath⟩ := hstale
    have habsent : present stale.path = false := (hsettled.allotment.gone_absent stale hmem).2
    refine Or.inr ⟨?_, hpath ▸ habsent⟩
    intro other hafter hsame
    rcases (hsettled.files other).mp hafter with rfl | ⟨-, -, hkept⟩
    · exact hother hsame.symm
    · exact hkept stale hmem (hsame.trans hpath)
  · refine Or.inl ((hsettled.files file).mpr (Or.inr ⟨hfile, hother, ?_⟩))
    intro stale hmem hpath
    exact hstale ⟨stale, hmem, hpath⟩

theorem mem_before {file : FileRecord} (hfile : file ∈ after.catalog.files)
    (hother : file.path ≠ seen.path) : file ∈ before.catalog.files := by
  rcases (hsettled.files file).mp hfile with rfl | ⟨hbefore, -, -⟩
  · exact absurd hsettled.path hother
  · exact hbefore

theorem canonical_grows :
    after.catalog.canonical = before.catalog.canonical ∨
      ∃ row : CanonicalRow, before.catalog.canonical? row.hash = none ∧
        after.catalog.canonical = before.catalog.canonical ++ [row] := by
  have hcanonical := hsettled.canonical
  rw [canonical_settle] at hcanonical
  cases hknown : before.catalog.canonical? new.hash with
  | some known =>
      left
      simpa [hknown] using hcanonical
  | none =>
      right
      exact ⟨⟨new.hash, new.id⟩, hknown, by simpa [hknown] using hcanonical⟩

end Settlement

end Transaction

/-- A call that meets no interference, whether it ends well or not, leaves every
record but that of its own path as it is, unless there is no file for it any
more, and then it may take the record away. It adds no other record, changes no
tag, and adds at most one canonical identifier. -/
theorem resolve_removes_vanished {registry : Registry} (hpaths : registry.catalog.PathsDistinct)
    (maxRetries : Nat) (around : Surroundings) (seen : Sighting) :
    let after := (registry.resolve maxRetries around seen).registry.catalog
    (∀ file ∈ registry.catalog.files, file.path ≠ seen.path →
      file ∈ after.files ∨
        (∀ other ∈ after.files, other.path ≠ file.path) ∧ around.present file.path = false) ∧
    (∀ file ∈ after.files, file.path ≠ seen.path → file ∈ registry.catalog.files) ∧
    after.tags = registry.catalog.tags ∧
    (after.canonical = registry.catalog.canonical ∨
      ∃ row : CanonicalRow, registry.catalog.canonical? row.hash = none ∧
        after.canonical = registry.catalog.canonical ++ [row]) := by
  intro after
  rcases registry.resolve_cases maxRetries around seen with hsame | ⟨digest, id, hanswer, -⟩
  · have hafter : after = registry.catalog := congrArg Registry.catalog hsame
    rw [hafter]
    exact ⟨fun file hfile _ => Or.inl hfile, fun file hfile _ => hfile, rfl, Or.inl rfl⟩
  · obtain ⟨new, gone, hsettled⟩ := reconcile_settlement hpaths hanswer
    exact ⟨fun file => hsettled.kept_or_absent, fun file => hsettled.mem_before, hsettled.tags,
      hsettled.canonical_grows⟩

/-- Of two identical files the second was moved. -/
def secondMoved : Surroundings :=
  ⟨fun path => path ≠ "/b", fun _ => .ok "5a", false⟩

/-- When the file is found at its new place, the other one is left alone. -/
theorem secondMoved_keeps_first :
    Site.bothEnded.registry.catalog.PathsDistinct ∧
      let after := (Site.bothEnded.registry.resolve 0 secondMoved ⟨"/c", 1, 11⟩).registry.catalog
      ⟨"/a", 1, 7, "5a", .numbered "#" 0, false⟩ ∈ after.files ∧
        (∀ other ∈ after.files, other.path ≠ "/b") ∧ after.tags = [] := by
  have hpaths : Site.bothEnded.registry.catalog.PathsDistinct := by
    unfold Catalog.PathsDistinct
    decide
  obtain ⟨hkept, -, htags, -⟩ :=
    resolve_removes_vanished hpaths 0 secondMoved ⟨"/c", 1, 11⟩
  refine ⟨hpaths, ?_, ?_, htags⟩
  · rcases hkept _ List.mem_cons_self (by decide) with hmem | ⟨-, habsent⟩
    · exact hmem
    · cases habsent
  · have hended : Site.bothEnded.registry.resolve 0 secondMoved ⟨"/c", 1, 11⟩ = _ :=
      resolve_of_read (by rintro old ⟨⟩) rfl rfl rfl
    rw [hended]
    decide

end Registry

namespace Site

/-- A turn in which a path is not settled, while the file there exists. -/
structure Spares (path : String) (site later : Site) : Prop where
  step : Step site later
  present : site.around.present path = true
  unsettled : ∀ i maxRetries call id, Answers site i maxRetries call id →
    later = site.advance i maxRetries → call.seen.path ≠ path

section Turns

variable {site later : Site} {path : String} {record : FileRecord}

theorem Spares.of_pending (hstep : Step site later) (hthere : site.around.present path = true)
    (hidle : ∀ call ∈ site.calls, call.Pending → call.seen.path ≠ path) :
    Spares path site later where
  step := hstep
  present := hthere
  unsettled _ _ call _ hanswers _ :=
    hidle call (List.mem_of_getElem? hanswers.found) hanswers.pending

/-- One turn leaves the record of the path as it is, but for its mark. -/
theorem Spares.record? (hspares : Spares path site later) (hsound : site.registry.Sound)
    (hrecord : site.registry.catalog.record? path = some record) :
    ∃ kept, later.registry.catalog.record? path = some kept ∧ kept.cleared = record.cleared := by
  rcases hspares.step.answers_cases with halike | ⟨i, maxRetries, call, id, hanswers, hlater⟩
  · have hsame := halike.record? path
    rw [hrecord] at hsame
    exact Option.map_eq_some_iff.mp hsame
  · have hother : call.seen.path ≠ path := hspares.unsettled i maxRetries call id hanswers hlater
    obtain ⟨_, _, new, gone, -, hsettled⟩ := hanswers.settlement hsound
    rw [hlater]
    rcases hsettled.record?_other hsound.paths hother.symm with hsame | ⟨-, habsent⟩
    · exact ⟨record, hsame.trans hrecord, rfl⟩
    · rw [hspares.present] at habsent
      cases habsent

theorem later_of_spared (hrun : Relation.ReflTransGen (Spares path) site later) :
    Later site later := by
  have hsteps : Spares path ≤ Step := fun _ _ hspares => hspares.step
  exact Relation.ReflTransGen.mono hsteps _ _ hrun

/-- The record stays through a whole run. The induction is on the turns. -/
theorem record?_of_spared (hsound : site.registry.Sound)
    (hrun : Relation.ReflTransGen (Spares path) site later)
    (hrecord : site.registry.catalog.record? path = some record) :
    ∃ kept, later.registry.catalog.record? path = some kept ∧ kept.cleared = record.cleared := by
  induction hrun with
  | refl => exact ⟨record, hrecord, rfl⟩
  | tail hbefore hspares ih =>
      obtain ⟨between, hbetween, hsame⟩ := ih
      have hsoundBetween := (later_of_spared hbefore).sound hsound
      obtain ⟨kept, hkept, hkeptSame⟩ := hspares.record? hsoundBetween hbetween
      exact ⟨kept, hkept, hkeptSame.trans hsame⟩

/-- A file that stays where it is, and is not resolved meanwhile, keeps its size,
time, content and own identifier on record, whatever is done about other files
and about marks and tags. When it is seen again as it was, it is not read, and
answers with the canonical identifier that its content had. -/
theorem unchanged_stable (hreach : site.Reachable)
    (hrecord : site.registry.catalog.record? path = some record)
    (hrun : Relation.ReflTransGen (Spares path) site later) :
    ∃ kept known, later.registry.catalog.record? path = some kept ∧
      kept.size = record.size ∧ kept.modified = record.modified ∧
      kept.hash = record.hash ∧ kept.id = record.id ∧
      site.registry.catalog.canonical? record.hash = some known ∧
      later.registry.catalog.canonical? record.hash = some known ∧
      ∀ maxRetries around, around.locked = false →
        ∃ after, later.registry.resolve maxRetries around ⟨path, record.size, record.modified⟩ =
          ⟨.ok known, 0, after⟩ := by
  have hsound := hreach.sound
  have hlater := later_of_spared hrun
  obtain ⟨kept, hkept, hsame⟩ := record?_of_spared hsound hrun hrecord
  simp only [FileRecord.cleared, FileRecord.mk.injEq] at hsame
  obtain ⟨-, hsize, hmodified, hhash, hid, -⟩ := hsame
  have hsettled := hsound.settled record (Catalog.mem_of_record? hrecord)
  obtain ⟨known, hknown⟩ := Option.isSome_iff_exists.mp hsettled
  have hstill := hlater.canonical?_mono hsound hknown
  refine ⟨kept, known, hkept, hsize, hmodified, hhash, hid, hknown, hstill, ?_⟩
  intro maxRetries around hunlocked
  have hcurrent : kept.upToDate record.size record.modified = true := by
    simp [FileRecord.upToDate, hsize, hmodified]
  exact Registry.resolve_recorded (hlater.sound hsound).paths hunlocked hkept hcurrent
    (hhash ▸ hstill)

/-- The two identical files on record, one of which was moved. A call has read
it at its new place. -/
def moving : Site :=
  { bothEnded with
    around := Registry.secondMoved
    calls := bothEnded.calls ++ [⟨⟨"/c", 1, 11⟩, .commit 0 (some "5a"), 1⟩] }

theorem moving_reachable : moving.Reachable := by
  have hbegun : Later bothEnded { bothEnded with
      around := moving.around
      calls := bothEnded.calls ++ [.start ⟨"/c", 1, 11⟩] } :=
    .tail (.single (.disturb bothEnded moving.around)) (.begin _ ⟨"/c", 1, 11⟩)
  exact bothEnded_reachable.of_later ((hbegun.tail (.advance _ 2 0)).tail (.advance _ 2 0))

/-- The record of the old place has given way to that of the new one, and the
file that was not moved was reported gone. -/
def moved : Site :=
  { moving with
    registry := .ofSeries
      [⟨"/a", 1, 7, "5a", .numbered "#" 0, true⟩, ⟨"/c", 1, 11, "5a", .numbered "#" 1, false⟩]
      [⟨"5a", .numbered "#" 0⟩] 2
    calls := bothEnded.calls ++ [⟨⟨"/c", 1, 11⟩, .done (.ok (.numbered "#" 0)), 1⟩] }

theorem moving_answers :
    Answers moving 2 0 ⟨⟨"/c", 1, 11⟩, .commit 0 (some "5a"), 1⟩ (.numbered "#" 0) ∧
      moving.advance 2 0 = { moved with
        registry := .ofSeries
          [⟨"/a", 1, 7, "5a", .numbered "#" 0, false⟩, ⟨"/c", 1, 11, "5a", .numbered "#" 1, false⟩]
          [⟨"5a", .numbered "#" 0⟩] 2 } :=
  Answers.of_reconcile rfl rfl rfl rfl

/-- Of the calls there, only the one for the new place may still go on. -/
theorem pending_elsewhere {last : Call} (hlast : last.seen.path = "/c") :
    ∀ call ∈ bothEnded.calls ++ [last], call.Pending → call.seen.path ≠ "/a" := by
  intro call hcall hpending
  rcases List.mem_append.mp hcall with hended | hcall
  · rcases List.mem_cons.mp hended with rfl | hended
    · exact absurd rfl (hpending _)
    · obtain rfl := List.mem_singleton.mp hended
      exact absurd rfl (hpending _)
  · obtain rfl := List.mem_singleton.mp hcall
    rw [hlast]
    decide

theorem moved_spared : Relation.ReflTransGen (Spares "/a") moving moved := by
  have hended : Spares "/a" moving (moving.advance 2 0) :=
    .of_pending (.advance moving 2 0) rfl (pending_elsewhere rfl)
  rw [moving_answers.2] at hended
  exact (Relation.ReflTransGen.single hended).tail
    (.of_pending (.markOne _ "/a") rfl (pending_elsewhere rfl))

/-- Neither the move of its copy nor the report has touched the file. -/
theorem moved_stable :
    ∃ kept, moved.registry.catalog.record? "/a" = some kept ∧ kept.id = .numbered "#" 0 ∧
      ∃ after, moved.registry.resolve 0 moved.around ⟨"/a", 1, 7⟩ =
        ⟨.ok (.numbered "#" 0), 0, after⟩ := by
  obtain ⟨kept, known, hkept, -, -, -, hid, hknown, -, hresolve⟩ :=
    unchanged_stable moving_reachable rfl moved_spared
  obtain rfl : MediaId.numbered "#" 0 = known := Option.some.inj hknown
  exact ⟨kept, hkept, hid, hresolve 0 moved.around rfl⟩

end Turns

end Site

end MediaCatalog
