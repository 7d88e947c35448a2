import MediaCatalog.Proofs.Identity.Exclusive

/-!
How many records have one identifier for their own. A new identifier belongs to
one record, and whoever comes by it later does so from that record: a moved
file from the place that it left, a surviving copy from the copies of its
content that are gone. Only there it can go wrong. A file that takes over the
identifier of its old content looks at the records with that content and at no
others, and the identifier may have gone along with an edited file to other
content.
-/

namespace MediaCatalog

namespace Registry

/-- No two records have the identifier for their own. -/
def HeldOnce (registry : Registry) (id : MediaId) : Prop :=
  ∀ file ∈ registry.catalog.files, ∀ other ∈ registry.catalog.files,
    file.id = id → other.id = id → file.path = other.path

/-- A path takes the identifier over from the content it had, although a record
with other content has it for its own. -/
def Encroached (before after : Registry) (id : MediaId) : Prop :=
  ∃ old ∈ before.catalog.files, ∃ new ∈ after.catalog.files,
    new.path = old.path ∧ old.id ≠ id ∧ new.id = id ∧
      before.catalog.canonical? old.hash = some id ∧
        ∃ holder ∈ before.catalog.files, holder.id = id ∧ holder.hash ≠ old.hash

instance (before after : Registry) (id : MediaId) : Decidable (before.Encroached after id) :=
  inferInstanceAs (Decidable (∃ old ∈ before.catalog.files, ∃ new ∈ after.catalog.files,
    new.path = old.path ∧ old.id ≠ id ∧ new.id = id ∧
      before.catalog.canonical? old.hash = some id ∧
        ∃ holder ∈ before.catalog.files, holder.id = id ∧ holder.hash ≠ old.hash))

section Transaction

variable {present : String → Bool} {before after : Registry} {seen : Sighting}
  {digest : Option String} {answer : MediaId} {new : FileRecord} {gone : List FileRecord}
  {id : MediaId}

/-- The record that comes by the identifier is the only one left with it. The
cases are the ways to come by one. -/
private theorem Settlement.passed_on
    (hsettled : Settlement present before after seen digest answer new gone)
    (hissued : before.AllIssued) (hheld : before.HeldOnce id)
    (hfree : ¬ before.Encroached after id) (hid : new.id = id) {file : FileRecord}
    (hfile : file ∈ before.catalog.files) (hpath : file.path ≠ new.path)
    (hkept : ∀ stale ∈ gone, file.path ≠ stale.path) : file.id ≠ id := by
  have hnew : new ∈ after.catalog.files := (hsettled.files new).mpr (Or.inl rfl)
  have hallotted := hsettled.allotment
  rw [hsettled.path] at hpath
  rintro hown
  generalize hrecord : before.catalog.record? seen.path = old? at hallotted
  generalize after.supply = supply at hallotted
  cases hallotted with
  | adopted hsole =>
      obtain ⟨hsome, hsame⟩ := soleId?_eq_some hsole
      obtain ⟨stale, hstale⟩ := List.exists_mem_of_ne_nil _ hsome
      have hmem : stale ∈ before.catalog.files := (mem_vanished.mp hstale).1
      exact hkept stale hstale (hheld file hfile stale hmem hown ((hsame stale hstale).trans hid))
  | issued hfresh => exact hissued.fresh_ne hfile (hown.trans (hid.symm.trans hfresh))
  | parted _ _ _ hfresh => exact hissued.fresh_ne hfile (hown.trans (hid.symm.trans hfresh))
  | @takenOver old _ hcanonical hother _ =>
      have hold : old ∈ before.catalog.files := Catalog.mem_of_record? hrecord
      have holdPath : old.path = seen.path := Catalog.path_of_record? hrecord
      -- A record with the old content gives way, and any other is encroached upon.
      by_cases hhash : file.hash = old.hash
      · have hcompanion : file ∈ before.companions old :=
          mem_companions.mpr ⟨hfile, hhash, holdPath ▸ hpath⟩
        exact hkept file hcompanion rfl
      · rw [hid] at hcanonical hother
        exact hfree ⟨old, hold, new, hnew, hsettled.path.trans holdPath.symm, hother.symm, hid,
          hcanonical, file, hfile, hown, hhash⟩
  | @kept old _ hsame _ =>
      have hold : old ∈ before.catalog.files := Catalog.mem_of_record? hrecord
      have hplace : file.path = old.path := hheld file hfile old hold hown (hsame.symm.trans hid)
      exact hpath (hplace.trans (Catalog.path_of_record? hrecord))

theorem HeldOnce.settlement (hheld : before.HeldOnce id)
    (hsettled : Settlement present before after seen digest answer new gone)
    (hissued : before.AllIssued) (hfree : ¬ before.Encroached after id) : after.HeldOnce id := by
  -- Beside a new holder there is no earlier one left.
  have halone (hid : new.id = id) (file : FileRecord) (hfile : file ∈ after.catalog.files)
      (hown : file.id = id) : file = new := by
    rcases (hsettled.files file).mp hfile with hsame | ⟨hbefore, hpath, hkept⟩
    · exact hsame
    · exact absurd hown (hsettled.passed_on hissued hheld hfree hid hbefore hpath hkept)
  intro file hfile other hother hown hotherOwn
  by_cases hid : new.id = id
  · rw [halone hid file hfile hown, halone hid other hother hotherOwn]
  · have hearlier {file : FileRecord} (hfile : file ∈ after.catalog.files) (hown : file.id = id) :
        file ∈ before.catalog.files := by
      rcases (hsettled.files file).mp hfile with rfl | ⟨hbefore, -, -⟩
      · exact absurd hown hid
      · exact hbefore
    exact hheld file (hearlier hfile hown) other (hearlier hother hotherOwn) hown hotherOwn

theorem HeldOnce.alike (hheld : before.HeldOnce id) (halike : Alike before after) :
    after.HeldOnce id := by
  intro file hfile other hother hown hotherOwn
  obtain ⟨a, ha, hpath, -, hid⟩ := halike.exists_mem hfile
  obtain ⟨b, hb, hpath', -, hid'⟩ := halike.exists_mem hother
  rw [← hpath, ← hpath']
  exact hheld a ha b hb (hid.trans hown) (hid'.trans hotherOwn)

end Transaction

end Registry

namespace Library

/-- What can be reached without a path that takes the identifier over although
it is held with other content. -/
inductive Orderly (id : MediaId) : Library → Prop where
  | fresh (supply : IdSupply) (around : Surroundings) (hfaithful : around.Faithful) :
      Orderly id (.fresh supply around)
  | step {before after : Library} (hbefore : Orderly id before) (hstep : Step before after)
      (hfree : ¬ before.registry.Encroached after.registry id) : Orderly id after

variable {library : Library} {id : MediaId}

theorem Orderly.reachable (hrun : Orderly id library) : Reachable library := by
  induction hrun with
  | fresh supply around hfaithful => exact .fresh supply around hfaithful
  | step _ hstep _ ih => exact .step ih hstep

theorem Orderly.heldOnce (hrun : Orderly id library) : library.registry.HeldOnce id := by
  induction hrun with
  | fresh supply around hfaithful =>
      intro file hfile
      cases hfile
  | step hbefore hstep hfree ih =>
      have hsound := hbefore.reachable.sound
      rcases hstep.cases with ⟨hsame, -⟩ | ⟨-, halike | ⟨seen, digest, answer, hanswer, -⟩⟩
      · rw [hsame]
        exact ih
      · exact ih.alike halike
      · obtain ⟨new, gone, hsettled⟩ := Registry.reconcile_settlement hsound.paths hanswer
        exact ih.settlement hsettled hsound.toAllIssued hfree

/-- An identifier is the own one of one record at most, whether or not its file
is there, unless a path took it over while it was held with other content. -/
theorem one_holder (hrun : Orderly id library) {p q : FileRecord}
    (hp : p ∈ library.registry.catalog.files) (hq : q ∈ library.registry.catalog.files)
    (hpOwn : p.id = id) (hqOwn : q.id = id) : p = q :=
  Catalog.eq_of_path_eq hrun.reachable.sound.paths hp hq (hrun.heldOnce p hp q hq hpOwn hqOwn)

section Witnesses

/-- A file and its copy. -/
def copied : Surroundings where
  present path := path = "/a" || path = "/b"
  digest path := if path = "/a" || path = "/b" then .ok "5a" else .error .notFound
  locked := false

/-- The copy is left, with other content. -/
def survived : Surroundings where
  present path := path = "/b"
  digest path := if path = "/b" then .ok "6b" else .error .notFound
  locked := false

theorem copied_faithful : copied.Faithful := by
  intro path digest hdigest
  by_cases hpath : path = "/a" ∨ path = "/b"
  · simpa [copied] using hpath
  · simp [copied, hpath] at hdigest

theorem survived_faithful : survived.Faithful := by
  intro path digest hdigest
  by_cases hpath : path = "/b"
  · simp [survived, hpath]
  · simp [survived, hpath] at hdigest

/-- The copy has taken the identifier over, and the place of the first file. -/
def inherited : Library :=
  ⟨.ofSeries [⟨"/b", 4, 2, "6b", .numbered "#" 0, false⟩]
    [⟨"5a", .numbered "#" 0⟩, ⟨"6b", .numbered "#" 0⟩] 2, survived⟩

theorem inherited_orderly : Orderly (.numbered "#" 0) inherited := by
  have hfirst : (fresh (.ofSeries "#") copied).registry.reconcile copied.present
      ⟨"/a", 5, 1⟩ (some "5a") = some (.numbered "#" 0,
        .ofSeries [⟨"/a", 5, 1, "5a", .numbered "#" 0, false⟩] [⟨"5a", .numbered "#" 0⟩] 1) :=
    Registry.reconcile_of_new rfl rfl List.not_mem_nil
  have hsecond : (Registry.ofSeries [⟨"/a", 5, 1, "5a", .numbered "#" 0, false⟩]
      [⟨"5a", .numbered "#" 0⟩] 1).reconcile copied.present ⟨"/b", 5, 1⟩ (some "5a") =
        some (.numbered "#" 0, .ofSeries [⟨"/a", 5, 1, "5a", .numbered "#" 0, false⟩,
          ⟨"/b", 5, 1, "5a", .numbered "#" 1, false⟩] [⟨"5a", .numbered "#" 0⟩] 2) :=
    Registry.reconcile_of_new rfl rfl (by decide)
  have hedited : (Registry.ofSeries [⟨"/a", 5, 1, "5a", .numbered "#" 0, false⟩,
      ⟨"/b", 5, 1, "5a", .numbered "#" 1, false⟩] [⟨"5a", .numbered "#" 0⟩] 2).reconcile
        survived.present ⟨"/b", 4, 2⟩ (some "6b") = some (.numbered "#" 0, inherited.registry) :=
    rfl
  refine .step (.step (.step (.step (.fresh _ copied copied_faithful)
    (.read ?_ rfl rfl hfirst) (by decide)) (.read ?_ rfl rfl hsecond) (by decide))
    (.disturb _ survived survived_faithful) (by decide)) (.read ?_ rfl rfl hedited) (by decide)
  · intro old hold
    cases hold
  · intro old hold
    cases hold
  · intro old hold
    obtain rfl := Option.some.inj hold
    rfl

theorem inherited_once :
    ⟨"/b", 4, 2, "6b", .numbered "#" 0, false⟩ ∈ inherited.registry.catalog.files ∧
      ¬ ∃ other ∈ inherited.registry.catalog.files,
        other.path ≠ "/b" ∧ other.id = .numbered "#" 0 := by
  have hheir : ⟨"/b", 4, 2, "6b", .numbered "#" 0, false⟩ ∈ inherited.registry.catalog.files :=
    List.mem_cons_self
  refine ⟨hheir, ?_⟩
  rintro ⟨other, hother, hpath, hown⟩
  have hsame := one_holder inherited_orderly hother hheir hown rfl
  rw [hsame] at hpath
  exact hpath rfl

/-- The copy whose content came back is edited too. -/
def bothEdited : Surroundings where
  present path := path = "/a" || path = "/b"
  digest path :=
    if path = "/a" then .ok "6b" else if path = "/b" then .ok "7c" else .error .notFound
  locked := false

theorem bothEdited_faithful : bothEdited.Faithful := by
  intro path digest hdigest
  by_cases hpath : path = "/a"
  · simp [bothEdited, hpath]
  · by_cases hcopy : path = "/b"
    · simp [bothEdited, hcopy]
    · simp [bothEdited, hpath, hcopy] at hdigest

/-- No other file has the old content any more, so the copy takes its identifier
over, which the first file still has. -/
def encroached : Library :=
  ⟨.ofSeries
      [⟨"/a", 4, 2, "6b", .numbered "#" 0, false⟩, ⟨"/b", 6, 3, "7c", .numbered "#" 0, false⟩]
      [⟨"5a", .numbered "#" 0⟩, ⟨"6b", .numbered "#" 0⟩, ⟨"7c", .numbered "#" 0⟩] 2, bothEdited⟩

theorem encroached_reachable : Reachable encroached := by
  have hedited : returned.registry.reconcile bothEdited.present ⟨"/b", 6, 3⟩ (some "7c") =
      some (.numbered "#" 0, encroached.registry) :=
    rfl
  refine .step (.step returned_reachable (.disturb _ bothEdited bothEdited_faithful))
    (.read ?_ rfl rfl hedited)
  intro old hold
  obtain rfl := Option.some.inj hold
  rfl

/-- Two files that are there and as they were resolved have one identifier for
their own. -/
theorem encroached_shared :
    ∃ (library : Library) (p q : FileRecord), Reachable library ∧
      p ∈ library.registry.catalog.files ∧ q ∈ library.registry.catalog.files ∧
      library.around.present p.path = true ∧ library.around.present q.path = true ∧
      p.path ≠ q.path ∧ p.id = q.id := by
  refine ⟨encroached, _, _, encroached_reachable, List.mem_cons_self,
    List.mem_cons_of_mem _ List.mem_cons_self, rfl, rfl, by decide, rfl⟩

end Witnesses

end Library

end MediaCatalog
