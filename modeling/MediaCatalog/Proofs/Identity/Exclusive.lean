import MediaCatalog.Proofs.Identity.Undisturbed

/-!
Whether one identifier can stand for two contents at a time. As long as files
are only edited, copied, moved and deleted it cannot: a file takes an
identifier along to new content only if it leaves the old content nowhere.
But content that was on record before gets back the identifier it had, and
by then that may have gone along with an edited file to other content. It is
these returns, and nothing else, by which an identifier comes to be in use
twice.
-/

namespace MediaCatalog

namespace Registry

variable (present : String → Bool) (registry : Registry)

/-- A file that is on record with a content is there. -/
def OnDisk (hash : String) : Prop :=
  ∃ file ∈ registry.catalog.files, file.hash = hash ∧ present file.path = true

def InUse (id : MediaId) (hash : String) : Prop :=
  registry.OnDisk present hash ∧ registry.catalog.canonical? hash = some id

/-- A record has the identifier for its own, though its content has another. -/
def Strayed (id : MediaId) (file : FileRecord) : Prop :=
  file ∈ registry.catalog.files ∧ file.id = id ∧
    registry.catalog.canonical? file.hash ≠ some id

/-- An identifier is in use for one content at most, and for none while a
record has strayed with it. -/
structure Exclusive (id : MediaId) : Prop where
  one : ∀ hash other, registry.InUse present id hash → registry.InUse present id other →
    hash = other
  unused : ∀ file, registry.Strayed id file → ∀ hash, ¬ registry.InUse present id hash
  sole : ∀ file other, registry.Strayed id file → registry.Strayed id other →
    file.path = other.path

/-- A transaction for a path has carried the identifier away from all contents
that had it, and from all other records that had strayed with it. -/
structure Carried (before after : Registry) (path : String) (id : MediaId) : Prop where
  vacated : ∀ hash, before.InUse present id hash → ¬ after.OnDisk present hash
  others : ∀ file, before.Strayed id file → file ∈ after.catalog.files → file.path = path

section Transaction

variable {present : String → Bool} {before after : Registry} {seen : Sighting}
  {digest : Option String} {answer : MediaId} {new : FileRecord} {gone : List FileRecord}
  {id : MediaId}

private theorem carried_of_fresh (hissued : before.AllIssued) (hid : id = before.fresh.1)
    (path : String) : Carried present before after path id where
  vacated := by
    rintro hash ⟨-, hcanonical⟩
    rw [hid] at hcanonical
    exact absurd hcanonical (before.fresh_ne_canonical hash)
  others := by
    rintro file ⟨hfile, hown, -⟩
    rw [hid] at hown
    exact absurd hown (hissued.fresh_ne hfile)

/-- The only record that had strayed with the identifier gave way, or was
replaced. -/
private theorem carried_of_strayed (hexclusive : Exclusive present before id)
    {stale : FileRecord} (hstrayed : before.Strayed id stale) {path : String}
    (hgone : ∀ file ∈ after.catalog.files, file.path = stale.path → file.path = path) :
    Carried present before after path id where
  vacated hash hused := absurd hused (hexclusive.unused stale hstrayed hash)
  others file hfile hafter := hgone file hafter (hexclusive.sole file stale hfile hstrayed)

/-- The content that had the identifier was at the path alone, and is replaced. -/
private theorem carried_of_alone
    (hsettled : Settlement present before after seen digest answer new gone)
    (hexclusive : Exclusive present before id) {old : FileRecord}
    (hold : before.catalog.record? seen.path = some old)
    (hthere : present seen.path = true)
    (hcanonical : before.catalog.canonical? old.hash = some id) (hchanged : new.hash ≠ old.hash)
    (halone : ∀ file ∈ before.companions old, present file.path = false) :
    Carried present before after seen.path id := by
  have hpath : old.path = seen.path := Catalog.path_of_record? hold
  have hused : before.InUse present id old.hash :=
    ⟨⟨old, Catalog.mem_of_record? hold, rfl, hpath ▸ hthere⟩, hcanonical⟩
  constructor
  · rintro hash hother ⟨file, hfile, hhash, hfileThere⟩
    have hsame : hash = old.hash := hexclusive.one hash old.hash hother hused
    rcases (hsettled.files file).mp hfile with rfl | ⟨hbefore, hne, -⟩
    · exact hchanged (hhash.trans hsame)
    · rw [hsettled.path, ← hpath] at hne
      rw [halone file (mem_companions.mpr ⟨hbefore, hhash.trans hsame, hne⟩)] at hfileThere
      cases hfileThere
  · intro file hstrayed
    exact absurd hused (hexclusive.unused file hstrayed old.hash)

/-- If the new record has the identifier for its own and its content did not
have it, then the identifier was carried there from all other places. The cases
are the ways to come by an identifier. -/
private theorem Settlement.carried
    (hsettled : Settlement present before after seen digest answer new gone)
    (hsound : before.Sound) (hexclusive : Exclusive present before id)
    (hread : ∀ old, before.catalog.record? seen.path = some old → new.hash ≠ old.hash →
      present seen.path = true)
    (hid : new.id = id) (hother : before.catalog.canonical? new.hash ≠ some id) :
    Carried present before after seen.path id := by
  have hallotted := hsettled.allotment
  generalize hrecord : before.catalog.record? seen.path = old? at hallotted
  generalize after.supply = supply at hallotted
  cases hallotted with
  -- The vanished files had strayed with the identifier, and they give way.
  | adopted hsole =>
      obtain ⟨hsome, hsame⟩ := soleId?_eq_some hsole
      obtain ⟨stale, hstale⟩ := List.exists_mem_of_ne_nil _ hsome
      obtain ⟨hmem, hhash, -⟩ := mem_vanished.mp hstale
      have hstrayed : before.Strayed id stale :=
        ⟨hmem, (hsame stale hstale).trans hid, hhash ▸ hother⟩
      refine carried_of_strayed hexclusive hstrayed ?_
      intro file hfile hpath
      rcases (hsettled.files file).mp hfile with rfl | ⟨-, -, hkept⟩
      · exact hsettled.path
      · exact absurd hpath (hkept stale hstale)
  | issued hfresh => exact carried_of_fresh hsound.toAllIssued (hid ▸ hfresh) _
  | parted _ _ _ hfresh => exact carried_of_fresh hsound.toAllIssued (hid ▸ hfresh) _
  | @takenOver old _ hcanonical _ halone =>
      rw [hid] at hcanonical
      have hchanged : new.hash ≠ old.hash := fun hsame => hother (hsame ▸ hcanonical)
      exact carried_of_alone hsettled hexclusive hrecord (hread old hrecord hchanged) hcanonical
        hchanged halone
  | @kept old _ hown hreason =>
      have hpath : old.path = seen.path := Catalog.path_of_record? hrecord
      by_cases hcanonical : before.catalog.canonical? old.hash = some id
      · have hchanged : new.hash ≠ old.hash := fun hsame => hother (hsame ▸ hcanonical)
        have halone := (hreason hchanged id hcanonical).mp (hid.symm.trans hown)
        exact carried_of_alone hsettled hexclusive hrecord (hread old hrecord hchanged) hcanonical
          hchanged halone
      · have hstrayed : before.Strayed id old :=
          ⟨Catalog.mem_of_record? hrecord, hown.symm.trans hid, hcanonical⟩
        exact carried_of_strayed hexclusive hstrayed fun file _ hsame => hsame.trans hpath

/-- A content in use was so before, or it is the content of the new record,
under that record's own identifier. -/
private theorem Settlement.inUse_cases
    (hsettled : Settlement present before after seen digest answer new gone)
    (hreturn : ∀ hash, before.catalog.canonical? hash = some id →
      after.OnDisk present hash → before.OnDisk present hash)
    {hash : String} (hused : after.InUse present id hash) :
    before.InUse present id hash ∨ (hash = new.hash ∧ new.id = id ∧
      before.catalog.canonical? new.hash ≠ some id) := by
  obtain ⟨hdisk, hcanonical⟩ := hused
  by_cases hbefore : before.catalog.canonical? hash = some id
  · exact Or.inl ⟨hreturn hash hbefore hdisk, hbefore⟩
  · right
    rw [hsettled.canonical?_eq] at hcanonical
    split at hcanonical
    · rename_i hnew
      rw [hnew] at hbefore
      rw [hsettled.answer_eq] at hcanonical
      cases hfound : before.catalog.canonical? new.hash with
      | none => exact ⟨hnew, by simpa [hfound] using hcanonical, by simp⟩
      | some known =>
          rw [hfound] at hcanonical hbefore
          exact absurd hcanonical hbefore
    · exact absurd hcanonical hbefore

/-- A record that has strayed had done so before, or it is the new one. -/
private theorem Settlement.strayed_cases
    (hsettled : Settlement present before after seen digest answer new gone)
    {file : FileRecord} (hstrayed : after.Strayed id file) :
    (before.Strayed id file ∧ file.path ≠ seen.path) ∨ (file = new ∧ new.id = id ∧
      before.catalog.canonical? new.hash ≠ some id) := by
  obtain ⟨hmem, hown, hcanonical⟩ := hstrayed
  have hbefore : before.catalog.canonical? file.hash ≠ some id := fun hknown =>
    hcanonical (hsettled.canonical?_mono hknown)
  rcases (hsettled.files file).mp hmem with rfl | ⟨hold, hpath, -⟩
  · exact Or.inr ⟨rfl, hown, hbefore⟩
  · rw [hsettled.path] at hpath
    exact Or.inl ⟨⟨hold, hown, hbefore⟩, hpath⟩

/-- A transaction that brings back no content with an identifier keeps that
exclusive. -/
theorem Exclusive.settlement (hexclusive : Exclusive present before id)
    (hsettled : Settlement present before after seen digest answer new gone)
    (hsound : before.Sound)
    (hread : ∀ old, before.catalog.record? seen.path = some old → new.hash ≠ old.hash →
      present seen.path = true)
    (hreturn : ∀ hash, before.catalog.canonical? hash = some id →
      after.OnDisk present hash → before.OnDisk present hash) :
    Exclusive present after id := by
  have hcarried := hsettled.carried hsound hexclusive hread
  refine ⟨?_, ?_, ?_⟩
  -- Of two contents in use one may be newly so, and then the other was left.
  · intro hash other hhash hother
    rcases hsettled.inUse_cases hreturn hhash with hold | ⟨rfl, hid, hnew⟩
    · rcases hsettled.inUse_cases hreturn hother with hold' | ⟨-, hid, hnew⟩
      · exact hexclusive.one hash other hold hold'
      · exact absurd hhash.1 ((hcarried hid hnew).vacated hash hold)
    · rcases hsettled.inUse_cases hreturn hother with hold | ⟨rfl, -, -⟩
      · exact absurd hother.1 ((hcarried hid hnew).vacated other hold)
      · rfl
  -- No record that strayed before is left where the new content is in use, and
  -- where the new record strayed no content is.
  · intro file hfile hash hhash
    rcases hsettled.strayed_cases hfile with ⟨hold, hpath⟩ | ⟨rfl, hid, hnew⟩
    · rcases hsettled.inUse_cases hreturn hhash with hold' | ⟨-, hid, hnew⟩
      · exact hexclusive.unused file hold hash hold'
      · exact hpath ((hcarried hid hnew).others file hold hfile.1)
    · rcases hsettled.inUse_cases hreturn hhash with hold | ⟨rfl, -, -⟩
      · exact (hcarried hid hnew).vacated hash hold hhash.1
      · exact hfile.2.2 hhash.2
  · intro file other hfile hother
    rcases hsettled.strayed_cases hfile with ⟨hold, hpath⟩ | ⟨rfl, hid, hnew⟩
    · rcases hsettled.strayed_cases hother with ⟨hold', -⟩ | ⟨-, hid, hnew⟩
      · exact hexclusive.sole file other hold hold'
      · exact absurd ((hcarried hid hnew).others file hold hfile.1) hpath
    · rcases hsettled.strayed_cases hother with ⟨hold, hpath⟩ | ⟨rfl, -, -⟩
      · exact absurd ((hcarried hid hnew).others other hold hother.1) hpath
      · rfl

/-- Changes to the disk, to marks and to tags bring a second content into use
only by a return. -/
theorem Exclusive.alike {there : String → Bool} (hexclusive : Exclusive there before id)
    (halike : Alike before after)
    (hreturn : ∀ hash, before.catalog.canonical? hash = some id →
      after.OnDisk present hash → before.OnDisk there hash) :
    Exclusive present after id := by
  have hused {hash : String} (hash_used : after.InUse present id hash) :
      before.InUse there id hash := by
    obtain ⟨hdisk, hcanonical⟩ := hash_used
    rw [halike.canonical?] at hcanonical
    exact ⟨hreturn hash hcanonical hdisk, hcanonical⟩
  have hstrayed {file : FileRecord} (hfile : after.Strayed id file) :
      ∃ other, before.Strayed id other ∧ other.path = file.path := by
    obtain ⟨hmem, hown, hcanonical⟩ := hfile
    obtain ⟨other, hother, hpath, hhash, hsame⟩ := halike.exists_mem hmem
    rw [halike.canonical?, ← hhash] at hcanonical
    exact ⟨other, ⟨hother, hsame.trans hown, hcanonical⟩, hpath⟩
  refine ⟨?_, ?_, ?_⟩
  · intro hash other hhash hother
    exact hexclusive.one hash other (hused hhash) (hused hother)
  · intro file hfile hash hhash
    obtain ⟨other, hother, -⟩ := hstrayed hfile
    exact hexclusive.unused other hother hash (hused hhash)
  · intro file other hfile hother
    obtain ⟨a, ha, hpath⟩ := hstrayed hfile
    obtain ⟨b, hb, hpath'⟩ := hstrayed hother
    rw [← hpath, ← hpath']
    exact hexclusive.sole a b ha hb

end Transaction

end Registry

namespace Library

/-- A content with the identifier, of which nothing was left on disk, is there
again. -/
def Returns (before after : Library) (id : MediaId) (hash : String) : Prop :=
  before.registry.catalog.canonical? hash = some id ∧
    ¬ before.registry.OnDisk before.around.present hash ∧
    after.registry.OnDisk after.around.present hash

/-- The identifier is in use for another content than this, or a record has
strayed with it. -/
def Contested (library : Library) (id : MediaId) (hash : String) : Prop :=
  (∃ other, other ≠ hash ∧ library.registry.InUse library.around.present id other) ∨
    ∃ file, library.registry.Strayed id file

/-- What can be reached without a return of content by which the identifier
would be contested. -/
inductive Uncontested (id : MediaId) : Library → Prop where
  | fresh (supply : IdSupply) (around : Surroundings) (hfaithful : around.Faithful) :
      Uncontested id (.fresh supply around)
  | step {before after : Library} (hbefore : Uncontested id before) (hstep : Step before after)
      (hreturn : ∀ hash, Returns before after id hash → ¬ after.Contested id hash) :
      Uncontested id after

variable {library : Library} {id : MediaId}

theorem Uncontested.reachable (hrun : Uncontested id library) : Reachable library := by
  induction hrun with
  | fresh supply around hfaithful => exact .fresh supply around hfaithful
  | step _ hstep _ ih => exact .step ih hstep

/-- Without contested returns an identifier stays exclusive. The induction is on
the steps; after a return that nothing contests there is only the content that
came back, and before it no other step could do harm. -/
theorem Uncontested.exclusive (hrun : Uncontested id library) :
    library.registry.Exclusive library.around.present id := by
  induction hrun with
  | fresh supply around hfaithful =>
      refine ⟨?_, ?_, ?_⟩
      · rintro hash other ⟨⟨file, hfile, -⟩, -⟩
        cases hfile
      · rintro file ⟨hfile, -⟩
        cases hfile
      · rintro file other ⟨hfile, -⟩
        cases hfile
  | @step before after hbefore hstep hreturn ih =>
      by_cases hback : ∃ hash, Returns before after id hash
      · obtain ⟨hash, hhash⟩ := hback
        have hfree := hreturn hash hhash
        have hsame {other : String}
            (hother : after.registry.InUse after.around.present id other) : other = hash := by
          by_contra hne
          exact hfree (Or.inl ⟨other, hne, hother⟩)
        refine ⟨?_, ?_, ?_⟩
        · intro one other hone hother
          rw [hsame hone, hsame hother]
        · intro file hfile
          exact absurd (Or.inr ⟨file, hfile⟩) hfree
        · intro file other hfile
          exact absurd (Or.inr ⟨file, hfile⟩) hfree
      · have hstays (hash : String)
            (hknown : before.registry.catalog.canonical? hash = some id)
            (hdisk : after.registry.OnDisk after.around.present hash) :
            before.registry.OnDisk before.around.present hash := by
          by_contra hnone
          exact hback ⟨hash, hknown, hnone, hdisk⟩
        have hreach := hbefore.reachable
        rcases hstep.cases with ⟨hsame, -⟩ | ⟨haround, hdone⟩
        · refine ih.alike ?_ hstays
          rw [hsame]
          exact ⟨rfl, rfl, rfl⟩
        · rcases hdone with halike | ⟨seen, digest, answer, hanswer, hdigest⟩
          · exact ih.alike halike hstays
          · rw [haround] at hstays ⊢
            obtain ⟨new, gone, hsettled⟩ :=
              Registry.reconcile_settlement hreach.sound.paths hanswer
            refine ih.settlement hsettled hreach.sound ?_ hstays
            -- New content was read, so the file is there.
            intro old hold hchanged
            have hread : digest = some new.hash := by
              apply hsettled.digested
              intro other hother
              obtain rfl : old = other := by simpa [hold] using hother
              by_contra hcurrent
              exact hchanged (hsettled.unchanged old hold (by simpa using hcurrent))
            exact hreach.faithful seen.path new.hash (hdigest new.hash hread)

/-- Two files with different content have different identifiers, unless the
identifier of one was contested when a content with it came back. -/
theorem distinct_identifiers (hrun : Uncontested id library) {p q : FileRecord}
    (hp : p ∈ library.registry.catalog.files) (hq : q ∈ library.registry.catalog.files)
    (hpThere : library.around.present p.path = true)
    (hqThere : library.around.present q.path = true) (hdiffer : p.hash ≠ q.hash)
    (hid : library.registry.catalog.canonical? p.hash = some id) :
    ∃ other, library.registry.catalog.canonical? q.hash = some other ∧ other ≠ id := by
  have hsound := hrun.reachable.sound
  obtain ⟨other, hother⟩ := Option.isSome_iff_exists.mp (hsound.settled q hq)
  refine ⟨other, hother, ?_⟩
  rintro rfl
  apply hdiffer
  exact hrun.exclusive.one p.hash q.hash ⟨⟨p, hp, rfl, hpThere⟩, hid⟩
    ⟨⟨q, hq, rfl, hqThere⟩, hother⟩

section Witnesses

/-- One file, and then the same with other content and a copy of the old. -/
def original : Surroundings where
  present path := path = "/a"
  digest path := if path = "/a" then .ok "5a" else .error .notFound
  locked := false

def copiedAndEdited : Surroundings where
  present path := path = "/a" || path = "/b"
  digest path :=
    if path = "/a" then .ok "6b" else if path = "/b" then .ok "5a" else .error .notFound
  locked := false

theorem original_faithful : original.Faithful := by
  intro path digest hdigest
  by_cases hpath : path = "/a"
  · simp [original, hpath]
  · simp [original, hpath] at hdigest

theorem copiedAndEdited_faithful : copiedAndEdited.Faithful := by
  intro path digest hdigest
  by_cases hpath : path = "/a"
  · simp [copiedAndEdited, hpath]
  · by_cases hcopy : path = "/b"
    · simp [copiedAndEdited, hcopy]
    · simp [copiedAndEdited, hpath, hcopy] at hdigest

/-- The file is edited before its copy is seen. It takes its identifier along,
and the copy gets the same from the content on record. -/
def returned : Library :=
  ⟨.ofSeries
      [⟨"/a", 4, 2, "6b", .numbered "#" 0, false⟩, ⟨"/b", 5, 1, "5a", .numbered "#" 1, false⟩]
      [⟨"5a", .numbered "#" 0⟩, ⟨"6b", .numbered "#" 0⟩] 2, copiedAndEdited⟩

theorem returned_reachable : Reachable returned := by
  have hfirst : (fresh (.ofSeries "#") original).registry.reconcile original.present
      ⟨"/a", 5, 1⟩ (some "5a") = some (.numbered "#" 0,
        .ofSeries [⟨"/a", 5, 1, "5a", .numbered "#" 0, false⟩] [⟨"5a", .numbered "#" 0⟩] 1) :=
    Registry.reconcile_of_new rfl rfl List.not_mem_nil
  have hedited : (Registry.ofSeries [⟨"/a", 5, 1, "5a", .numbered "#" 0, false⟩]
      [⟨"5a", .numbered "#" 0⟩] 1).reconcile copiedAndEdited.present ⟨"/a", 4, 2⟩ (some "6b") =
        some (.numbered "#" 0, .ofSeries [⟨"/a", 4, 2, "6b", .numbered "#" 0, false⟩]
          [⟨"5a", .numbered "#" 0⟩, ⟨"6b", .numbered "#" 0⟩] 1) :=
    rfl
  have hcopied : (Registry.ofSeries [⟨"/a", 4, 2, "6b", .numbered "#" 0, false⟩]
      [⟨"5a", .numbered "#" 0⟩, ⟨"6b", .numbered "#" 0⟩] 1).reconcile copiedAndEdited.present
        ⟨"/b", 5, 1⟩ (some "5a") = some (.numbered "#" 0, returned.registry) :=
    Registry.reconcile_of_new rfl rfl (by decide)
  refine .step (.step (.step (.step (.fresh _ original original_faithful)
    (.read ?_ rfl rfl hfirst)) (.disturb _ copiedAndEdited copiedAndEdited_faithful))
    (.read ?_ rfl rfl hedited)) (.read ?_ rfl rfl hcopied)
  · intro old hold
    cases hold
  · intro old hold
    obtain rfl := Option.some.inj hold
    rfl
  · intro old hold
    cases hold

/-- Two files that are there and as they were resolved, with different content,
have one identifier. -/
theorem returned_shares_identifier :
    ∃ (library : Library) (p q : FileRecord), Reachable library ∧
      p ∈ library.registry.catalog.files ∧ q ∈ library.registry.catalog.files ∧
      library.around.present p.path = true ∧ library.around.present q.path = true ∧
      library.around.digest p.path = .ok p.hash ∧ library.around.digest q.path = .ok q.hash ∧
      p.hash ≠ q.hash ∧
      library.registry.catalog.canonical? p.hash = library.registry.catalog.canonical? q.hash := by
  refine ⟨returned, _, _, returned_reachable, List.mem_cons_self,
    List.mem_cons_of_mem _ List.mem_cons_self, rfl, rfl, rfl, rfl, by decide, rfl⟩

def apart : Library :=
  ⟨.ofSeries
      [⟨"/a", 4, 2, "6b", .numbered "#" 0, false⟩, ⟨"/b", 5, 1, "5a", .numbered "#" 1, false⟩]
      [⟨"6b", .numbered "#" 0⟩, ⟨"5a", .numbered "#" 1⟩] 2, copiedAndEdited⟩

theorem apart_uncontested : Uncontested (.numbered "#" 0) apart := by
  have hfirst : (fresh (.ofSeries "#") copiedAndEdited).registry.reconcile
      copiedAndEdited.present ⟨"/a", 4, 2⟩ (some "6b") = some (.numbered "#" 0,
        .ofSeries [⟨"/a", 4, 2, "6b", .numbered "#" 0, false⟩] [⟨"6b", .numbered "#" 0⟩] 1) :=
    Registry.reconcile_of_new rfl rfl List.not_mem_nil
  have hsecond : (Registry.ofSeries [⟨"/a", 4, 2, "6b", .numbered "#" 0, false⟩]
      [⟨"6b", .numbered "#" 0⟩] 1).reconcile copiedAndEdited.present ⟨"/b", 5, 1⟩ (some "5a") =
        some (.numbered "#" 1, apart.registry) :=
    Registry.reconcile_of_new rfl rfl (by decide)
  refine .step (.step (.fresh _ copiedAndEdited copiedAndEdited_faithful)
    (.read ?_ rfl rfl hfirst) ?_) (.read ?_ rfl rfl hsecond) ?_
  · intro old hold
    cases hold
  · rintro hash ⟨hknown, -⟩
    cases hknown
  · intro old hold
    cases hold
  · rintro hash ⟨hknown, hgone, -⟩
    exfalso
    by_cases hhash : "6b" = hash
    · exact hgone ⟨_, List.mem_cons_self, hhash, rfl⟩
    · simp [Registry.ofSeries, Catalog.canonical?, hhash] at hknown

theorem apart_distinct : ∃ other, apart.registry.catalog.canonical? "5a" = some other ∧
    other ≠ MediaId.numbered "#" 0 :=
  distinct_identifiers apart_uncontested List.mem_cons_self
    (List.mem_cons_of_mem _ List.mem_cons_self) rfl rfl (by decide) rfl

end Witnesses

end Library

end MediaCatalog
