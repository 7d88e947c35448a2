import MediaCatalog.Proofs.Identity.Soundness
import MediaCatalog.Proofs.Identity.Steps

/-!
Calls that meet no interference. Such a call is one transaction, on a digest
that was read while the files were as the transaction finds them; it comes to
nothing only if the file has to be read and cannot be, or if another writer
holds the database throughout. A library is worked on by such calls one after
another, and the disk changes between them.
-/

namespace MediaCatalog

/-- A file that can be read is there. -/
def Surroundings.Faithful (around : Surroundings) : Prop :=
  ∀ path digest, around.digest path = .ok digest → around.present path = true

namespace Registry

variable {registry : Registry} {maxRetries : Nat} {around : Surroundings} {seen : Sighting}

theorem reconcile_of_read (present : String → Bool) (registry : Registry) (seen : Sighting)
    (digest : String) :
    ∃ id after, registry.reconcile present seen (some digest) = some (id, after) := by
  unfold reconcile
  split
  · contradiction
  · exact ⟨_, _, rfl⟩
  · split
    · exact ⟨_, _, rfl⟩
    · exact ⟨_, _, rfl⟩

theorem reconcile_unchanged (present : String → Bool) {old : FileRecord}
    (hold : registry.catalog.record? seen.path = some old)
    (hcurrent : old.upToDate seen.size seen.modified = true) :
    registry.reconcile present seen none = some (registry.revisit present old) := by
  simp only [reconcile, hold, hcurrent, if_true]

theorem reconcile_of_upToDate (present : String → Bool) {old : FileRecord}
    (hold : registry.catalog.record? seen.path = some old)
    (hcurrent : old.upToDate seen.size seen.modified = true) :
    ∃ id after, registry.reconcile present seen none = some (id, after) :=
  ⟨_, _, reconcile_unchanged present hold hcurrent⟩

/-- Only a digest that is needed and not brought stops a transaction. -/
theorem reconcile_eq_none_iff {present : String → Bool} {digest : Option String} :
    registry.reconcile present seen digest = none ↔
      digest = none ∧ ∀ record, registry.catalog.record? seen.path = some record →
        record.upToDate seen.size seen.modified = false := by
  cases digest with
  | some hash =>
      obtain ⟨id, after, hanswer⟩ := reconcile_of_read present registry seen hash
      simp [hanswer]
  | none =>
      cases hrecord : registry.catalog.record? seen.path with
      | none => simp [reconcile, hrecord]
      | some record => simp [reconcile, hrecord]

/-- A file that is up to date is not read. -/
theorem resolve_of_upToDate (hunlocked : around.locked = false) {old : FileRecord}
    (hold : registry.catalog.record? seen.path = some old)
    (hcurrent : old.upToDate seen.size seen.modified = true) {id : MediaId} {after : Registry}
    (hanswer : registry.reconcile around.present seen none = some (id, after)) :
    registry.resolve maxRetries around seen = ⟨.ok id, 0, after⟩ := by
  have hlooked : (Call.start seen).next maxRetries around registry =
      (⟨seen, .commit 0 none, 0⟩, registry) := by
    simp [Call.next, Call.start, Call.lookUp, Call.isUpToDate, Call.goTo, hold, hcurrent]
  unfold resolve
  rw [Call.run_next (Call.pending_start seen), hlooked]
  exact Call.run_of_reconcile rfl hunlocked hanswer

/-- A file seen as it is on record answers with the canonical identifier of its
content, and is not read. -/
theorem resolve_recorded (hpaths : registry.catalog.PathsDistinct)
    (hunlocked : around.locked = false) {old : FileRecord}
    (hold : registry.catalog.record? seen.path = some old)
    (hcurrent : old.upToDate seen.size seen.modified = true) {known : MediaId}
    (hknown : registry.catalog.canonical? old.hash = some known) :
    ∃ after, registry.resolve maxRetries around seen = ⟨.ok known, 0, after⟩ := by
  obtain ⟨id, after, hanswer⟩ := reconcile_of_upToDate around.present hold hcurrent
  obtain ⟨new, gone, hsettled⟩ := reconcile_settlement hpaths hanswer
  have hhash : new.hash = old.hash := hsettled.unchanged old hold hcurrent
  have hid : id = known := by
    rw [hsettled.answer_eq, hhash, hknown]
    rfl
  refine ⟨after, ?_⟩
  rw [resolve_of_upToDate hunlocked hold hcurrent hanswer, hid]

section Stale

variable (hstale : ∀ old, registry.catalog.record? seen.path = some old →
  old.upToDate seen.size seen.modified = false)

include hstale

/-- A call for a file that is not up to date goes on with reading it. -/
private theorem resolve_stale : registry.resolve maxRetries around seen =
    (Call.hash ⟨seen, .hash 0, 0⟩ 0 (around.digest seen.path)).run maxRetries around registry := by
  have hbehind : (Call.start seen).isUpToDate registry.catalog = false := by
    unfold Call.isUpToDate Call.start
    cases hrecord : registry.catalog.record? seen.path with
    | none => rfl
    | some old => exact hstale old hrecord
  have hlooked : (Call.start seen).next maxRetries around registry =
      (⟨seen, .hash 0, 0⟩, registry) := by
    change ((Call.start seen).lookUp 0 registry.catalog, registry) = _
    simp only [Call.lookUp, hbehind, Bool.false_eq_true, if_false]
    rfl
  have hpending : Call.Pending ⟨seen, .hash 0, 0⟩ := by
    rintro answer ⟨⟩
  unfold resolve
  rw [Call.run_next (Call.pending_start seen), hlooked, Call.run_next hpending]
  rfl

theorem resolve_unreadable {fault : DiskFault}
    (hdigest : around.digest seen.path = .error fault) :
    registry.resolve maxRetries around seen =
      ⟨.error (.unreadable (.ofText seen.path) fault), 1, registry⟩ := by
  rw [resolve_stale hstale, hdigest]
  exact Call.run_done rfl

/-- A file that is not up to date is read once. -/
theorem resolve_of_read (hunlocked : around.locked = false) {digest : String}
    (hdigest : around.digest seen.path = .ok digest) {id : MediaId} {after : Registry}
    (hanswer : registry.reconcile around.present seen (some digest) = some (id, after)) :
    registry.resolve maxRetries around seen = ⟨.ok id, 1, after⟩ := by
  rw [resolve_stale hstale, hdigest]
  exact Call.run_of_reconcile rfl hunlocked hanswer

/-- A file that is not up to date and can be read gets an answer, and the
content that was read goes on record. -/
theorem resolve_of_stale (hpaths : registry.catalog.PathsDistinct)
    (hunlocked : around.locked = false) (maxRetries : Nat) {hash : String}
    (hdigest : around.digest seen.path = .ok hash) :
    ∃ id new gone, (registry.resolve maxRetries around seen).answer = .ok id ∧
      Settlement around.present registry (registry.resolve maxRetries around seen).registry seen
        (some hash) id new gone ∧ new.hash = hash := by
  obtain ⟨id, after, hanswer⟩ := reconcile_of_read around.present registry seen hash
  obtain ⟨new, gone, hsettled⟩ := reconcile_settlement hpaths hanswer
  have hhash : hash = new.hash := Option.some.inj (hsettled.digested hstale)
  rw [resolve_of_read hstale hunlocked hdigest hanswer]
  exact ⟨id, new, gone, rfl, hsettled, hhash.symm⟩

end Stale

/-- All that a call can do to a registry when it meets no interference: nothing,
or one transaction, on the digest of the file unless that was up to date. -/
theorem resolve_cases (registry : Registry) (maxRetries : Nat) (around : Surroundings)
    (seen : Sighting) :
    (registry.resolve maxRetries around seen).registry = registry ∨
      ∃ digest id,
        registry.reconcile around.present seen digest =
          some (id, (registry.resolve maxRetries around seen).registry) ∧
        ∀ hash, digest = some hash → around.digest seen.path = .ok hash := by
  by_cases hlocked : around.locked = true
  · exact Or.inl (Call.run_locked hlocked)
  · have hunlocked : around.locked = false := by simpa using hlocked
    by_cases hstale : ∀ old, registry.catalog.record? seen.path = some old →
        old.upToDate seen.size seen.modified = false
    · cases hdigest : around.digest seen.path with
      | error fault =>
          left
          rw [resolve_unreadable hstale hdigest]
      | ok digest =>
          obtain ⟨id, after, hanswer⟩ :=
            reconcile_of_read around.present registry seen digest
          right
          refine ⟨some digest, id, ?_, ?_⟩
          · rw [resolve_of_read hstale hunlocked hdigest hanswer, hanswer]
          · intro hash heq
            obtain rfl : digest = hash := Option.some.inj heq
            rfl
    · simp only [not_forall, Bool.not_eq_false] at hstale
      obtain ⟨old, hold, hcurrent⟩ := hstale
      obtain ⟨id, after, hanswer⟩ := reconcile_of_upToDate around.present hold hcurrent
      right
      refine ⟨none, id, ?_, ?_⟩
      · rw [resolve_of_upToDate hunlocked hold hcurrent hanswer, hanswer]
      · intro hash heq
        cases heq

end Registry

/-- A registry and the files it is about, on which one thing is done after
another. -/
structure Library where
  registry : Registry
  around : Surroundings

namespace Library

def fresh (supply : IdSupply) (around : Surroundings) : Library :=
  ⟨⟨{}, supply⟩, around⟩

inductive Step : Library → Library → Prop where
  | resolve (library : Library) (maxRetries : Nat) (seen : Sighting) :
      Step library { library with
        registry := (library.registry.resolve maxRetries library.around seen).registry }
  | markMissing (library : Library) :
      Step library { library with
        registry := library.registry.withCatalog
          (library.registry.catalog.markMissing library.around.present).2 }
  | fileGone (library : Library) (path : String) :
      Step library { library with
        registry := library.registry.withCatalog
          (library.registry.catalog.setMissing path true).2 }
  | tag (library : Library) (write : TagWrite) (changed : Bool) (catalog : Catalog)
      (hmerged : library.registry.catalog.mergeTag write = .ok (changed, catalog)) :
      Step library { library with registry := library.registry.withCatalog catalog }
  | disturb (library : Library) (around : Surroundings) (hfaithful : around.Faithful) :
      Step library { library with around }

inductive Reachable : Library → Prop where
  | fresh (supply : IdSupply) (around : Surroundings) (hfaithful : around.Faithful) :
      Reachable (.fresh supply around)
  | step {before after : Library} (hbefore : Reachable before) (hstep : Step before after) :
      Reachable after

section Steps

variable {library before after : Library}

/-- A step changes the disk, or nothing but marks and tags, or it is one
transaction of a call. -/
theorem Step.cases (hstep : Step before after) :
    (after.registry = before.registry ∧ (before.around.Faithful → after.around.Faithful)) ∨
      after.around = before.around ∧
        (Registry.Alike before.registry after.registry ∨
          ∃ seen digest id,
            before.registry.reconcile before.around.present seen digest =
              some (id, after.registry) ∧
            ∀ hash, digest = some hash → before.around.digest seen.path = .ok hash) := by
  cases hstep with
  | resolve maxRetries seen =>
      rcases before.registry.resolve_cases maxRetries before.around seen with hsame | hended
      · left
        exact ⟨hsame, id⟩
      · right
        exact ⟨rfl, Or.inr ⟨seen, hended⟩⟩
  | markMissing => exact Or.inr ⟨rfl, Or.inl (Registry.alike_markAll _ _)⟩
  | fileGone path => exact Or.inr ⟨rfl, Or.inl (Registry.alike_setMissing _ path true)⟩
  | tag _ _ _ hmerged => exact Or.inr ⟨rfl, Or.inl (Registry.alike_mergeTag hmerged)⟩
  | disturb around hfaithful => exact Or.inl ⟨rfl, fun _ => hfaithful⟩

theorem Step.read {seen : Sighting}
    (hstale : ∀ old, library.registry.catalog.record? seen.path = some old →
      old.upToDate seen.size seen.modified = false)
    (hunlocked : library.around.locked = false) {digest : String}
    (hdigest : library.around.digest seen.path = .ok digest) {id : MediaId} {registry : Registry}
    (hanswer : library.registry.reconcile library.around.present seen (some digest) =
      some (id, registry)) :
    Step library { library with registry } := by
  have hended : library.registry.resolve 0 library.around seen = ⟨.ok id, 1, registry⟩ :=
    Registry.resolve_of_read hstale hunlocked hdigest hanswer
  have hstep := Step.resolve library 0 seen
  rw [hended] at hstep
  exact hstep

theorem Step.sound (hstep : Step before after) (hsound : before.registry.Sound) :
    after.registry.Sound := by
  rcases hstep.cases with ⟨hsame, -⟩ | ⟨-, halike | ⟨seen, digest, id, hanswer, -⟩⟩
  · rw [hsame]
    exact hsound
  · exact halike.sound hsound
  · obtain ⟨new, gone, hsettled⟩ := Registry.reconcile_settlement hsound.paths hanswer
    exact hsettled.sound hsound

theorem Step.faithful (hstep : Step before after) (hfaithful : before.around.Faithful) :
    after.around.Faithful := by
  rcases hstep.cases with ⟨-, hkept⟩ | ⟨hsame, -⟩
  · exact hkept hfaithful
  · rw [hsame]
    exact hfaithful

theorem Reachable.sound (hreach : Reachable library) : library.registry.Sound := by
  induction hreach with
  | fresh supply _ _ => exact Registry.sound_empty supply
  | step _ hstep ih => exact hstep.sound ih

theorem Reachable.faithful (hreach : Reachable library) : library.around.Faithful := by
  induction hreach with
  | fresh _ _ hfaithful => exact hfaithful
  | step _ hstep ih => exact hstep.faithful ih

end Steps

end Library

end MediaCatalog
