import Mathlib.Logic.Relation
import MediaCatalog.Proofs.Identity.Soundness
import MediaCatalog.Proofs.Identity.Steps

/-!
Any number of calls at once. A site has one registry and one disk; calls,
cleaners and writers of tags go on by turns, one look-up, one reading of a
file or one transaction at a time, and the disk may change between any two of
these turns. A cleaner looks for files that are gone in one turn and marks
them in a later one, when they may be there again.

A canonical identifier is written once, so that all calls which leave a path
with one content give one answer, however they overlap.
-/

namespace MediaCatalog

/-- A registry and its surroundings, with the work on it. Calls are known by
their number and stay in the list when they have ended; `found` holds what
cleaners found gone and have still to mark. -/
structure Site where
  registry : Registry
  around : Surroundings
  calls : List Call
  found : List (List String)

namespace Site

/-- An empty catalog on which nobody works. -/
def fresh (supply : IdSupply) (around : Surroundings) : Site :=
  ⟨⟨{}, supply⟩, around, [], []⟩

def advance (site : Site) (i maxRetries : Nat) : Site :=
  match site.calls[i]? with
  | some call =>
      { site with
        registry := (call.next maxRetries site.around site.registry).2
        calls := site.calls.set i (call.next maxRetries site.around site.registry).1 }
  | none => site

inductive Step : Site → Site → Prop where
  | begin (site : Site) (seen : Sighting) :
      Step site { site with calls := site.calls ++ [.start seen] }
  | advance (site : Site) (i maxRetries : Nat) : Step site (site.advance i maxRetries)
  /-- A call is ended by something else than another writer: the database could
  not be read. -/
  | fail (site : Site) (i : Nat) (call : Call) (fault : CatalogFault)
      (hcall : site.calls[i]? = some call) (hpending : call.Pending) :
      Step site { site with calls := site.calls.set i (call.goTo (.done (.error fault))) }
  | find (site : Site) :
      Step site { site with
        found := site.found ++ [site.registry.catalog.gonePaths site.around.present] }
  | mark (site : Site) (gone : List String) (hfound : gone ∈ site.found) :
      Step site { site with
        registry := site.registry.withCatalog (site.registry.catalog.markAll gone).2
        found := site.found.erase gone }
  | markOne (site : Site) (path : String) :
      Step site { site with
        registry := site.registry.withCatalog (site.registry.catalog.setMissing path true).2 }
  | tag (site : Site) (write : TagWrite) (changed : Bool) (catalog : Catalog)
      (hmerged : site.registry.catalog.mergeTag write = .ok (changed, catalog)) :
      Step site { site with registry := site.registry.withCatalog catalog }
  | disturb (site : Site) (around : Surroundings) : Step site { site with around }

/-- What some turns can lead to. -/
abbrev Later : Site → Site → Prop :=
  Relation.ReflTransGen Step

def Reachable (site : Site) : Prop :=
  ∃ supply around, Later (fresh supply around) site

/-- Call number `i` is about to end well: its next step is a transaction that
settles its file as `id`. -/
structure Answers (site : Site) (i maxRetries : Nat) (call : Call) (id : MediaId) : Prop where
  found : site.calls[i]? = some call
  pending : call.Pending
  answer : (call.next maxRetries site.around site.registry).1.stage = .done (.ok id)

/-- Call number `i` is about to read `hash` as the digest of its file. -/
def Reads (site : Site) (i : Nat) (seen : Sighting) (hash : String) : Prop :=
  ∃ call failed, site.calls[i]? = some call ∧ call.seen = seen ∧
    call.stage = .hash failed ∧ site.around.digest seen.path = .ok hash

/-- The content on record for a path. -/
def contentOf (site : Site) (path : String) : Option String :=
  (site.registry.catalog.record? path).map FileRecord.hash

section Turns

variable {site later : Site}

theorem advance_registry {i maxRetries : Nat} {call : Call}
    (hcall : site.calls[i]? = some call) :
    (site.advance i maxRetries).registry =
      (call.next maxRetries site.around site.registry).2 := by
  simp [advance, hcall]

/-- With a call that ends well its transaction answers. -/
theorem Answers.reconciled {i maxRetries : Nat} {call : Call} {id : MediaId}
    (hanswers : Answers site i maxRetries call id) :
    ∃ failed digest, call.stage = .commit failed digest ∧
      site.registry.reconcile site.around.present call.seen digest =
        some (id, (site.advance i maxRetries).registry) := by
  obtain ⟨hcall, hpending, hanswer⟩ := hanswers
  rw [advance_registry hcall]
  rcases call.next_cases with ⟨_, hnot⟩ | ⟨failed, digest, other, hstage, hreconciled, hended⟩
  · exact absurd hanswer (hnot hpending id)
  · obtain rfl : other = id := by simpa [hanswer] using hended.symm
    exact ⟨failed, digest, hstage, hreconciled⟩

/-- A turn leaves the registry as it is but for marks and tags, or a call ends
well with it. -/
theorem Step.answers_cases (hstep : Step site later) :
    Registry.Alike site.registry later.registry ∨
      ∃ i maxRetries call id, Answers site i maxRetries call id ∧
        later = site.advance i maxRetries := by
  cases hstep with
  | begin _ | fail _ _ _ _ _ | find | disturb _ => exact Or.inl ⟨rfl, rfl, rfl⟩
  | mark gone _ => exact Or.inl (Registry.alike_markAll _ gone)
  | markOne path => exact Or.inl (Registry.alike_setMissing _ path true)
  | tag _ _ _ hmerged => exact Or.inl (Registry.alike_mergeTag hmerged)
  | advance i maxRetries =>
      cases hcall : site.calls[i]? with
      | none =>
          have hsame : site.advance i maxRetries = site := by simp [Site.advance, hcall]
          rw [hsame]
          exact Or.inl ⟨rfl, rfl, rfl⟩
      | some call =>
          rcases call.next_cases with ⟨hsame, _⟩ | ⟨_, _, id, hstage, _, hended⟩
          · rw [advance_registry hcall, hsame]
            exact Or.inl ⟨rfl, rfl, rfl⟩
          · exact Or.inr ⟨i, maxRetries, call, id,
              ⟨hcall, Call.pending_of_commit hstage, hended⟩, rfl⟩

theorem Step.registry_cases (hstep : Step site later) :
    Registry.Alike site.registry later.registry ∨
      ∃ seen digest id, site.registry.reconcile site.around.present seen digest =
        some (id, later.registry) := by
  rcases hstep.answers_cases with halike | ⟨i, maxRetries, call, id, hanswers, rfl⟩
  · exact Or.inl halike
  · obtain ⟨_, digest, _, hanswer⟩ := hanswers.reconciled
    exact Or.inr ⟨call.seen, digest, id, hanswer⟩

theorem Step.sound (hstep : Step site later) (hsound : site.registry.Sound) :
    later.registry.Sound := by
  rcases hstep.registry_cases with halike | ⟨seen, digest, id, hanswer⟩
  · exact halike.sound hsound
  · obtain ⟨new, gone, hsettled⟩ := Registry.reconcile_settlement hsound.paths hanswer
    exact hsettled.sound hsound

theorem Step.canonical?_mono (hstep : Step site later) (hsound : site.registry.Sound)
    {hash : String} {id : MediaId} (hid : site.registry.catalog.canonical? hash = some id) :
    later.registry.catalog.canonical? hash = some id := by
  rcases hstep.registry_cases with halike | ⟨seen, digest, answer, hanswer⟩
  · rw [halike.canonical?]
    exact hid
  · obtain ⟨new, gone, hsettled⟩ := Registry.reconcile_settlement hsound.paths hanswer
    exact hsettled.canonical?_mono hid

theorem Later.sound (hlater : Later site later) (hsound : site.registry.Sound) :
    later.registry.Sound := by
  induction hlater with
  | refl => exact hsound
  | tail _ hstep ih => exact hstep.sound ih

theorem Later.canonical?_mono (hlater : Later site later) (hsound : site.registry.Sound)
    {hash : String} {id : MediaId} (hid : site.registry.catalog.canonical? hash = some id) :
    later.registry.catalog.canonical? hash = some id := by
  induction hlater with
  | refl => exact hid
  | tail hbefore hstep ih => exact hstep.canonical?_mono (Later.sound hbefore hsound) ih

theorem Reachable.sound (hreach : Reachable site) : site.registry.Sound := by
  obtain ⟨supply, around, hlater⟩ := hreach
  exact hlater.sound (Registry.sound_empty supply)

theorem Reachable.of_later (hreach : Reachable site) (hlater : Later site later) :
    Reachable later := by
  obtain ⟨supply, around, hbefore⟩ := hreach
  exact ⟨supply, around, hbefore.trans hlater⟩

end Turns

section Answers

variable {site : Site} {i maxRetries : Nat} {call : Call} {id : MediaId}

theorem Answers.settlement (hsound : site.registry.Sound)
    (hanswers : Answers site i maxRetries call id) :
    ∃ failed digest new gone, call.stage = .commit failed digest ∧
      Registry.Settlement site.around.present site.registry
        (site.advance i maxRetries).registry call.seen digest id new gone := by
  obtain ⟨failed, digest, hstage, hreconciled⟩ := hanswers.reconciled
  obtain ⟨new, gone, hsettled⟩ := Registry.reconcile_settlement hsound.paths hreconciled
  exact ⟨failed, digest, new, gone, hstage, hsettled⟩

theorem Answers.canonical?_content (hsound : site.registry.Sound)
    (hanswers : Answers site i maxRetries call id) {hash : String}
    (hcontent : (site.advance i maxRetries).contentOf call.seen.path = some hash) :
    (site.advance i maxRetries).registry.catalog.canonical? hash = some id := by
  obtain ⟨_, _, new, gone, _, hsettled⟩ := hanswers.settlement hsound
  simp only [contentOf, hsettled.record?_seen, Option.map_some, Option.some.injEq] at hcontent
  rw [← hcontent]
  exact hsettled.canonical?_new

theorem Answers.of_reconcile {failed : Nat} {digest : Option String}
    (hcall : site.calls[i]? = some call) (hstage : call.stage = .commit failed digest)
    (hunlocked : site.around.locked = false) {after : Registry}
    (hanswer : site.registry.reconcile site.around.present call.seen digest = some (id, after)) :
    Answers site i maxRetries call id ∧
      site.advance i maxRetries = { site with
        registry := after
        calls := site.calls.set i (call.goTo (.done (.ok id))) } := by
  have hnext : call.next maxRetries site.around site.registry =
      (call.goTo (.done (.ok id)), after) :=
    Call.next_of_reconcile hstage hunlocked hanswer
  constructor
  · refine ⟨hcall, Call.pending_of_commit hstage, ?_⟩
    rw [hnext]
    rfl
  · simp only [advance, hcall, hnext]

/-- One turn leaves the calls as they are, begins one, lets one go on, or ends
one with a fault. -/
theorem Step.calls_cases {later : Site} (hstep : Step site later) :
    later.calls = site.calls ∨ (∃ seen, later.calls = site.calls ++ [.start seen]) ∨
      (∃ j maxRetries before, site.calls[j]? = some before ∧
        later = site.advance j maxRetries ∧
        later.calls = site.calls.set j (before.next maxRetries site.around site.registry).1) ∨
      ∃ j before fault,
        later.calls = site.calls.set j (Call.goTo before (.done (.error fault))) := by
  cases hstep with
  | find | mark _ _ | markOne _ | tag _ _ _ _ | disturb _ => exact Or.inl rfl
  | begin seen => exact Or.inr (Or.inl ⟨seen, rfl⟩)
  | fail j before fault _ _ => exact Or.inr (Or.inr (Or.inr ⟨j, before, fault, rfl⟩))
  | advance j maxRetries =>
      cases hfound : site.calls[j]? with
      | none =>
          left
          simp only [Site.advance, hfound]
      | some before =>
          refine Or.inr (Or.inr (Or.inl ⟨j, maxRetries, before, hfound, rfl, ?_⟩))
          simp only [Site.advance, hfound]

theorem eq_of_getElem?_set {calls : List Call} {j : Nat} {other : Call}
    (hcall : (calls.set j other)[i]? = some call) :
    j = i ∧ call = other ∨ calls[i]? = some call := by
  rw [List.getElem?_set] at hcall
  split at hcall
  · rename_i hij
    split at hcall
    · exact Or.inl ⟨hij, (Option.some.inj hcall).symm⟩
    · cases hcall
  · exact Or.inr hcall

/-- What happens to call number `i` in one turn: it is new, it stays as it is,
it goes on, or it fails. -/
theorem Step.call_cases {later : Site} (hstep : Step site later)
    (hcall : later.calls[i]? = some call) :
    (∃ seen, call = .start seen) ∨ site.calls[i]? = some call ∨
      (∃ before maxRetries, site.calls[i]? = some before ∧
        later = site.advance i maxRetries ∧
        call = (before.next maxRetries site.around site.registry).1) ∨
      ∃ before fault, call = Call.goTo before (.done (.error fault)) := by
  rcases hstep.calls_cases with hsame | ⟨seen, hmore⟩ |
    ⟨j, maxRetries, before, hbefore, hadvanced, hset⟩ | ⟨j, before, fault, hset⟩
  · exact Or.inr (Or.inl (hsame ▸ hcall))
  · rw [hmore, List.getElem?_append] at hcall
    split at hcall
    · exact Or.inr (Or.inl hcall)
    · exact Or.inl ⟨seen, List.mem_singleton.mp (List.mem_of_getElem? hcall)⟩
  · rw [hset] at hcall
    rcases eq_of_getElem?_set hcall with ⟨rfl, rfl⟩ | hkept
    · exact Or.inr (Or.inr (Or.inl ⟨before, maxRetries, hbefore, hadvanced, rfl⟩))
    · exact Or.inr (Or.inl hkept)
  · rw [hset] at hcall
    rcases eq_of_getElem?_set hcall with ⟨-, rfl⟩ | hkept
    · exact Or.inr (Or.inr (Or.inr ⟨before, fault, rfl⟩))
    · exact Or.inr (Or.inl hkept)

/-- A call that has ended well came to its end by a transaction. -/
theorem Reachable.answered (hreach : site.Reachable) (hcall : site.calls[i]? = some call)
    (hstage : call.stage = .done (.ok id)) :
    ∃ earlier maxRetries before, Reachable earlier ∧ Answers earlier i maxRetries before id ∧
      before.seen = call.seen ∧ Later (earlier.advance i maxRetries) site := by
  obtain ⟨supply, around, hlater⟩ := hreach
  induction hlater generalizing call with
  | refl => simp [Site.fresh] at hcall
  | @tail between site hbetween hstep ih =>
      rcases hstep.call_cases hcall with ⟨seen, rfl⟩ | hsame | hnext | ⟨other, fault, rfl⟩
      · simp [Call.start] at hstage
      · obtain ⟨earlier, m, before, hearlier, hanswers, hseen, hled⟩ := ih hsame hstage
        exact ⟨earlier, m, before, hearlier, hanswers, hseen, hled.tail hstep⟩
      · obtain ⟨other, maxRetries, hother, hadvanced, rfl⟩ := hnext
        rw [Call.seen_next]
        by_cases hpending : other.Pending
        · refine ⟨between, maxRetries, other, ⟨supply, around, hbetween⟩, ?_, rfl, ?_⟩
          · exact ⟨hother, hpending, hstage⟩
          · rw [hadvanced]
        · have hended : other.stage = .done (.ok id) := by
            simp only [Call.Pending, not_forall, not_not] at hpending
            obtain ⟨answer, hanswer⟩ := hpending
            simpa [Call.next, hanswer] using hstage
          obtain ⟨earlier, m, before, hearlier, hanswers, hseen, hled⟩ := ih hother hended
          exact ⟨earlier, m, before, hearlier, hanswers, hseen, hled.tail hstep⟩
      · simp [Call.goTo] at hstage

/-- A canonical identifier is for good, and two calls that end well, at
whatever times and for whatever paths, give one answer if their transactions
leave their paths with one content. -/
theorem answers_converge (hreach : site.Reachable) :
    (∀ later, Later site later → ∀ hash known,
      site.registry.catalog.canonical? hash = some known →
        later.registry.catalog.canonical? hash = some known) ∧
    ∀ i maxRetries call id, Answers site i maxRetries call id →
      ∀ later, Later (site.advance i maxRetries) later →
        ∀ j otherRetries other otherId, Answers later j otherRetries other otherId →
          ∀ hash, (site.advance i maxRetries).contentOf call.seen.path = some hash →
            (later.advance j otherRetries).contentOf other.seen.path = some hash →
              id = otherId := by
  have hsound := hreach.sound
  refine ⟨fun later hlater hash known hknown => hlater.canonical?_mono hsound hknown, ?_⟩
  intro i maxRetries call id hfirst later hlater j otherRetries other otherId hsecond hash
    hcontent hotherContent
  have hafter : (site.advance i maxRetries).registry.Sound :=
    (Step.advance site i maxRetries).sound hsound
  have hlaterSound : later.registry.Sound := hlater.sound hafter
  have hid := hfirst.canonical?_content hsound hcontent
  have hended : Later (site.advance i maxRetries) (later.advance j otherRetries) :=
    hlater.tail (.advance later j otherRetries)
  have hkept := hended.canonical?_mono hafter hid
  have hotherId := hsecond.canonical?_content hlaterSound hotherContent
  rw [hkept] at hotherId
  exact Option.some.inj hotherId

/-- Two calls have read identical files, and neither has come to its
transaction. -/
def overlapping : Site :=
  ⟨.ofSeries [] [] 0, ⟨fun _ => true, fun _ => .ok "5a", false⟩,
    [⟨⟨"/a", 1, 7⟩, .commit 0 (some "5a"), 1⟩, ⟨⟨"/b", 1, 9⟩, .commit 0 (some "5a"), 1⟩], []⟩

theorem overlapping_reachable : overlapping.Reachable := by
  let start := fresh (.ofSeries "#") overlapping.around
  have hbegun : Later start { start with calls := [.start ⟨"/a", 1, 7⟩, .start ⟨"/b", 1, 9⟩] } :=
    .tail (.tail .refl (.begin start ⟨"/a", 1, 7⟩)) (.begin _ ⟨"/b", 1, 9⟩)
  have hlooked := (hbegun.tail (.advance _ 0 0)).tail (.advance _ 1 0)
  have hread := (hlooked.tail (.advance _ 0 0)).tail (.advance _ 1 0)
  exact ⟨.ofSeries "#", overlapping.around, hread⟩

def halfEnded : Site :=
  { overlapping with
    registry := .ofSeries [⟨"/a", 1, 7, "5a", .numbered "#" 0, false⟩]
      [⟨"5a", .numbered "#" 0⟩] 1
    calls := [⟨⟨"/a", 1, 7⟩, .done (.ok (.numbered "#" 0)), 1⟩,
      ⟨⟨"/b", 1, 9⟩, .commit 0 (some "5a"), 1⟩] }

theorem overlapping_first :
    Answers overlapping 0 0 ⟨⟨"/a", 1, 7⟩, .commit 0 (some "5a"), 1⟩ (.numbered "#" 0) ∧
      overlapping.advance 0 0 = halfEnded :=
  Answers.of_reconcile rfl rfl rfl (Registry.reconcile_of_new rfl rfl List.not_mem_nil)

def bothEnded : Site :=
  { overlapping with
    registry := .ofSeries
      [⟨"/a", 1, 7, "5a", .numbered "#" 0, false⟩, ⟨"/b", 1, 9, "5a", .numbered "#" 1, false⟩]
      [⟨"5a", .numbered "#" 0⟩] 2
    calls := [⟨⟨"/a", 1, 7⟩, .done (.ok (.numbered "#" 0)), 1⟩,
      ⟨⟨"/b", 1, 9⟩, .done (.ok (.numbered "#" 0)), 1⟩] }

theorem halfEnded_second :
    Answers halfEnded 1 0 ⟨⟨"/b", 1, 9⟩, .commit 0 (some "5a"), 1⟩ (.numbered "#" 0) ∧
      halfEnded.advance 1 0 = bothEnded :=
  Answers.of_reconcile rfl rfl rfl (Registry.reconcile_of_new rfl rfl (by decide))

theorem bothEnded_reachable : bothEnded.Reachable := by
  have hended : Later overlapping bothEnded := by
    rw [← halfEnded_second.2, ← overlapping_first.2]
    exact .tail (.tail .refl (.advance overlapping 0 0)) (.advance _ 1 0)
  exact overlapping_reachable.of_later hended

/-- Both calls answer with the identifier that the first of them drew. -/
theorem overlapping_converge :
    ∃ first second id otherId,
      Answers overlapping 0 0 first id ∧ Answers (overlapping.advance 0 0) 1 0 second otherId ∧
        (overlapping.advance 0 0).contentOf first.seen.path = some "5a" ∧
        ((overlapping.advance 0 0).advance 1 0).contentOf second.seen.path = some "5a" ∧
        first.seen.path ≠ second.seen.path ∧ id = otherId := by
  obtain ⟨hfirst, hhalf⟩ := overlapping_first
  obtain ⟨hsecond, hboth⟩ := halfEnded_second
  have hconverge := (answers_converge overlapping_reachable).2 0 0 _ _ hfirst
  rw [hhalf] at hconverge ⊢
  refine ⟨_, _, _, _, hfirst, hsecond, rfl, ?_, by decide, ?_⟩
  · rw [hboth]
    rfl
  · refine hconverge halfEnded .refl 1 0 _ _ hsecond "5a" rfl ?_
    rw [hboth]
    rfl

end Answers

end Site

end MediaCatalog
