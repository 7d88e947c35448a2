import MediaCatalog.Identity.Resolution

/-!
What one step of a call can do. Only a transaction that answers changes the
registry, and with it the call ends well; a digest that is brought to a
transaction was read by the call itself. A run without interference is a chain
of such steps.
-/

namespace MediaCatalog

namespace Call

/-- A call has not come to its end. -/
def Pending (call : Call) : Prop :=
  ∀ answer, call.stage ≠ .done answer

theorem pending_start (seen : Sighting) : (start seen).Pending := by
  rintro answer ⟨⟩

theorem pending_of_commit {call : Call} {failed : Nat} {digest : Option String}
    (hstage : call.stage = .commit failed digest) : call.Pending := by
  intro answer hdone
  rw [hstage] at hdone
  cases hdone

variable (call : Call) (maxRetries : Nat) (around : Surroundings) (registry : Registry)

@[simp] theorem seen_retry (failed : Nat) (digest : Option String) :
    (call.retry maxRetries failed digest).seen = call.seen := by
  unfold retry
  split
  · rfl
  · split <;> rfl

@[simp] theorem seen_next : (call.next maxRetries around registry).1.seen = call.seen := by
  unfold next
  split
  · rfl
  · unfold hash
    split <;> rfl
  · unfold commit
    split
    · simp
    · split
      · rfl
      · simp
  · rfl

variable {call maxRetries around registry}

theorem retry_not_ok {failed : Nat} {digest : Option String} {id : MediaId} :
    (call.retry maxRetries failed digest).stage ≠ .done (.ok id) := by
  unfold retry
  split
  · simp [goTo]
  · split <;> simp [goTo]

/-- A step leaves the registry as it is, or it is a transaction with which the
call ends well. -/
theorem next_cases :
    ((call.next maxRetries around registry).2 = registry ∧
        (call.Pending → ∀ id,
          (call.next maxRetries around registry).1.stage ≠ .done (.ok id))) ∨
      ∃ failed digest id, call.stage = .commit failed digest ∧
        registry.reconcile around.present call.seen digest =
          some (id, (call.next maxRetries around registry).2) ∧
        (call.next maxRetries around registry).1.stage = .done (.ok id) := by
  unfold next
  split
  · left
    refine ⟨rfl, fun _ id => ?_⟩
    unfold lookUp
    split <;> simp [goTo]
  · left
    refine ⟨rfl, fun _ id => ?_⟩
    unfold hash
    split <;> simp
  · rename_i failed digest hstage
    unfold commit
    split
    · exact Or.inl ⟨rfl, fun _ id => retry_not_ok⟩
    · split
      · rename_i id after hanswer
        exact Or.inr ⟨failed, digest, id, hstage, hanswer, rfl⟩
      · exact Or.inl ⟨rfl, fun _ id => retry_not_ok⟩
  · rename_i answer hstage
    exact Or.inl ⟨rfl, fun hpending => absurd hstage (hpending answer)⟩

/-- The call brings `hash` to its transactions, or it has ended. -/
def Keeps (call : Call) (hash : String) : Prop :=
  (∃ failed, call.stage = .commit failed (some hash)) ∨ ∃ answer, call.stage = .done answer

theorem Keeps.commit {hash other : String} {failed : Nat} (hkeeps : call.Keeps hash)
    (hstage : call.stage = .commit failed (some other)) : other = hash := by
  rcases hkeeps with ⟨before, hcommit⟩ | ⟨answer, hdone⟩
  · rw [hstage] at hcommit
    cases hcommit
    rfl
  · rw [hstage] at hdone
    cases hdone

theorem keeps_retry (failed : Nat) (hash : String) :
    (call.retry maxRetries failed (some hash)).Keeps hash := by
  unfold retry
  split
  · exact Or.inr ⟨_, rfl⟩
  · exact Or.inl ⟨failed + 1, rfl⟩

theorem Keeps.next {hash : String} (hkeeps : call.Keeps hash) :
    (call.next maxRetries around registry).1.Keeps hash := by
  rcases hkeeps with ⟨failed, hstage⟩ | ⟨answer, hstage⟩
  · simp only [Call.next, hstage, Call.commit]
    split
    · exact keeps_retry failed hash
    · split
      · exact Or.inr ⟨_, rfl⟩
      · exact keeps_retry failed hash
  · simp only [Call.next, hstage]
    exact Or.inr ⟨answer, hstage⟩

/-- A transaction that answers ends its call. -/
theorem next_of_reconcile {failed : Nat} {digest : Option String}
    (hstage : call.stage = .commit failed digest) (hunlocked : around.locked = false)
    {id : MediaId} {after : Registry}
    (hanswer : registry.reconcile around.present call.seen digest = some (id, after)) :
    call.next maxRetries around registry = (call.goTo (.done (.ok id)), after) := by
  simp [next, commit, hstage, hunlocked, hanswer]

section Run

theorem run_done {answer : Except CatalogFault MediaId} (hstage : call.stage = .done answer) :
    call.run maxRetries around registry = ⟨answer, call.hashings, registry⟩ := by
  unfold run
  split
  · rename_i found hfound
    obtain rfl : found = answer := by simpa [hstage] using hfound.symm
    rfl
  all_goals
    rename_i hfound
    simp [hstage] at hfound

theorem run_next (hpending : call.Pending) :
    call.run maxRetries around registry =
      (call.next maxRetries around registry).1.run maxRetries around
        (call.next maxRetries around registry).2 := by
  rw [run]
  split
  · rename_i answer hstage
    exact absurd hstage (hpending answer)
  all_goals rfl

/-- A call whose transaction answers has come to its end. -/
theorem run_of_reconcile {failed : Nat} {digest : Option String}
    (hstage : call.stage = .commit failed digest) (hunlocked : around.locked = false)
    {id : MediaId} {after : Registry}
    (hanswer : registry.reconcile around.present call.seen digest = some (id, after)) :
    call.run maxRetries around registry = ⟨.ok id, call.hashings, after⟩ := by
  rw [run_next (pending_of_commit hstage), next_of_reconcile hstage hunlocked hanswer]
  exact run_done rfl

theorem next_locked (hlocked : around.locked = true) :
    (call.next maxRetries around registry).2 = registry := by
  unfold next
  split
  · rfl
  · rfl
  · simp [commit, hlocked]
  · rfl

/-- While another writer holds the database nothing is written. -/
theorem run_locked (hlocked : around.locked = true) :
    (call.run maxRetries around registry).registry = registry := by
  fun_induction run with
  | case1 => rfl
  | case2 call registry _ _ ih | case3 call registry _ _ ih | case4 call registry _ _ _ ih =>
      rw [ih, next_locked hlocked]

end Run

end Call

end MediaCatalog
