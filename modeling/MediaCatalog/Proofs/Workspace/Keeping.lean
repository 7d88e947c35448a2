import MediaCatalog.Proofs.Workspace.Deeds

/-!
What deeds keep. A deed that keeps a property of the state keeps it however it
ends, and may tell something of its answer. One that spares it keeps it when it
stops with a fault, and may break it when it answers; so one that always answers
spares everything. A sequence spares what its first part keeps and its second
part spares. What a deed leaves in the place of a property, it leaves when it
answers.
-/

namespace MediaCatalog

variable {σ ε α β : Type}

/-- The deed leaves the property as it was, and what it answers is as told. -/
def Keeps (holds : σ → Prop) (deed : ExceptT ε (StateM σ) α) (tells : α → Prop) : Prop :=
  ∀ state, holds state →
    holds (outcome deed state).2 ∧ ∀ value, (outcome deed state).1 = .ok value → tells value

/-- The deed leaves the property as it was if it stops. -/
def Spares (holds : σ → Prop) (deed : ExceptT ε (StateM σ) α) : Prop :=
  ∀ state, holds state → ∀ fault, (outcome deed state).1 = .error fault →
    holds (outcome deed state).2

/-- What the deed leaves when it answers. -/
def Leaves (holds : σ → Prop) (deed : ExceptT ε (StateM σ) α) (leaves : α → σ → Prop) : Prop :=
  ∀ state, holds state → ∀ value, (outcome deed state).1 = .ok value →
    leaves value (outcome deed state).2

/-- The deed does not stop. -/
def Answers (deed : ExceptT ε (StateM σ) α) : Prop :=
  ∀ state, ∃ value, (outcome deed state).1 = .ok value

variable {holds : σ → Prop} {tells : α → Prop} {replies : β → Prop}
  {first : ExceptT ε (StateM σ) α} {next : α → ExceptT ε (StateM σ) β}

section Keeps

theorem keeps_pure {value : α} (htells : tells value) :
    Keeps holds (pure value : ExceptT ε (StateM σ) α) tells := by
  intro state hstate
  refine ⟨hstate, ?_⟩
  rintro answer ⟨⟩
  exact htells

theorem keeps_throw (fault : ε) :
    Keeps holds (throw fault : ExceptT ε (StateM σ) α) tells := by
  intro state hstate
  refine ⟨hstate, ?_⟩
  rintro answer ⟨⟩

theorem keeps_liftExcept (answer : Except ε α) :
    Keeps holds (liftExcept answer : ExceptT ε (StateM σ) α) fun value => answer = .ok value := by
  cases answer with
  | ok value => exact keeps_pure rfl
  | error fault => exact keeps_throw fault

theorem keeps_get : Keeps holds (get : ExceptT ε (StateM σ) σ) holds := by
  intro state hstate
  refine ⟨hstate, ?_⟩
  rintro found ⟨⟩
  exact hstate

theorem keeps_set {state : σ} (hstate : holds state) :
    Keeps holds (set state : ExceptT ε (StateM σ) PUnit) fun _ => True := by
  intro _ _
  exact ⟨hstate, fun _ _ => trivial⟩

theorem keeps_modify {change : σ → σ} (hchange : ∀ state, holds state → holds (change state)) :
    Keeps holds (modify change : ExceptT ε (StateM σ) PUnit) fun _ => True := by
  intro state hstate
  exact ⟨hchange state hstate, fun _ _ => trivial⟩

theorem keeps_of_state (hfirst : ∀ state, holds state → Keeps holds first tells) :
    Keeps holds first tells :=
  fun state hstate => hfirst state hstate state hstate

/-- What is done with the state is done with one that has the property. -/
theorem keeps_get_bind {next : σ → ExceptT ε (StateM σ) β}
    (hnext : ∀ state, holds state → Keeps holds (next state) replies) :
    Keeps holds (get >>= next) replies :=
  fun state hstate => hnext state hstate state hstate

theorem Keeps.bind (hfirst : Keeps holds first tells)
    (hnext : ∀ value, tells value → Keeps holds (next value) replies) :
    Keeps holds (first >>= next) replies := by
  intro state hstate
  obtain ⟨hleft, htells⟩ := hfirst state hstate
  rw [outcome_bind]
  cases hfound : outcome first state with
  | mk answer left =>
      rw [hfound] at hleft htells
      cases answer with
      | ok value => exact hnext value (htells value rfl) left hleft
      | error fault => exact ⟨hleft, fun _ hanswer => nomatch hanswer⟩

/-- What is done first under a condition only, such as a check that may stop. -/
theorem Keeps.guarded {condition : Prop} [Decidable condition] {check : ExceptT ε (StateM σ) α}
    {onward : ExceptT ε (StateM σ) β} (hcheck : condition → Keeps holds check fun _ => True)
    (honward : Keeps holds onward replies) :
    Keeps holds (if condition then check >>= fun _ => onward else onward) replies := by
  split
  · rename_i hcondition
    exact (hcheck hcondition).bind fun _ _ => honward
  · exact honward

end Keeps

section Answers

theorem answers_pure (value : α) : Answers (pure value : ExceptT ε (StateM σ) α) :=
  fun _ => ⟨value, rfl⟩

theorem answers_set (state : σ) : Answers (set state : ExceptT ε (StateM σ) PUnit) :=
  fun _ => ⟨⟨⟩, rfl⟩

theorem answers_modify (change : σ → σ) :
    Answers (modify change : ExceptT ε (StateM σ) PUnit) :=
  fun _ => ⟨⟨⟩, rfl⟩

theorem answers_get_bind {next : σ → ExceptT ε (StateM σ) β}
    (hnext : ∀ state, Answers (next state)) : Answers (get >>= next) :=
  fun state => hnext state state

theorem Answers.bind (hfirst : Answers first) (hnext : ∀ value, Answers (next value)) :
    Answers (first >>= next) := by
  intro state
  obtain ⟨value, hvalue⟩ := hfirst state
  rw [outcome_bind]
  cases hfound : outcome first state with
  | mk answer left =>
      rw [hfound] at hvalue
      subst hvalue
      exact hnext value left

theorem Answers.guarded {condition : Prop} [Decidable condition]
    {check : ExceptT ε (StateM σ) α} {onward : ExceptT ε (StateM σ) β} (hcheck : Answers check)
    (honward : Answers onward) :
    Answers (if condition then check >>= fun _ => onward else onward) := by
  split
  · exact hcheck.bind fun _ => honward
  · exact honward

end Answers

section Leaves

variable {leaves : β → σ → Prop} {between : α → σ → Prop}

theorem leaves_pure {value : β} (hleaves : ∀ state, holds state → leaves value state) :
    Leaves holds (pure value : ExceptT ε (StateM σ) β) leaves := by
  rintro state hstate answer ⟨⟩
  exact hleaves state hstate

theorem leaves_throw (fault : ε) :
    Leaves holds (throw fault : ExceptT ε (StateM σ) β) leaves := by
  rintro state hstate answer ⟨⟩

theorem leaves_get_bind {next : σ → ExceptT ε (StateM σ) β}
    (hnext : ∀ state, Leaves holds (next state) leaves) : Leaves holds (get >>= next) leaves :=
  fun state hstate => hnext state state hstate

theorem Leaves.bind (hfirst : Leaves holds first between)
    (hnext : ∀ value, Leaves (between value) (next value) leaves) :
    Leaves holds (first >>= next) leaves := by
  intro state hstate value
  have hbetween := hfirst state hstate
  rw [outcome_bind]
  cases hfound : outcome first state with
  | mk answer left =>
      rw [hfound] at hbetween
      cases answer with
      | ok found => exact hnext found left (hbetween found rfl) value
      | error fault => exact fun hanswer => nomatch hanswer

theorem Keeps.leaves_holding (hfirst : Keeps holds first fun _ => True) :
    Leaves holds first fun _ state => holds state :=
  fun state hstate _ _ => (hfirst state hstate).1

theorem Keeps.bind_leaves (hfirst : Keeps holds first tells)
    (hnext : ∀ value, tells value → Leaves holds (next value) leaves) :
    Leaves holds (first >>= next) leaves := by
  have hleaves : Leaves holds first fun value state => tells value ∧ holds state :=
    fun state hstate value hvalue =>
      ⟨(hfirst state hstate).2 value hvalue, (hfirst state hstate).1⟩
  exact hleaves.bind fun value state ⟨hvalue, hstate⟩ => hnext value hvalue state hstate

end Leaves

section Spares

theorem Keeps.spares (hfirst : Keeps holds first tells) : Spares holds first :=
  fun state hstate _ _ => (hfirst state hstate).1

theorem Answers.spares (hfirst : Answers first) : Spares holds first := by
  intro state _ fault hfault
  obtain ⟨value, hvalue⟩ := hfirst state
  rw [hvalue] at hfault
  cases hfault

theorem Keeps.bind_spares (hfirst : Keeps holds first tells)
    (hnext : ∀ value, tells value → Spares holds (next value)) :
    Spares holds (first >>= next) := by
  intro state hstate fault
  obtain ⟨hleft, htells⟩ := hfirst state hstate
  rw [outcome_bind]
  cases hfound : outcome first state with
  | mk answer left =>
      rw [hfound] at hleft htells
      cases answer with
      | ok value => exact hnext value (htells value rfl) left hleft fault
      | error _ => exact fun _ => hleft

theorem spares_get_bind {next : σ → ExceptT ε (StateM σ) β}
    (hnext : ∀ state, Spares holds (next state)) : Spares holds (get >>= next) :=
  fun state hstate => hnext state state hstate

theorem spares_throw (fault : ε) : Spares holds (throw fault : ExceptT ε (StateM σ) α) :=
  fun _ hstate _ _ => hstate

end Spares

end MediaCatalog
