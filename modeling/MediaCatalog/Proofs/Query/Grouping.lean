import MediaCatalog.Query.Clause

/-!
From tokens to clauses. Whatever the tokens, the conditions of their terms are
those of the clauses, in the same order: an opening bracket only says into which
group the next ones go, a closing one only that the group is complete. A group
without conditions leaves no trace.
-/

namespace MediaCatalog.Query

/-- What a token asks, if it is a term. -/
def Token.condition? : Token → Option Condition
  | .term criterion => some criterion.condition
  | .join _ | .opening | .closing => none

/-- What the terms among the tokens ask, in order. -/
def asked (tokens : List Token) : List Condition :=
  tokens.filterMap Token.condition?

theorem asked_eq_nil {tokens : List Token} :
    asked tokens = [] ↔ ∀ term, Token.term term ∉ tokens := by
  rw [asked, List.filterMap_eq_nil_iff]
  constructor
  · intro hnone term hterm
    cases hnone _ hterm
  · intro hnone token htoken
    cases token with
    | term term => exact absurd htoken (hnone term)
    | join | opening | closing => rfl

mutual

/-- The conditions of a clause from left to right. -/
def Clause.conditions : Clause → List Condition
  | .test _ condition => [condition]
  | .group _ clauses => conditionsOf clauses

def conditionsOf : List Clause → List Condition
  | [] => []
  | clause :: rest => clause.conditions ++ conditionsOf rest

end

theorem conditionsOf_append (clauses others : List Clause) :
    conditionsOf (clauses ++ others) = conditionsOf clauses ++ conditionsOf others := by
  induction clauses with
  | nil => rfl
  | cons clause rest ih => simp only [List.cons_append, conditionsOf, ih, List.append_assoc]

theorem conditionsOf_singleton (clause : Clause) :
    conditionsOf [clause] = clause.conditions := by
  simp only [conditionsOf, List.append_nil]

namespace Draft

variable (draft : Draft)

/-- The conditions taken so far. An open group stands behind the clauses of the
groups around it. -/
def conditions : List Condition :=
  conditionsOf draft.outer ++ draft.opened.reverse.flatMap fun group => conditionsOf group.2

theorem conditions_add (clause : Clause) :
    (draft.add clause).conditions = draft.conditions ++ clause.conditions := by
  obtain ⟨outer, opened, waiting⟩ := draft
  cases opened with
  | nil => simp [add, conditions, conditionsOf_append, conditionsOf_singleton]
  | cons group opened => simp [add, conditions, conditionsOf_append, conditionsOf_singleton]

theorem conditions_close : draft.close.conditions = draft.conditions := by
  obtain ⟨outer, opened, waiting⟩ := draft
  cases opened with
  | nil => rfl
  | cons group opened =>
      simp only [close, conditions_add]
      simp [conditions, Clause.conditions]

theorem conditions_take (token : Token) :
    (draft.take token).conditions = draft.conditions ++ token.condition?.toList := by
  cases token with
  | join joiner => simp [take, conditions, Token.condition?]
  | opening => simp [take, conditions, conditionsOf, Token.condition?]
  | closing => simp [take, conditions_close, Token.condition?]
  | term term =>
      simp only [take, conditions_add]
      rfl

theorem conditions_foldl (tokens : List Token) :
    (tokens.foldl take draft).conditions = draft.conditions ++ asked tokens := by
  induction tokens generalizing draft with
  | nil => exact (List.append_nil _).symm
  | cons token rest ih =>
      rw [List.foldl_cons, ih, conditions_take, List.append_assoc]
      cases token with
      | term | join | opening | closing => rfl

theorem length_opened_close : draft.close.opened.length = draft.opened.length - 1 := by
  obtain ⟨outer, opened, waiting⟩ := draft
  match opened with
  | [] | [_] | _ :: _ :: _ => rfl

theorem closed_spec (n : Nat) :
    (Nat.repeat close n draft).conditions = draft.conditions ∧
      (Nat.repeat close n draft).opened.length = draft.opened.length - n := by
  induction n with
  | zero => exact ⟨rfl, rfl⟩
  | succ n ih =>
      obtain ⟨hconditions, hlength⟩ := ih
      refine ⟨(conditions_close _).trans hconditions, ?_⟩
      have hstep := length_opened_close (Nat.repeat close n draft)
      simp only [Nat.repeat]
      omega

theorem conditionsOf_finish : conditionsOf draft.finish = draft.conditions := by
  obtain ⟨hconditions, hlength⟩ := draft.closed_spec draft.opened.length
  have hclosed : (Nat.repeat close draft.opened.length draft).opened = [] := by
    apply List.length_eq_zero_iff.mp
    omega
  rw [← hconditions, finish, conditions, hclosed]
  exact (List.append_nil _).symm

end Draft

/-- The groups of a sequence of tokens ask what its terms ask. -/
theorem conditionsOf_grouped (tokens : List Token) :
    conditionsOf (grouped tokens) = asked tokens := by
  rw [grouped, Draft.conditionsOf_finish, Draft.conditions_foldl]
  rfl

mutual

/-- Every group within the clause holds a condition. -/
def Clause.Full : Clause → Prop
  | .test _ _ => True
  | .group _ clauses => clauses ≠ [] ∧ AllFull clauses

def AllFull : List Clause → Prop
  | [] => True
  | clause :: rest => clause.Full ∧ AllFull rest

end

theorem allFull_append {clauses others : List Clause} :
    AllFull (clauses ++ others) ↔ AllFull clauses ∧ AllFull others := by
  induction clauses with
  | nil => simp [AllFull]
  | cons clause rest ih => simp only [List.cons_append, AllFull, ih, and_assoc]

mutual

theorem Clause.conditionsOf_kept? (clause : Clause) :
    conditionsOf clause.kept?.toList = clause.conditions := by
  cases clause with
  | test joiner condition => rfl
  | group joiner clauses =>
      have hinner := conditionsOf_nonempty clauses
      simp only [Clause.kept?, Clause.conditions]
      split
      · rename_i hempty
        rw [List.isEmpty_iff.mp hempty] at hinner
        exact hinner
      · exact (conditionsOf_singleton _).trans hinner

/-- Only groups without conditions are left out. -/
theorem conditionsOf_nonempty (clauses : List Clause) :
    conditionsOf (nonempty clauses) = conditionsOf clauses := by
  match clauses with
  | [] => rfl
  | clause :: rest =>
      have hfirst := clause.conditionsOf_kept?
      have hrest := conditionsOf_nonempty rest
      rw [nonempty, conditionsOf_append, hfirst, hrest, conditionsOf]

end

mutual

theorem Clause.allFull_kept? (clause : Clause) : AllFull clause.kept?.toList := by
  cases clause with
  | test joiner condition => exact ⟨trivial, trivial⟩
  | group joiner clauses =>
      have hinner := allFull_nonempty clauses
      simp only [Clause.kept?]
      split
      · trivial
      · rename_i hsome
        exact ⟨⟨fun hempty => hsome (List.isEmpty_iff.mpr hempty), hinner⟩, trivial⟩

theorem allFull_nonempty (clauses : List Clause) : AllFull (nonempty clauses) := by
  match clauses with
  | [] => trivial
  | clause :: rest => exact allFull_append.mpr ⟨clause.allFull_kept?, allFull_nonempty rest⟩

end

mutual

theorem Clause.Full.kept? {clause : Clause} (hfull : clause.Full) :
    clause.kept? = some clause := by
  match clause, hfull with
  | .test joiner condition, _ => rfl
  | .group joiner clauses, ⟨hsome, hinner⟩ =>
      rw [Clause.kept?, hinner.nonempty_eq]
      simp [hsome]

/-- Nothing is left out where every group holds a condition. -/
theorem AllFull.nonempty_eq {clauses : List Clause} (hfull : AllFull clauses) :
    nonempty clauses = clauses := by
  match clauses, hfull with
  | [], _ => rfl
  | clause :: rest, ⟨hfirst, hrest⟩ =>
      rw [nonempty, hfirst.kept?, hrest.nonempty_eq]
      rfl

end

theorem conditionsOf_clauses (tokens : List Token) :
    conditionsOf (clauses tokens) = asked tokens :=
  (conditionsOf_nonempty _).trans (conditionsOf_grouped tokens)

theorem allFull_clauses (tokens : List Token) : AllFull (clauses tokens) :=
  allFull_nonempty _

end MediaCatalog.Query
