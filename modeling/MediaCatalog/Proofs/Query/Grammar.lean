import Mathlib.Data.List.Forall2
import MediaCatalog.Proofs.Query.Grouping
import MediaCatalog.Query.Compiled

/-!
The text of a compiled query. Any sequence of tokens gives an expression whose
operands are the conditions of its terms, none lost, doubled or moved, and the
bound values are theirs in the same order. So each placeholder meets the value
that it was written for.
-/

namespace MediaCatalog.Query

mutual

/-- What joiners tie together: the fragment of a condition, or an expression in
brackets. The conditions are those it is made of, from left to right. -/
inductive IsOperand : String → List Condition → Prop
  | fragment (condition : Condition) : IsOperand condition.sql [condition]
  | bracketed {sql : String} {conditions : List Condition} :
      IsExpression sql conditions → IsOperand ("(" ++ sql ++ ")") conditions

/-- Operands in a row with a joiner between any two neighbours. -/
inductive IsExpression : String → List Condition → Prop
  | single {sql : String} {conditions : List Condition} :
      IsOperand sql conditions → IsExpression sql conditions
  | joined {sql next : String} {conditions others : List Condition} (joiner : Joiner) :
      IsExpression sql conditions → IsOperand next others →
        IsExpression (sql ++ joiner.sql ++ next) (conditions ++ others)

end

mutual

theorem IsOperand.conditions_ne_nil : ∀ {sql : String} {conditions : List Condition},
    IsOperand sql conditions → conditions ≠ []
  | _, _, .fragment _ => List.cons_ne_nil _ _
  | _, _, .bracketed hinner => hinner.conditions_ne_nil

theorem IsExpression.conditions_ne_nil : ∀ {sql : String} {conditions : List Condition},
    IsExpression sql conditions → conditions ≠ []
  | _, _, .single hoperand => hoperand.conditions_ne_nil
  | _, _, .joined _ hbefore _ => List.append_ne_nil_of_left_ne_nil hbefore.conditions_ne_nil _

end

mutual

theorem Clause.Full.isOperand {clause : Clause} (hfull : clause.Full) :
    IsOperand clause.sql clause.conditions := by
  match clause, hfull with
  | .test joiner condition, _ => exact .fragment condition
  | .group joiner clauses, ⟨hsome, hinner⟩ => exact .bracketed (hinner.isExpression hsome)

/-- A sequence that is joined to an expression goes on with it. -/
theorem AllFull.isExpression_joined {clauses : List Clause} {sql : String}
    {conditions : List Condition} (hfull : AllFull clauses)
    (hbefore : IsExpression sql conditions) :
    IsExpression (sql ++ sqlJoined clauses) (conditions ++ conditionsOf clauses) := by
  match clauses, hfull with
  | [], _ => simpa [sqlJoined, conditionsOf] using hbefore
  | clause :: rest, ⟨hfirst, hrest⟩ =>
      have hjoined := hrest.isExpression_joined (.joined clause.joiner hbefore hfirst.isOperand)
      simpa only [sqlJoined, conditionsOf, String.append_assoc, List.append_assoc] using hjoined

theorem AllFull.isExpression {clauses : List Clause} (hfull : AllFull clauses)
    (hsome : clauses ≠ []) :
    IsExpression (sqlOf clauses) (conditionsOf clauses) := by
  match clauses, hfull with
  | clause :: rest, ⟨hfirst, hrest⟩ =>
      exact hrest.isExpression_joined (.single hfirst.isOperand)

end

mutual

theorem Clause.bounds_eq (clause : Clause) :
    clause.bounds = clause.conditions.flatMap Condition.bounds := by
  match clause with
  | .test joiner condition => simp [Clause.bounds, Clause.conditions]
  | .group joiner clauses => exact boundsOf_eq clauses

theorem boundsOf_eq (clauses : List Clause) :
    boundsOf clauses = (conditionsOf clauses).flatMap Condition.bounds := by
  match clauses with
  | [] => rfl
  | clause :: rest =>
      rw [boundsOf, conditionsOf, List.flatMap_append, clause.bounds_eq, boundsOf_eq rest]

end

/-- Whether ESCAPE and a blank come right before. The characters are those
passed, the last first. -/
def behindEscape (passed : List Char) : Bool :=
  "ESCAPE ".toList.reverse.isPrefixOf passed

/-- The placeholders of a text behind the characters passed: for each whether
it stands for the escape character of a comparison. -/
def placeholdersAfter (passed : List Char) : List Char → List Bool
  | [] => []
  | c :: rest =>
      let others := placeholdersAfter (c :: passed) rest
      if c = '?' then behindEscape passed :: others else others

def placeholders (sql : String) : List Bool :=
  placeholdersAfter [] sql.toList

/-- Whether a value may be bound to a placeholder. Escape characters are
backslashes. -/
def Fits (isEscape : Bool) (bound : Bound) : Prop :=
  isEscape = true → bound = .text "\\"

theorem length_placeholdersAfter (passed text : List Char) :
    (placeholdersAfter passed text).length = text.count '?' := by
  induction text generalizing passed with
  | nil => rfl
  | cons c rest ih =>
      simp only [placeholdersAfter]
      split
      · rename_i hmark
        rw [hmark, List.length_cons, ih, List.count_cons_self]
      · rename_i hother
        rw [ih, List.count_cons_of_ne hother]

theorem placeholdersAfter_append (passed text others : List Char) :
    placeholdersAfter passed (text ++ others) =
      placeholdersAfter passed text ++ placeholdersAfter (text.reverse ++ passed) others := by
  induction text generalizing passed with
  | nil => rfl
  | cons c rest ih =>
      simp only [List.cons_append, placeholdersAfter, ih, List.reverse_cons, List.append_assoc,
        List.nil_append]
      split <;> rfl

/-- The values fit the placeholders of the text, whatever stands before it. -/
def Aligned (sql : String) (bounds : List Bound) : Prop :=
  ∀ passed, List.Forall₂ Fits (placeholdersAfter passed sql.toList) bounds

theorem Aligned.append {sql next : String} {bounds others : List Bound}
    (hsql : Aligned sql bounds) (hnext : Aligned next others) :
    Aligned (sql ++ next) (bounds ++ others) := by
  intro passed
  rw [String.toList_append, placeholdersAfter_append]
  exact List.rel_append (hsql passed) (hnext _)

theorem aligned_of_unmarked {text : List Char} (hunmarked : '?' ∉ text) :
    Aligned (.ofList text) [] := by
  intro passed
  have hlength : (placeholdersAfter passed text).length = 0 := by
    rw [length_placeholdersAfter]
    exact List.count_eq_zero.mpr hunmarked
  rw [String.toList_ofList, List.length_eq_zero_iff.mp hlength]
  exact .nil

theorem aligned_like (pattern : String) : Aligned " LIKE ? ESCAPE ?" (likeBounds pattern) := by
  intro passed
  simp [likeBounds, placeholdersAfter, behindEscape, Fits]

/-- A placeholder behind an operator of comparison takes any value. -/
theorem aligned_compared {operator : String} (bound : Bound)
    (hoperator : operator = " >= ?" ∨ operator = " > ?") : Aligned operator [bound] := by
  intro passed
  rcases hoperator with rfl | rfl
  · simp [placeholdersAfter, behindEscape, Fits]
  · simp [placeholdersAfter, behindEscape, Fits]

/-- A comparison of texts, with what stands before and behind it. -/
theorem aligned_likeWithin {front back : List Char} (pattern : String)
    (hfront : '?' ∉ front) (hback : '?' ∉ back) :
    Aligned (.ofList front ++ " LIKE ? ESCAPE ?" ++ .ofList back) (likeBounds pattern) :=
  ((aligned_of_unmarked hfront).append (aligned_like pattern)).append (aligned_of_unmarked hback)

/-- A comparison of a number, with what stands before and behind it. -/
theorem aligned_comparedWithin {front back : List Char} {operator : String} (n : Int)
    (hfront : '?' ∉ front) (hoperator : operator = " >= ?" ∨ operator = " > ?")
    (hback : '?' ∉ back) : Aligned (.ofList front ++ operator ++ .ofList back) [.integer n] :=
  ((aligned_of_unmarked hfront).append (aligned_compared (.integer n) hoperator)).append
    (aligned_of_unmarked hback)

theorem Test.aligned (test : Test) : Aligned test.sql test.bounds := by
  cases test with
  | pathLike pattern =>
      have hsql : (Test.pathLike pattern).sql = "(f.path" ++ " LIKE ? ESCAPE ?" ++ ")" := rfl
      rw [hsql]
      exact aligned_likeWithin pattern (by decide) (by decide)
  | tagLike pattern =>
      have hsql : (Test.tagLike pattern).sql =
          "(h.id IN (SELECT file_id FROM tags WHERE tag" ++ " LIKE ? ESCAPE ?" ++
            " AND deleted = 0))" := rfl
      rw [hsql]
      exact aligned_likeWithin pattern (by decide) (by decide)
  | pathOrTagLike pattern =>
      have hsql : (Test.pathOrTagLike pattern).sql =
          ("(f.path" ++ " LIKE ? ESCAPE ?" ++ " ") ++
            ("OR h.id IN (SELECT file_id FROM tags WHERE tag" ++ " LIKE ? ESCAPE ?" ++
              " AND deleted = 0))") := rfl
      rw [hsql]
      exact (aligned_likeWithin pattern (by decide) (by decide)).append
        (aligned_likeWithin pattern (by decide) (by decide))
  | tagsBelow n =>
      have hsql : (Test.tagsBelow n).sql =
          "(h.id NOT IN (SELECT file_id FROM tags WHERE deleted = 0 " ++
            ("GROUP BY file_id HAVING COUNT(DISTINCT tag)" ++ " >= ?" ++ "))") := rfl
      rw [hsql]
      exact (aligned_of_unmarked (by decide)).append
        (aligned_comparedWithin n (by decide) (Or.inl rfl) (by decide))
  | tagsAbove n =>
      have hsql : (Test.tagsAbove n).sql =
          "(h.id IN (SELECT file_id FROM tags WHERE deleted = 0 " ++
            ("GROUP BY file_id HAVING COUNT(DISTINCT tag)" ++ " > ?" ++ "))") := rfl
      rw [hsql]
      exact (aligned_of_unmarked (by decide)).append
        (aligned_comparedWithin n (by decide) (Or.inr rfl) (by decide))
  | dupesAbove n =>
      have hsql : (Test.dupesAbove n).sql =
          "(f.hash IN (SELECT hash FROM files WHERE missing = 0 " ++
            ("GROUP BY hash HAVING COUNT(hash)" ++ " > ?" ++ " + 1))") := rfl
      rw [hsql]
      exact (aligned_of_unmarked (by decide)).append
        (aligned_comparedWithin n (by decide) (Or.inr rfl) (by decide))

theorem Condition.bounds_ne_nil (condition : Condition) : condition.bounds ≠ [] := by
  unfold bounds Test.bounds
  split
  all_goals exact List.cons_ne_nil _ _

theorem Condition.aligned (condition : Condition) : Aligned condition.sql condition.bounds := by
  unfold sql
  split
  · have hnot : Aligned "NOT " [] := aligned_of_unmarked (by decide)
    exact hnot.append condition.test.aligned
  · exact condition.test.aligned

theorem Joiner.aligned (joiner : Joiner) : Aligned joiner.sql [] := by
  cases joiner with
  | and | or => exact aligned_of_unmarked (by decide)

mutual

theorem IsOperand.aligned : ∀ {sql : String} {conditions : List Condition},
    IsOperand sql conditions → Aligned sql (conditions.flatMap Condition.bounds)
  | _, _, .fragment condition => by
      rw [List.flatMap_singleton]
      exact condition.aligned
  | _, _, .bracketed hinner => by
      have hopening : Aligned "(" [] := aligned_of_unmarked (by decide)
      have hclosing : Aligned ")" [] := aligned_of_unmarked (by decide)
      have hbracketed := (hopening.append hinner.aligned).append hclosing
      rwa [List.nil_append, List.append_nil] at hbracketed

theorem IsExpression.aligned : ∀ {sql : String} {conditions : List Condition},
    IsExpression sql conditions → Aligned sql (conditions.flatMap Condition.bounds)
  | _, _, .single hoperand => hoperand.aligned
  | _, _, .joined joiner hbefore hnext => by
      have hjoined := (hbefore.aligned.append joiner.aligned).append hnext.aligned
      rwa [List.append_nil, ← List.flatMap_append] at hjoined

end

/-- Any tokens compile to a well-formed expression over the conditions of their
terms, each once and in order, or to nothing if there is no term. The bound
values are those of the conditions in the same order, one for each placeholder,
and where an escape character is due it is a backslash. -/
theorem compileTokens_wellFormed (tokens : List Token) :
    let predicate := compileTokens tokens
    ((predicate.sql = "" ∧ predicate.bounds = []) ↔ ∀ term, Token.term term ∉ tokens) ∧
      (IsExpression predicate.sql (asked tokens) ↔ ∃ term, Token.term term ∈ tokens) ∧
      predicate.bounds = (asked tokens).flatMap Condition.bounds ∧
      predicate.sql.toList.count '?' = predicate.bounds.length ∧
      List.Forall₂ Fits (placeholders predicate.sql) predicate.bounds := by
  intro predicate
  have hconditions := conditionsOf_clauses tokens
  have hfull := allFull_clauses tokens
  have hbounds : predicate.bounds = (asked tokens).flatMap Condition.bounds := by
    rw [← hconditions]
    exact boundsOf_eq (clauses tokens)
  have hsome : (∃ term, Token.term term ∈ tokens) ↔ asked tokens ≠ [] := by
    rw [ne_eq, asked_eq_nil, not_forall_not]
  cases hclauses : clauses tokens with
  | nil =>
      have hasked : asked tokens = [] := by
        rw [← hconditions, hclauses]
        rfl
      have hempty : predicate = ⟨"", []⟩ := by
        simp only [predicate, compileTokens, hclauses]
        rfl
      rw [hsome, hasked, hempty, ← asked_eq_nil]
      refine ⟨⟨fun _ => hasked, fun _ => ⟨rfl, rfl⟩⟩, ?_, rfl, rfl, .nil⟩
      exact ⟨fun hexpression => hexpression.conditions_ne_nil, fun hne => absurd rfl hne⟩
  | cons clause rest =>
      have hexpression : IsExpression predicate.sql (asked tokens) := by
        rw [← hconditions]
        exact hfull.isExpression (by simp [hclauses])
      have haligned : List.Forall₂ Fits (placeholders predicate.sql) predicate.bounds := by
        rw [hbounds]
        exact hexpression.aligned []
      have hasked := hexpression.conditions_ne_nil
      refine ⟨?_, ?_, hbounds, ?_, haligned⟩
      · rw [← asked_eq_nil]
        refine ⟨?_, fun hnone => absurd hnone hasked⟩
        rintro ⟨-, hnone⟩
        rw [hbounds, List.flatMap_eq_nil_iff] at hnone
        obtain ⟨condition, hmem⟩ := List.exists_mem_of_ne_nil _ hasked
        exact absurd (hnone condition hmem) condition.bounds_ne_nil
      · exact ⟨fun _ => hsome.mpr hasked, fun _ => hexpression⟩
      · rw [← haligned.length_eq]
        exact (length_placeholdersAfter [] predicate.sql.toList).symm

end MediaCatalog.Query
