import Mathlib.Data.List.Forall2
import MediaCatalog.Query.Compiled

/-!
The form of a query: its operators, its brackets and the kinds of its terms,
without what the terms look for. Two queries of the same form give the same
text of SQL and bind values of the same types in the same places. What a user
writes behind a lead, be it quotes, brackets or a fragment of SQL, can change
nothing but the values bound.

The clauses are compared with the values of their conditions left blank. Every
step from tokens to clauses does the same with the blanks as with the values.
-/

namespace MediaCatalog.Query

/-- Tokens of the same form: operators that are the same, brackets of the same
side, and terms of the same kind with any operands. -/
inductive Token.Alike : Token → Token → Prop
  | join (joiner : Joiner) : Alike (.join joiner) (.join joiner)
  | opening : Alike .opening .opening
  | closing : Alike .closing .closing
  | term {term other : Term} (hkind : term.kind = other.kind) : Alike (.term term) (.term other)

/-- What the database takes a bound value for. -/
inductive BoundType where
  | text
  | integer
deriving DecidableEq, Repr

def Bound.type : Bound → BoundType
  | .text _ => .text
  | .integer _ => .integer

/-- The test with its value left blank. -/
def Test.blank : Test → Test
  | .pathLike _ => .pathLike ""
  | .tagLike _ => .tagLike ""
  | .pathOrTagLike _ => .pathOrTagLike ""
  | .tagsBelow _ => .tagsBelow 0
  | .tagsAbove _ => .tagsAbove 0
  | .dupesAbove _ => .dupesAbove 0

def Condition.blank (condition : Condition) : Condition :=
  { condition with test := condition.test.blank }

theorem Condition.sql_blank (condition : Condition) : condition.blank.sql = condition.sql := by
  obtain ⟨negated, test⟩ := condition
  cases test <;> rfl

theorem Condition.types_blank (condition : Condition) :
    condition.blank.bounds.map Bound.type = condition.bounds.map Bound.type := by
  obtain ⟨negated, test⟩ := condition
  cases test <;> rfl

/-- A term's kind decides all of its condition but the value. -/
theorem Term.blank_condition {term other : Term} (hkind : term.kind = other.kind) :
    term.condition.blank = other.condition.blank := by
  simp only [Term.condition, ← hkind]
  cases term.kind <;> simp only [Condition.blank, Test.blank]

mutual

/-- The clause with the values of its conditions left blank. -/
def Clause.blank : Clause → Clause
  | .test joiner condition => .test joiner condition.blank
  | .group joiner clauses => .group joiner (blankAll clauses)

def blankAll : List Clause → List Clause
  | [] => []
  | clause :: rest => clause.blank :: blankAll rest

end

theorem blankAll_append (clauses others : List Clause) :
    blankAll (clauses ++ others) = blankAll clauses ++ blankAll others := by
  induction clauses with
  | nil => rfl
  | cons clause rest ih => simp only [List.cons_append, blankAll, ih]

theorem blankAll_concat (clauses : List Clause) (clause : Clause) :
    blankAll (clauses ++ [clause]) = blankAll clauses ++ [clause.blank] :=
  blankAll_append clauses [clause]

theorem isEmpty_blankAll (clauses : List Clause) :
    (blankAll clauses).isEmpty = clauses.isEmpty := by
  cases clauses <;> rfl

@[simp] theorem Clause.joiner_blank (clause : Clause) : clause.blank.joiner = clause.joiner := by
  cases clause <;> rfl

mutual

theorem Clause.sql_blank (clause : Clause) : clause.blank.sql = clause.sql := by
  match clause with
  | .test joiner condition => exact condition.sql_blank
  | .group joiner clauses => simp only [Clause.blank, Clause.sql, sqlOf_blankAll clauses]

theorem sqlJoined_blankAll (clauses : List Clause) :
    sqlJoined (blankAll clauses) = sqlJoined clauses := by
  match clauses with
  | [] => rfl
  | clause :: rest =>
      simp only [blankAll, sqlJoined, clause.joiner_blank, clause.sql_blank,
        sqlJoined_blankAll rest]

/-- No value shows in the text. -/
theorem sqlOf_blankAll (clauses : List Clause) : sqlOf (blankAll clauses) = sqlOf clauses := by
  match clauses with
  | [] => rfl
  | clause :: rest => simp only [blankAll, sqlOf, clause.sql_blank, sqlJoined_blankAll rest]

end

mutual

theorem Clause.types_blank (clause : Clause) :
    clause.blank.bounds.map Bound.type = clause.bounds.map Bound.type := by
  match clause with
  | .test joiner condition => exact condition.types_blank
  | .group joiner clauses => exact typesOf_blankAll clauses

/-- A blank is bound where its value is, and has its type. -/
theorem typesOf_blankAll (clauses : List Clause) :
    (boundsOf (blankAll clauses)).map Bound.type = (boundsOf clauses).map Bound.type := by
  match clauses with
  | [] => rfl
  | clause :: rest =>
      simp only [blankAll, boundsOf, List.map_append, clause.types_blank, typesOf_blankAll rest]

end

mutual

theorem Clause.kept?_blank (clause : Clause) :
    clause.blank.kept? = clause.kept?.map Clause.blank := by
  match clause with
  | .test joiner condition => rfl
  | .group joiner clauses =>
      simp only [Clause.blank, Clause.kept?, nonempty_blankAll clauses, isEmpty_blankAll]
      split <;> rfl

/-- Whether a group is left out does not depend on the values. -/
theorem nonempty_blankAll (clauses : List Clause) :
    nonempty (blankAll clauses) = blankAll (nonempty clauses) := by
  match clauses with
  | [] => rfl
  | clause :: rest =>
      rw [blankAll, nonempty, nonempty, blankAll_append, nonempty_blankAll rest,
        clause.kept?_blank]
      cases clause.kept? <;> rfl

end

namespace Draft

/-- The draft with the values of its conditions left blank. -/
def blank (draft : Draft) : Draft :=
  { outer := blankAll draft.outer
    opened := draft.opened.map fun group => (group.1, blankAll group.2)
    waiting := draft.waiting }

variable {draft draft' : Draft}

theorem blank_add (draft : Draft) (clause : Clause) :
    (draft.add clause).blank = draft.blank.add clause.blank := by
  obtain ⟨outer, opened, waiting⟩ := draft
  cases opened with
  | nil => simp only [add, blank, List.map_nil, blankAll_concat]
  | cons group opened => simp only [add, blank, List.map_cons, blankAll_concat]

theorem blank_close (draft : Draft) : draft.close.blank = draft.blank.close := by
  obtain ⟨outer, opened, waiting⟩ := draft
  cases opened with
  | nil => rfl
  | cons group opened => exact blank_add _ _

theorem blank_closed (n : Nat) (draft : Draft) :
    (Nat.repeat close n draft).blank = Nat.repeat close n draft.blank := by
  induction n with
  | zero => rfl
  | succ n ih => rw [Nat.repeat, blank_close, ih, Nat.repeat]

theorem blankAll_finish (draft : Draft) : blankAll draft.finish = draft.blank.finish := by
  have hopened : draft.blank.opened.length = draft.opened.length := List.length_map _
  rw [finish, finish, hopened, ← blank_closed]
  rfl

/-- Tokens of the same form do the same to drafts of the same form. -/
theorem blank_take {token other : Token} (hdraft : draft.blank = draft'.blank)
    (halike : token.Alike other) : (draft.take token).blank = (draft'.take other).blank := by
  cases halike with
  | closing => simp only [take, blank_close, hdraft]
  | join joiner =>
      obtain ⟨houter, hopened, -⟩ := Draft.mk.inj hdraft
      simp only [take, blank, houter, hopened]
  | opening =>
      obtain ⟨houter, hopened, hwaiting⟩ := Draft.mk.inj hdraft
      simp only [take, blank, List.map_cons, houter, hopened, hwaiting]
  | term hkind =>
      obtain ⟨houter, hopened, hwaiting⟩ := Draft.mk.inj hdraft
      simp only [take, blank_add, Clause.blank, Term.blank_condition hkind, hwaiting]
      simp only [blank, houter, hopened]

/-- So do tokens in sequence. -/
theorem blank_foldl {tokens others : List Token} (hdraft : draft.blank = draft'.blank)
    (halike : List.Forall₂ Token.Alike tokens others) :
    (tokens.foldl take draft).blank = (others.foldl take draft').blank := by
  induction halike generalizing draft draft' with
  | nil => exact hdraft
  | cons hfirst _ ih => exact ih (blank_take hdraft hfirst)

end Draft

/-- The clauses of tokens of the same form differ in their values alone. -/
theorem blankAll_clauses {tokens others : List Token}
    (halike : List.Forall₂ Token.Alike tokens others) :
    blankAll (clauses tokens) = blankAll (clauses others) := by
  have hgrouped : blankAll (grouped tokens) = blankAll (grouped others) := by
    rw [grouped, grouped, Draft.blankAll_finish, Draft.blankAll_finish,
      Draft.blank_foldl rfl halike]
  rw [clauses, clauses, ← nonempty_blankAll, ← nonempty_blankAll, hgrouped]

/-- A predicate's text, and its values' number, places and types. -/
theorem predicateOf_form {clauses others : List Clause}
    (hblank : blankAll clauses = blankAll others) :
    (predicateOf clauses).sql = (predicateOf others).sql ∧
      (predicateOf clauses).bounds.map Bound.type =
        (predicateOf others).bounds.map Bound.type := by
  have hsql : sqlOf clauses = sqlOf others := by
    rw [← sqlOf_blankAll clauses, hblank, sqlOf_blankAll]
  have htypes : (boundsOf clauses).map Bound.type = (boundsOf others).map Bound.type := by
    rw [← typesOf_blankAll clauses, hblank, typesOf_blankAll]
  exact ⟨hsql, htypes⟩

theorem Compiled.statement_congr {one other : Compiled}
    (hsql : one.predicate.sql = other.predicate.sql) (orders : List SortOrder) :
    one.statement orders = other.statement orders := by
  have hempty : one.predicate.isEmpty = other.predicate.isEmpty := by
    rw [Predicate.isEmpty, Predicate.isEmpty, hsql]
  have hselection : one.selection = other.selection := by
    unfold Compiled.selection
    rw [hempty, hsql]
  unfold Compiled.statement
  rw [hselection]

/-- Two queries whose words, each up to its limit, agree in form: the text of
the predicate and that of the whole statement are the same, and as many values
are bound, of the same type at each place. -/
theorem sql_of_alike {query other : String} {limit otherLimit : Nat}
    (halike : List.Forall₂ Token.Alike (tokens (words query limit))
      (tokens (words other otherLimit))) (orders : List SortOrder) :
    let one := compileWithin query limit
    let two := compileWithin other otherLimit
    one.predicate.sql = two.predicate.sql ∧
      one.statement orders = two.statement orders ∧
      one.predicate.bounds.length = two.predicate.bounds.length ∧
      one.predicate.bounds.map Bound.type = two.predicate.bounds.map Bound.type := by
  intro one two
  have hform : one.predicate.sql = two.predicate.sql ∧
      one.predicate.bounds.map Bound.type = two.predicate.bounds.map Bound.type :=
    predicateOf_form (blankAll_clauses halike)
  obtain ⟨hsql, htypes⟩ := hform
  refine ⟨hsql, Compiled.statement_congr hsql orders, ?_, htypes⟩
  simpa only [List.length_map] using congrArg List.length htypes

/-- The second query has SQL, placeholders, brackets and a number that is none
for its operands, and a word behind its limit. -/
theorem sql_of_alike_injection :
    let query := "t=rock AND ( f~live OR dupes>2 ) word"
    let other := "t=\"' OR 1=1 --\" AND ( f~%;( OR dupes>many ) 'a ) ? ESCAPE' NOT"
    let one := compileWithin query 10
    let two := compileWithin other 8
    List.Forall₂ Token.Alike (tokens (words query 10)) (tokens (words other 8)) ∧
      one.predicate.sql = two.predicate.sql ∧ one.statement [] = two.statement [] ∧
      one.predicate.bounds.map Bound.type = two.predicate.bounds.map Bound.type := by
  intro query other one two
  have htokens : tokens (words query 10) =
      [.term ⟨.tagExact, "rock"⟩, .join .and, .opening, .term ⟨.fileContains, "live"⟩, .join .or,
        .term ⟨.dupesAbove, "2"⟩, .closing, .term ⟨.fileOrTag, "word"⟩] := by
    decide
  have hothers : tokens (words other 8) =
      [.term ⟨.tagExact, "\"' OR 1=1 --\""⟩, .join .and, .opening,
        .term ⟨.fileContains, "%;("⟩, .join .or, .term ⟨.dupesAbove, "many"⟩, .closing,
        .term ⟨.fileOrTag, "'a ) ? ESCAPE'"⟩] := by
    decide
  have halike : List.Forall₂ Token.Alike (tokens (words query 10)) (tokens (words other 8)) := by
    rw [htokens, hothers]
    exact .cons (.term rfl) <| .cons (.join .and) <| .cons .opening <| .cons (.term rfl) <|
      .cons (.join .or) <| .cons (.term rfl) <| .cons .closing <| .cons (.term rfl) .nil
  obtain ⟨hsql, hstatement, -, htypes⟩ := sql_of_alike halike []
  exact ⟨halike, hsql, hstatement, htypes⟩

end MediaCatalog.Query
