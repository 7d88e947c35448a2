import MediaCatalog.Proofs.Query.Grouping

/-!
Reading a predicate back. Its text is flat: brackets, NOT, AND and OR stand
between the fragments of conditions, and placeholders take the bound values
from left to right. A reader that knows the fragments and that NOT binds
tighter than AND, and AND tighter than OR, finds from text and values alone
what the clauses mean.
-/

namespace MediaCatalog.Query

/-- A fragment whose placeholders are still open. -/
inductive Shape where
  | path
  | tag
  | pathOrTag
  | tagsBelow
  | tagsAbove
  | dupesAbove
deriving DecidableEq

def Test.shape : Test → Shape
  | .pathLike _ => .path
  | .tagLike _ => .tag
  | .pathOrTagLike _ => .pathOrTag
  | .tagsBelow _ => .tagsBelow
  | .tagsAbove _ => .tagsAbove
  | .dupesAbove _ => .dupesAbove

namespace Shape

def all : List Shape :=
  [.path, .tag, .pathOrTag, .tagsBelow, .tagsAbove, .dupesAbove]

/-- The text of a shape is the same whatever the values. -/
def sql : Shape → String
  | .path => (Test.pathLike "").sql
  | .tag => (Test.tagLike "").sql
  | .pathOrTag => (Test.pathOrTagLike "").sql
  | .tagsBelow => (Test.tagsBelow 0).sql
  | .tagsAbove => (Test.tagsAbove 0).sql
  | .dupesAbove => (Test.dupesAbove 0).sql

/-- The test that results when the next values are bound to the placeholders,
and the values left. -/
def bind : Shape → List Bound → Option (Test × List Bound)
  | .path, .text pattern :: .text "\\" :: rest => some (.pathLike pattern, rest)
  | .tag, .text pattern :: .text "\\" :: rest => some (.tagLike pattern, rest)
  | .pathOrTag, .text pattern :: .text "\\" :: .text other :: .text "\\" :: rest =>
      if other = pattern then some (.pathOrTagLike pattern, rest) else none
  | .tagsBelow, .integer n :: rest => some (.tagsBelow n, rest)
  | .tagsAbove, .integer n :: rest => some (.tagsAbove n, rest)
  | .dupesAbove, .integer n :: rest => some (.dupesAbove n, rest)
  | _, _ => none

end Shape

inductive Lexeme where
  | test (shape : Shape)
  | opening
  | closing
  | not
  | join (joiner : Joiner)
deriving DecidableEq

/-- The sign or keyword at the front of a text, and the text behind it. -/
def keyword? : List Char → Option (Lexeme × List Char)
  | '(' :: rest => some (.opening, rest)
  | ')' :: rest => some (.closing, rest)
  | 'N' :: 'O' :: 'T' :: rest => some (.not, rest)
  | 'A' :: 'N' :: 'D' :: rest => some (.join .and, rest)
  | 'O' :: 'R' :: rest => some (.join .or, rest)
  | _ => none

/-- The lexeme at the front of a text, and the text behind it. A fragment is
one lexeme, its own brackets and keywords included. -/
def lexeme? (text : List Char) : Option (Lexeme × List Char) :=
  match Shape.all.find? fun shape => shape.sql.toList.isPrefixOf text with
  | some shape => some (.test shape, text.drop shape.sql.toList.length)
  | none => keyword? text

/-- The lexemes of a text, with any blanks between them. -/
def lexemes (text : List Char) : Option (List Lexeme) :=
  match text with
  | [] => some []
  | ' ' :: rest => lexemes rest
  | c :: rest =>
      match lexeme? (c :: rest) with
      | some (lexeme, others) =>
          if others.length ≤ rest.length then (lexemes others).map (lexeme :: ·) else none
      | none => none
termination_by text.length

/-- What a predicate says. -/
inductive Formula where
  | test (test : Test)
  | not (formula : Formula)
  | and (first second : Formula)
  | or (first second : Formula)
deriving DecidableEq

namespace Formula

/-- The value where each test has the value that `holds` gives. -/
def eval (holds : Test → Bool) : Formula → Bool
  | .test asked => holds asked
  | .not formula => !formula.eval holds
  | .and first second => first.eval holds && second.eval holds
  | .or first second => first.eval holds || second.eval holds

/-- The value where each condition, negated or not, has a value of its own. -/
def value (truth : Condition → Bool) : Formula → Bool
  | .test asked => truth ⟨false, asked⟩
  | .not (.test asked) => truth ⟨true, asked⟩
  | .not formula => !formula.value truth
  | .and first second => first.value truth && second.value truth
  | .or first second => first.value truth || second.value truth

def negated (formula : Formula) : Nat → Formula
  | 0 => formula
  | n + 1 => .not (formula.negated n)

/-- The formula behind what stands before it in a conjunction. -/
def conjoined (before : Option Formula) (formula : Formula) : Formula :=
  before.elim formula fun first => .and first formula

/-- The formula behind what stands before it in a disjunction. -/
def disjoined (before : Option Formula) (formula : Formula) : Formula :=
  before.elim formula fun first => .or first formula

end Formula

/-- What stands in front of an operand within the innermost brackets: the
disjunction up to the last OR, the conjunction since then, and how often NOT
comes right before. -/
structure Pending where
  others : Option Formula := none
  run : Option Formula := none
  negations : Nat := 0

/-- The run of conjuncts, the operand included. -/
def Pending.joined (pending : Pending) (operand : Formula) : Formula :=
  .conjoined pending.run (operand.negated pending.negations)

/-- A reader between two lexemes. What the open brackets around were behind is
kept, the innermost first. -/
inductive Reader where
  /-- Waits for an operand. -/
  | operand (pending : Pending) (outer : List Pending) (bounds : List Bound)
  /-- Waits for what may follow an operand. -/
  | operator (others : Option Formula) (run : Formula) (outer : List Pending)
      (bounds : List Bound)

namespace Reader

def take : Reader → Lexeme → Option Reader
  | .operand pending outer bounds, .test shape =>
      (shape.bind bounds).map fun (test, bounds) =>
        .operator pending.others (pending.joined (.test test)) outer bounds
  | .operand pending outer bounds, .not =>
      some (.operand { pending with negations := pending.negations + 1 } outer bounds)
  | .operand pending outer bounds, .opening => some (.operand {} (pending :: outer) bounds)
  | .operator others run outer bounds, .join .and =>
      some (.operand { others, run := some run } outer bounds)
  | .operator others run outer bounds, .join .or =>
      some (.operand { others := some (.disjoined others run) } outer bounds)
  | .operator others run (pending :: outer) bounds, .closing =>
      some (.operator pending.others (pending.joined (.disjoined others run)) outer bounds)
  | _, _ => none

/-- What was read, if it is complete and every value is bound. -/
def formula? : Reader → Option Formula
  | .operator others run [] [] => some (.disjoined others run)
  | _ => none

end Reader

/-- What a predicate says, as read from its text and its bound values. -/
def Predicate.read? (predicate : Predicate) : Option Formula := do
  let lexemes ← lexemes predicate.sql.toList
  let reader ← lexemes.foldlM Reader.take (.operand {} [] predicate.bounds)
  reader.formula?

theorem Formula.value_eq_eval (holds : Test → Bool) (formula : Formula) :
    formula.value (fun condition => condition.negated ^^ holds condition.test) =
      formula.eval holds := by
  fun_induction Formula.value with
  | case1 asked => simp [eval]
  | case2 asked => simp [eval]
  | case3 formula _ ih => simp [eval, ih]
  | case4 first second ihFirst ihSecond => simp [eval, ihFirst, ihSecond]
  | case5 first second ihFirst ihSecond => simp [eval, ihFirst, ihSecond]

section Lexemes

theorem Test.sql_shape (test : Test) : test.sql = test.shape.sql := by
  cases test with
  | pathLike | tagLike | pathOrTagLike | tagsBelow | tagsAbove | dupesAbove => rfl

theorem toList_twoParts {front back : List Char} :
    (String.ofList front ++ String.ofList back).toList = front ++ back := by
  rw [String.toList_append, String.toList_ofList, String.toList_ofList]

/-- No shape begins with another one. -/
theorem Shape.eq_of_isPrefixOf {a b : Shape}
    (hbegins : a.sql.toList.isPrefixOf b.sql.toList = true) : a = b := by
  have hpath : Shape.path.sql.toList = _ := String.toList_ofList
  have htag : Shape.tag.sql.toList = _ := String.toList_ofList
  have hpathOrTag : Shape.pathOrTag.sql.toList = _ := toList_twoParts
  have htagsBelow : Shape.tagsBelow.sql.toList = _ := toList_twoParts
  have htagsAbove : Shape.tagsAbove.sql.toList = _ := toList_twoParts
  have hdupesAbove : Shape.dupesAbove.sql.toList = _ := toList_twoParts
  cases a <;> cases b
  all_goals first
    | rfl
    | simp only [hpath, htag, hpathOrTag, htagsBelow, htagsAbove, hdupesAbove] at hbegins
      exact absurd hbegins (by decide)

/-- A shape begins with a bracket and a small letter. -/
theorem Shape.front (shape : Shape) :
    ∃ c rest, shape.sql.toList = '(' :: c :: rest ∧ (c = 'f' ∨ c = 'h') := by
  cases shape with
  | path => exact ⟨_, _, String.toList_ofList, Or.inl rfl⟩
  | tag => exact ⟨_, _, String.toList_ofList, Or.inr rfl⟩
  | pathOrTag => exact ⟨_, _, toList_twoParts, Or.inl rfl⟩
  | tagsBelow => exact ⟨_, _, toList_twoParts, Or.inr rfl⟩
  | tagsAbove => exact ⟨_, _, toList_twoParts, Or.inr rfl⟩
  | dupesAbove => exact ⟨_, _, toList_twoParts, Or.inl rfl⟩

theorem lexemes_blank (rest : List Char) : lexemes (' ' :: rest) = lexemes rest := by
  rw [lexemes]

variable {lexeme : Lexeme} {text others rest : List Char} {c : Char}

theorem lexemes_cons (hblank : c ≠ ' ') (hfound : lexeme? (c :: others) = some (lexeme, rest))
    (hshorter : rest.length ≤ others.length) :
    lexemes (c :: others) = (lexemes rest).map (lexeme :: ·) := by
  rw [lexemes]
  · simp only [hfound, hshorter, if_true]
  · exact hblank

theorem lexeme?_shape (shape : Shape) (rest : List Char) :
    lexeme? (shape.sql.toList ++ rest) = some (.test shape, rest) := by
  unfold lexeme?
  cases hfound : Shape.all.find? fun other =>
      other.sql.toList.isPrefixOf (shape.sql.toList ++ rest) with
  | none =>
      have hmem : shape ∈ Shape.all := by cases shape <;> decide
      have hbegins := List.find?_eq_none.mp hfound shape hmem
      exact absurd (List.isPrefixOf_iff_prefix.mpr (List.prefix_append _ _)) hbegins
  | some other =>
      have hfits := List.find?_some hfound
      have hother := List.isPrefixOf_iff_prefix.mp hfits
      have hsame : other = shape := by
        rcases List.prefix_or_prefix_of_prefix hother (List.prefix_append _ rest) with h | h
        · exact Shape.eq_of_isPrefixOf (List.isPrefixOf_iff_prefix.mpr h)
        · exact (Shape.eq_of_isPrefixOf (List.isPrefixOf_iff_prefix.mpr h)).symm
      rw [hsame]
      simp only [List.drop_left]

theorem lexemes_shape (shape : Shape) (rest : List Char) :
    lexemes (shape.sql.toList ++ rest) = (lexemes rest).map (.test shape :: ·) := by
  have hfound := lexeme?_shape shape rest
  obtain ⟨c, others, hfront, -⟩ := shape.front
  rw [hfront] at hfound ⊢
  have hlength : rest.length ≤ (c :: others ++ rest).length := by
    rw [List.length_append]
    exact Nat.le_add_left _ _
  exact lexemes_cons (by decide) hfound hlength

/-- Where no fragment can begin, a sign or a keyword does. -/
theorem lexeme?_eq_keyword?
    (hfront : ∀ c others, text = '(' :: c :: others → c ≠ 'f' ∧ c ≠ 'h') :
    lexeme? text = keyword? text := by
  have hnone : (Shape.all.find? fun shape => shape.sql.toList.isPrefixOf text) = none := by
    rw [List.find?_eq_none]
    intro shape _ hbegins
    obtain ⟨others, hothers⟩ := List.isPrefixOf_iff_prefix.mp hbegins
    obtain ⟨c, rest, hshape, hletter⟩ := shape.front
    rw [hshape] at hothers
    obtain ⟨hf, hh⟩ := hfront c (rest ++ others) hothers.symm
    exact hletter.elim hf hh
  unfold lexeme?
  rw [hnone]

/-- What an operand can begin with: a bracket or NOT. -/
def BeginsOperand (text : List Char) : Prop :=
  text.head? = some '(' ∨ text.head? = some 'N'

theorem BeginsOperand.append (htext : BeginsOperand text) (rest : List Char) :
    BeginsOperand (text ++ rest) := by
  cases text with
  | nil => rcases htext with hc | hc <;> cases hc
  | cons c others => exact htext

theorem lexemes_opening (hoperand : BeginsOperand rest) :
    lexemes ('(' :: rest) = (lexemes rest).map (.opening :: ·) := by
  have hfound : lexeme? ('(' :: rest) = some (.opening, rest) := by
    apply lexeme?_eq_keyword?
    intro c others heq
    obtain rfl : rest = c :: others := (List.cons.inj heq).2
    rcases hoperand with hc | hc
    all_goals
      obtain rfl := Option.some.inj hc
      decide
  exact lexemes_cons (by decide) hfound (Nat.le_refl _)

theorem lexemes_keyword (hopening : c ≠ '(') (hblank : c ≠ ' ')
    (hfound : keyword? (c :: others) = some (lexeme, rest))
    (hshorter : rest.length ≤ others.length) :
    lexemes (c :: others) = (lexemes rest).map (lexeme :: ·) := by
  apply lexemes_cons hblank _ hshorter
  rw [← hfound]
  apply lexeme?_eq_keyword?
  intro second others heq
  exact absurd (List.cons.inj heq).1 hopening

/-- The text is made of these lexemes, whatever comes behind it. -/
def Spells (sql : String) (list : List Lexeme) : Prop :=
  ∀ rest, lexemes (sql.toList ++ rest) = (lexemes rest).map (list ++ ·)

theorem Spells.append {sql next : String} {list others : List Lexeme} (hsql : Spells sql list)
    (hnext : Spells next others) : Spells (sql ++ next) (list ++ others) := by
  intro rest
  rw [String.toList_append, List.append_assoc, hsql, hnext, Option.map_map]
  congr 1
  funext lexemes
  exact (List.append_assoc ..).symm

theorem spells_empty : Spells "" [] := by
  intro rest
  exact Option.map_id'.symm

theorem Spells.bracketed {sql : String} {list : List Lexeme} (hsql : Spells sql list)
    (hoperand : BeginsOperand sql.toList) :
    Spells ("(" ++ sql ++ ")") (.opening :: list ++ [.closing]) := by
  have hclosing : Spells ")" [.closing] := fun rest =>
    lexemes_keyword (by decide) (by decide) rfl (Nat.le_refl _)
  have hinner := hsql.append hclosing
  intro rest
  have hopened : BeginsOperand ((sql ++ ")").toList ++ rest) := by
    rw [String.toList_append, List.append_assoc]
    exact hoperand.append _
  rw [String.append_assoc, String.toList_append]
  apply (lexemes_opening hopened).trans
  rw [hinner, Option.map_map]
  rfl

theorem spells_not : Spells "NOT " [.not] := by
  intro rest
  have hlength : (' ' :: rest).length ≤ ('O' :: 'T' :: ' ' :: rest).length := by
    simp only [List.length_cons]
    omega
  rw [← lexemes_blank rest]
  exact lexemes_keyword (by decide) (by decide) rfl hlength

theorem spells_join (joiner : Joiner) : Spells joiner.sql [.join joiner] := by
  intro rest
  have hand : (' ' :: rest).length ≤ ('N' :: 'D' :: ' ' :: rest).length := by
    simp only [List.length_cons]
    omega
  have hor : (' ' :: rest).length ≤ ('R' :: ' ' :: rest).length := Nat.le_succ _
  rw [← lexemes_blank rest]
  cases joiner with
  | and => exact (lexemes_blank _).trans (lexemes_keyword (by decide) (by decide) rfl hand)
  | or => exact (lexemes_blank _).trans (lexemes_keyword (by decide) (by decide) rfl hor)

end Lexemes

section Text

def Condition.lexemes (condition : Condition) : List Lexeme :=
  if condition.negated then [.not, .test condition.test.shape] else [.test condition.test.shape]

mutual

def Clause.lexemes : Clause → List Lexeme
  | .test _ condition => condition.lexemes
  | .group _ clauses => .opening :: lexemesOf clauses ++ [.closing]

/-- The lexemes of one sequence, each clause behind its joiner but for the
first. -/
def lexemesOf : List Clause → List Lexeme
  | [] => []
  | clause :: rest => clause.lexemes ++ lexemesJoined rest

def lexemesJoined : List Clause → List Lexeme
  | [] => []
  | clause :: rest => .join clause.joiner :: clause.lexemes ++ lexemesJoined rest

end

theorem Condition.spells (condition : Condition) : Spells condition.sql condition.lexemes := by
  have htest : Spells condition.test.sql [.test condition.test.shape] := by
    rw [condition.test.sql_shape]
    exact lexemes_shape condition.test.shape
  unfold sql lexemes
  split
  · exact spells_not.append htest
  · exact htest

theorem Condition.beginsOperand (condition : Condition) :
    BeginsOperand condition.sql.toList := by
  obtain ⟨c, rest, hfront, -⟩ := condition.test.shape.front
  rw [sql, condition.test.sql_shape]
  split
  · rw [String.toList_append]
    exact Or.inr rfl
  · rw [hfront]
    exact Or.inl rfl

theorem beginsOperand_sqlOf {clauses : List Clause} (hsome : clauses ≠ []) :
    BeginsOperand (sqlOf clauses).toList := by
  match clauses with
  | .test joiner condition :: rest =>
      rw [sqlOf, String.toList_append]
      exact condition.beginsOperand.append _
  | .group joiner clauses :: rest =>
      rw [sqlOf, Clause.sql, String.toList_append, String.toList_append, String.toList_append]
      exact Or.inl rfl

mutual

theorem Clause.Full.spells {clause : Clause} (hfull : clause.Full) :
    Spells clause.sql clause.lexemes := by
  match clause, hfull with
  | .test joiner condition, _ => exact condition.spells
  | .group joiner clauses, ⟨hsome, hinner⟩ =>
      exact hinner.spells.bracketed (beginsOperand_sqlOf hsome)

theorem AllFull.spells_joined {clauses : List Clause} (hfull : AllFull clauses) :
    Spells (sqlJoined clauses) (lexemesJoined clauses) := by
  match clauses, hfull with
  | [], _ => exact spells_empty
  | clause :: others, ⟨hfirst, hothers⟩ =>
      exact ((spells_join clause.joiner).append hfirst.spells).append hothers.spells_joined

theorem AllFull.spells {clauses : List Clause} (hfull : AllFull clauses) :
    Spells (sqlOf clauses) (lexemesOf clauses) := by
  match clauses, hfull with
  | [], _ => exact spells_empty
  | clause :: others, ⟨hfirst, hothers⟩ => exact hfirst.spells.append hothers.spells_joined

end

end Text

section Meaning

open Formula

variable (truth : Condition → Bool)

theorem Formula.value_disjoined (before : Option Formula) (formula : Formula) :
    (disjoined before formula).value truth =
      (before.any (value truth) || formula.value truth) := by
  cases before with
  | none => rfl
  | some first => rfl

theorem Test.bind_bounds (test : Test) (rest : List Bound) :
    test.shape.bind (test.bounds ++ rest) = some (test, rest) := by
  cases test with
  | pathOrTagLike pattern => simp [shape, bounds, likeBounds, Shape.bind]
  | pathLike | tagLike | tagsBelow | tagsAbove | dupesAbove => rfl

/-- The lexemes and their values are an operand that says what the clause says. -/
def ReadsOperand (lexemes : List Lexeme) (bounds : List Bound)
    (value : (Condition → Bool) → Bool) : Prop :=
  ∃ formula : Formula, (∀ truth, formula.value truth = value truth) ∧
    ∀ others run outer more,
      lexemes.foldlM Reader.take (.operand { others, run } outer (bounds ++ more)) =
        some (.operator others (conjoined run formula) outer more)

theorem Condition.reads (condition : Condition) :
    ReadsOperand condition.lexemes condition.bounds fun truth => truth condition := by
  obtain ⟨negated, test⟩ := condition
  cases negated with
  | false =>
      refine ⟨.test test, fun truth => rfl, ?_⟩
      intro others run outer more
      simp only [lexemes, bounds, Bool.false_eq_true, if_false, List.foldlM_cons, List.foldlM_nil,
        Reader.take, test.bind_bounds]
      rfl
  | true =>
      refine ⟨.not (.test test), fun truth => rfl, ?_⟩
      intro others run outer more
      simp only [lexemes, bounds, if_true, List.foldlM_cons, List.foldlM_nil, Reader.take,
        Option.bind_eq_bind, Option.bind_some, test.bind_bounds]
      rfl

mutual

theorem Clause.Full.reads {clause : Clause} (hfull : clause.Full) :
    ReadsOperand clause.lexemes clause.bounds fun truth => clause.value truth := by
  match clause, hfull with
  | .test joiner condition, _ => exact condition.reads
  | .group joiner clauses, ⟨hsome, hinner⟩ =>
      obtain ⟨others, run, hvalue, hreads⟩ := hinner.reads hsome
      refine ⟨disjoined others run, hvalue, ?_⟩
      intro otherwise before outer more
      simp only [Clause.lexemes, List.cons_append, List.foldlM_cons, List.foldlM_append,
        Clause.bounds, Reader.take, Option.bind_eq_bind, Option.bind_some, hreads]
      rfl

theorem AllFull.reads_joined {clauses : List Clause} (hfull : AllFull clauses)
    (others : Option Formula) (run : Formula) :
    ∃ others' run',
      (∀ truth, (disjoined others' run').value truth =
        (others.any (value truth) || chain (run.value truth) (joinedValues truth clauses))) ∧
      ∀ outer more, (lexemesJoined clauses).foldlM Reader.take
        (.operator others run outer (boundsOf clauses ++ more)) =
          some (.operator others' run' outer more) := by
  match clauses, hfull with
  | [], _ =>
      refine ⟨others, run, fun truth => value_disjoined truth others run, ?_⟩
      intro outer more
      rfl
  | clause :: rest, ⟨hfirst, hrest⟩ =>
      obtain ⟨formula, hvalue, hreads⟩ := hfirst.reads
      cases hjoiner : clause.joiner with
      | and =>
          obtain ⟨others', run', hvalues, hgoes⟩ := hrest.reads_joined others (.and run formula)
          refine ⟨others', run', ?_, ?_⟩
          · intro truth
            simp only [hvalues, joinedValues, hjoiner, chain, value, hvalue]
          · intro outer more
            simp only [lexemesJoined, hjoiner, List.cons_append, List.foldlM_cons,
              List.foldlM_append, boundsOf, List.append_assoc, Reader.take, Option.bind_eq_bind,
              Option.bind_some, hreads]
            exact hgoes outer more
      | or =>
          obtain ⟨others', run', hvalues, hgoes⟩ :=
            hrest.reads_joined (some (disjoined others run)) formula
          refine ⟨others', run', ?_, ?_⟩
          · intro truth
            simp only [hvalues, joinedValues, hjoiner, chain, hvalue, Option.any_some,
              value_disjoined, Bool.or_assoc]
          · intro outer more
            simp only [lexemesJoined, hjoiner, List.cons_append, List.foldlM_cons,
              List.foldlM_append, boundsOf, List.append_assoc, Reader.take, Option.bind_eq_bind,
              Option.bind_some, hreads]
            exact hgoes outer more

theorem AllFull.reads {clauses : List Clause} (hfull : AllFull clauses) (hsome : clauses ≠ []) :
    ∃ others run, (∀ truth, (disjoined others run).value truth = valueOf truth clauses) ∧
      ∀ outer more, (lexemesOf clauses).foldlM Reader.take
        (.operand {} outer (boundsOf clauses ++ more)) =
          some (.operator others run outer more) := by
  match clauses, hfull with
  | clause :: rest, ⟨hfirst, hrest⟩ =>
      obtain ⟨formula, hvalue, hreads⟩ := hfirst.reads
      obtain ⟨others, run, hvalues, hgoes⟩ := hrest.reads_joined none formula
      refine ⟨others, run, ?_, ?_⟩
      · intro truth
        simp only [hvalues, valueOf, hvalue, Option.any_none, Bool.false_or]
      · intro outer more
        simp only [lexemesOf, List.foldlM_append, boundsOf, List.append_assoc, hreads]
        exact hgoes outer more

end

/-- The text and the bound values of clauses without empty groups are read as
what the clauses mean, for every truth of the conditions. -/
theorem AllFull.read?_predicateOf {clauses : List Clause} (hfull : AllFull clauses)
    (hsome : clauses ≠ []) :
    ∃ formula, (predicateOf clauses).read? = some formula ∧
      ∀ truth, formula.value truth = valueOf truth clauses := by
  obtain ⟨others, run, hvalue, hreads⟩ := hfull.reads hsome
  refine ⟨disjoined others run, ?_, hvalue⟩
  have hlexemes : lexemes (sqlOf clauses).toList = some (lexemesOf clauses) := by
    have hspells := hfull.spells []
    rwa [List.append_nil, lexemes, Option.map_some, List.append_nil] at hspells
  have hread := hreads [] []
  rw [List.append_nil] at hread
  simp only [Predicate.read?, predicateOf, hlexemes, Option.bind_eq_bind, Option.bind_some, hread]
  rfl

end Meaning

end MediaCatalog.Query
