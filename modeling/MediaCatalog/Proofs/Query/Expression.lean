import MediaCatalog.Proofs.Query.Reading
import MediaCatalog.Proofs.Query.Spelling
import MediaCatalog.Query.Compiled

/-!
What a query means. The grammar of queries has terms and brackets, AND or
nothing between items, and OR, which binds less tightly. A query printed by
this grammar is split, grouped and written as a predicate that says the same as
the expression, whatever is true of the files.
-/

namespace MediaCatalog.Query

mutual

/-- A term, or an expression in brackets. -/
inductive Item where
  | term (word : String)
  | bracketed (inside : Disjunction)

/-- Items side by side. An AND between two of them may be left out. -/
inductive Conjunction where
  | single (item : Item)
  | more (item : Item) (spelled : Bool) (rest : Conjunction)

/-- Conjunctions with OR between them. -/
inductive Disjunction where
  | single (run : Conjunction)
  | more (run : Conjunction) (rest : Disjunction)

end

def Joiner.word : Joiner → String
  | .and => "AND"
  | .or => "OR"

mutual

/-- The words of an item in order, the brackets included. -/
def Item.words : Item → List String
  | .term word => [word]
  | .bracketed inside => "(" :: (inside.words ++ [")"])

def Conjunction.words : Conjunction → List String
  | .single item => item.words
  | .more item spelled rest =>
      item.words ++ if spelled then Joiner.and.word :: rest.words else rest.words

def Disjunction.words : Disjunction → List String
  | .single run => run.words
  | .more run rest => run.words ++ Joiner.or.word :: rest.words

end

mutual

/-- The value of an item where each term has the value `truth` gives. -/
def Item.value (truth : String → Bool) : Item → Bool
  | .term word => truth word
  | .bracketed inside => inside.value truth

def Conjunction.value (truth : String → Bool) : Conjunction → Bool
  | .single item => item.value truth
  | .more item _ rest => item.value truth && rest.value truth

def Disjunction.value (truth : String → Bool) : Disjunction → Bool
  | .single run => run.value truth
  | .more run rest => run.value truth || rest.value truth

end

/-- A word that is no operator. -/
structure IsTerm (word : String) : Prop where
  isWord : IsWord word
  ne_and : word ≠ "AND"
  ne_or : word ≠ "OR"

mutual

/-- The terms of the item are terms. -/
def Item.Proper : Item → Prop
  | .term word => IsTerm word
  | .bracketed inside => inside.Proper

def Conjunction.Proper : Conjunction → Prop
  | .single item => item.Proper
  | .more item _ rest => item.Proper ∧ rest.Proper

def Disjunction.Proper : Disjunction → Prop
  | .single run => run.Proper
  | .more run rest => run.Proper ∧ rest.Proper

end

section Words

theorem IsTerm.ofWord? {word : String} (hterm : IsTerm word) : Joiner.ofWord? word = none := by
  rw [Joiner.ofWord?, if_neg hterm.ne_and, if_neg hterm.ne_or]

theorem Joiner.ofWord?_word (joiner : Joiner) : Joiner.ofWord? joiner.word = some joiner := by
  cases joiner with
  | and | or => rfl

theorem Joiner.isWord (joiner : Joiner) : IsWord joiner.word := by
  cases joiner with
  | and | or => exact isWord_of_plain (by decide) rfl

/-- What a query is made of: words and single brackets. -/
def IsToken (word : String) : Prop :=
  IsWord word ∨ word = "(" ∨ word = ")"

mutual

theorem Item.Proper.isToken {item : Item} (hproper : item.Proper) :
    ∀ word ∈ item.words, IsToken word := by
  match item, hproper with
  | .term word, hterm =>
      intro other hmem
      obtain rfl := List.mem_singleton.mp hmem
      exact Or.inl hterm.isWord
  | .bracketed inside, hinside =>
      intro word hmem
      rcases List.mem_cons.mp hmem with hopening | hmem
      · exact Or.inr (Or.inl hopening)
      · rcases List.mem_append.mp hmem with hmem | hmem
        · exact Disjunction.Proper.isToken hinside word hmem
        · exact Or.inr (Or.inr (List.mem_singleton.mp hmem))

theorem Conjunction.Proper.isToken {run : Conjunction} (hproper : run.Proper) :
    ∀ word ∈ run.words, IsToken word := by
  match run, hproper with
  | .single item, hitem => exact Item.Proper.isToken hitem
  | .more item spelled rest, ⟨hitem, hrest⟩ =>
      intro word hmem
      rcases List.mem_append.mp hmem with hmem | hmem
      · exact hitem.isToken word hmem
      · cases spelled with
        | false => exact hrest.isToken word hmem
        | true =>
            rcases List.mem_cons.mp hmem with rfl | hmem
            · exact Or.inl Joiner.and.isWord
            · exact hrest.isToken word hmem

theorem Disjunction.Proper.isToken {expression : Disjunction} (hproper : expression.Proper) :
    ∀ word ∈ expression.words, IsToken word := by
  match expression, hproper with
  | .single run, hrun => exact Conjunction.Proper.isToken hrun
  | .more run rest, ⟨hrun, hrest⟩ =>
      intro word hmem
      rcases List.mem_append.mp hmem with hmem | hmem
      · exact hrun.isToken word hmem
      · rcases List.mem_cons.mp hmem with rfl | hmem
        · exact Or.inl Joiner.or.isWord
        · exact hrest.isToken word hmem

end

end Words

section Tokens

mutual

def Item.tokens : Item → List Token
  | .term word => [.term (.ofWord word)]
  | .bracketed inside => .opening :: (inside.tokens ++ [.closing])

def Conjunction.tokens : Conjunction → List Token
  | .single item => item.tokens
  | .more item spelled rest =>
      item.tokens ++ if spelled then .join .and :: rest.tokens else rest.tokens

def Disjunction.tokens : Disjunction → List Token
  | .single run => run.tokens
  | .more run rest => run.tokens ++ .join .or :: rest.tokens

end

/-- The words of an operand have these tokens, and an operator is recognised
before and behind them. -/
structure Classifies (words : List String) (tokens : List Token) : Prop where
  starts : ∃ first others, words = first :: others ∧ startsOperand first = true
  reads : ∃ last, endsOperand last = true ∧ ∀ previous rest,
    tokensAfter previous (words ++ rest) = tokens ++ tokensAfter (some last) rest

theorem Classifies.append {words others : List String} {tokens further : List Token}
    (hwords : Classifies words tokens) (hothers : Classifies others further) :
    Classifies (words ++ others) (tokens ++ further) := by
  obtain ⟨first, more, rfl, hfirst⟩ := hwords.starts
  obtain ⟨middle, -, hreads⟩ := hwords.reads
  obtain ⟨last, hlast, hreadsOthers⟩ := hothers.reads
  refine ⟨⟨first, more ++ others, rfl, hfirst⟩, last, hlast, ?_⟩
  intro previous rest
  rw [List.append_assoc, hreads, hreadsOthers, List.append_assoc]

theorem Classifies.join {words others : List String} {tokens further : List Token}
    (hwords : Classifies words tokens) (joiner : Joiner) (hothers : Classifies others further) :
    Classifies (words ++ joiner.word :: others) (tokens ++ .join joiner :: further) := by
  obtain ⟨first, more, rfl, hfirst⟩ := hwords.starts
  obtain ⟨middle, hmiddle, hreads⟩ := hwords.reads
  obtain ⟨next, following, rfl, hnext⟩ := hothers.starts
  obtain ⟨last, hlast, hreadsOthers⟩ := hothers.reads
  refine ⟨⟨first, more ++ joiner.word :: next :: following, rfl, hfirst⟩, last, hlast, ?_⟩
  intro previous rest
  have hjoin : tokensAfter (some middle) (joiner.word :: (next :: following ++ rest)) =
      .join joiner :: tokensAfter (some joiner.word) (next :: following ++ rest) := by
    rw [tokensAfter, joiner.ofWord?_word]
    simp [hmiddle, hnext]
  rw [List.append_assoc, hreads, List.cons_append, hjoin, hreadsOthers, List.append_assoc]
  rfl

theorem IsTerm.classifies {word : String} (hterm : IsTerm word) :
    Classifies [word] [.term (.ofWord word)] := by
  obtain ⟨hopening, hclosing⟩ := hterm.isWord.ne_bracket
  refine ⟨⟨word, [], rfl, bne_iff_ne.mpr hclosing⟩, word, ?_, ?_⟩
  · simp [endsOperand, hterm.ofWord?, hopening]
  · intro previous rest
    rw [List.singleton_append, tokensAfter, hterm.ofWord?]
    simp [hopening, hclosing]

theorem Classifies.bracketed {words : List String} {tokens : List Token}
    (hwords : Classifies words tokens) :
    Classifies ("(" :: (words ++ [")"])) (.opening :: (tokens ++ [.closing])) := by
  obtain ⟨last, -, hreads⟩ := hwords.reads
  refine ⟨⟨"(", _, rfl, rfl⟩, ")", rfl, ?_⟩
  intro previous rest
  have hopening (others : List String) :
      tokensAfter previous ("(" :: others) = .opening :: tokensAfter (some "(") others := rfl
  have hclosing : tokensAfter (some last) (")" :: rest) =
      .closing :: tokensAfter (some ")") rest := rfl
  rw [List.cons_append, hopening, List.append_assoc, hreads, List.singleton_append, hclosing]
  simp

mutual

theorem Item.Proper.classifies {item : Item} (hproper : item.Proper) :
    Classifies item.words item.tokens := by
  match item, hproper with
  | .term word, hterm => exact IsTerm.classifies hterm
  | .bracketed inside, hinside => exact (Disjunction.Proper.classifies hinside).bracketed

theorem Conjunction.Proper.classifies {run : Conjunction} (hproper : run.Proper) :
    Classifies run.words run.tokens := by
  match run, hproper with
  | .single item, hitem => exact Item.Proper.classifies hitem
  | .more item true rest, ⟨hitem, hrest⟩ => exact hitem.classifies.join .and hrest.classifies
  | .more item false rest, ⟨hitem, hrest⟩ => exact hitem.classifies.append hrest.classifies

theorem Disjunction.Proper.classifies {expression : Disjunction}
    (hproper : expression.Proper) : Classifies expression.words expression.tokens := by
  match expression, hproper with
  | .single run, hrun => exact Conjunction.Proper.classifies hrun
  | .more run rest, ⟨hrun, hrest⟩ => exact hrun.classifies.join .or hrest.classifies

end

theorem Disjunction.Proper.tokens_words {expression : Disjunction}
    (hproper : expression.Proper) : Query.tokens expression.words = expression.tokens := by
  obtain ⟨last, -, hreads⟩ := hproper.classifies.reads
  have htokens := hreads none []
  rwa [List.append_nil, tokensAfter, List.append_nil] at htokens

end Tokens

section Clauses

mutual

def Item.clause (joiner : Joiner) : Item → Clause
  | .term word => .test joiner (Term.ofWord word).condition
  | .bracketed inside => .group joiner (inside.clauses .and)

/-- The clauses of a conjunction behind a joiner. -/
def Conjunction.clauses (joiner : Joiner) : Conjunction → List Clause
  | .single item => [item.clause joiner]
  | .more item _ rest => item.clause joiner :: rest.clauses .and

def Disjunction.clauses (joiner : Joiner) : Disjunction → List Clause
  | .single run => run.clauses joiner
  | .more run rest => run.clauses joiner ++ rest.clauses .or

end

theorem Conjunction.clauses_ne_nil (joiner : Joiner) (run : Conjunction) :
    run.clauses joiner ≠ [] := by
  cases run with
  | single item => exact List.cons_ne_nil _ _
  | more item spelled rest => exact List.cons_ne_nil _ _

theorem Disjunction.clauses_ne_nil (joiner : Joiner) (expression : Disjunction) :
    expression.clauses joiner ≠ [] := by
  cases expression with
  | single run => exact run.clauses_ne_nil joiner
  | more run rest => exact List.append_ne_nil_of_left_ne_nil (run.clauses_ne_nil joiner) _

mutual

theorem Item.full_clause (joiner : Joiner) (item : Item) : (item.clause joiner).Full := by
  match item with
  | .term word => trivial
  | .bracketed inside => exact ⟨inside.clauses_ne_nil .and, inside.allFull_clauses .and⟩

theorem Conjunction.allFull_clauses (joiner : Joiner) (run : Conjunction) :
    AllFull (run.clauses joiner) := by
  match run with
  | .single item => exact ⟨item.full_clause joiner, trivial⟩
  | .more item _ rest => exact ⟨item.full_clause joiner, rest.allFull_clauses .and⟩

theorem Disjunction.allFull_clauses (joiner : Joiner) (expression : Disjunction) :
    AllFull (expression.clauses joiner) := by
  match expression with
  | .single run => exact run.allFull_clauses joiner
  | .more run rest =>
      exact allFull_append.mpr ⟨run.allFull_clauses joiner, rest.allFull_clauses .or⟩

end

section Draft

variable (draft : Draft)

/-- Adds some clauses to the innermost open group. -/
def Draft.addAll (clauses : List Clause) : Draft :=
  clauses.foldl Draft.add draft

theorem Draft.addAll_append (clauses others : List Clause) :
    draft.addAll (clauses ++ others) = (draft.addAll clauses).addAll others :=
  List.foldl_append

/-- No operator waits behind clauses. -/
theorem Draft.waiting_addAll (clauses : List Clause) :
    (draft.addAll clauses).waiting = draft.waiting := by
  induction clauses generalizing draft with
  | nil => rfl
  | cons clause rest ih =>
      obtain ⟨outer, opened, waiting⟩ := draft
      cases opened with
      | nil => exact ih _
      | cons group opened => exact ih _

theorem Draft.addAll_outer (outer clauses : List Clause) (waiting : Option Joiner) :
    (Draft.mk outer [] waiting).addAll clauses = ⟨outer ++ clauses, [], waiting⟩ := by
  induction clauses generalizing outer with
  | nil => rw [List.append_nil]; rfl
  | cons clause rest ih =>
      rw [← List.singleton_append, ← List.append_assoc, ← ih]
      rfl

theorem Draft.addAll_opened (outer clauses group : List Clause) (joiner : Joiner)
    (opened : List (Joiner × List Clause)) (waiting : Option Joiner) :
    (Draft.mk outer ((joiner, group) :: opened) waiting).addAll clauses =
      ⟨outer, (joiner, group ++ clauses) :: opened, waiting⟩ := by
  induction clauses generalizing group with
  | nil => rw [List.append_nil]; rfl
  | cons clause rest ih =>
      have hmore := ih (group ++ [clause])
      rw [List.append_assoc, List.singleton_append] at hmore
      exact hmore

/-- The tokens were taken as these clauses, behind the operator that waited. -/
def TakenAs (tokens : List Token) (clauses : Joiner → List Clause) : Prop :=
  ∀ draft : Draft, tokens.foldl Draft.take draft =
    ({ draft with waiting := none } : Draft).addAll (clauses (draft.waiting.getD .and))

theorem Draft.idle_addAll (clauses : List Clause) :
    { ({ draft with waiting := none } : Draft).addAll clauses with waiting := none } =
      ({ draft with waiting := none } : Draft).addAll clauses := by
  have hwaiting := ({ draft with waiting := none } : Draft).waiting_addAll clauses
  cases hadded : ({ draft with waiting := none } : Draft).addAll clauses with
  | mk outer opened waiting =>
      rw [hadded] at hwaiting
      simp only at hwaiting
      rw [hwaiting]

theorem TakenAs.append {tokens others : List Token} {clauses further : Joiner → List Clause}
    (htokens : TakenAs tokens clauses) (hothers : TakenAs others further) :
    TakenAs (tokens ++ others) fun joiner => clauses joiner ++ further .and := by
  intro draft
  rw [List.foldl_append, htokens, hothers, draft.idle_addAll, Draft.waiting_addAll,
    Draft.addAll_append]
  rfl

theorem TakenAs.join {tokens others : List Token} {clauses further : Joiner → List Clause}
    (htokens : TakenAs tokens clauses) (joiner : Joiner) (hothers : TakenAs others further) :
    TakenAs (tokens ++ .join joiner :: others) fun first => clauses first ++ further joiner := by
  intro draft
  rw [List.foldl_append, htokens, List.foldl_cons, hothers, Draft.addAll_append,
    ← draft.idle_addAll]
  rfl

theorem TakenAs.bracketed {tokens : List Token} {clauses : Joiner → List Clause}
    (htokens : TakenAs tokens clauses) :
    TakenAs (.opening :: (tokens ++ [.closing])) fun joiner => [.group joiner (clauses .and)] := by
  intro draft
  rw [List.foldl_cons, List.foldl_append, htokens]
  simp only [Draft.take, Draft.addAll_opened]
  rfl

end Draft

mutual

theorem Item.takenAs (item : Item) :
    TakenAs item.tokens fun joiner => [item.clause joiner] := by
  match item with
  | .term word => exact fun draft => rfl
  | .bracketed inside => exact inside.takenAs.bracketed

theorem Conjunction.takenAs (run : Conjunction) :
    TakenAs run.tokens fun joiner => run.clauses joiner := by
  match run with
  | .single item => exact item.takenAs
  | .more item true rest => exact item.takenAs.join .and rest.takenAs
  | .more item false rest => exact item.takenAs.append rest.takenAs

theorem Disjunction.takenAs (expression : Disjunction) :
    TakenAs expression.tokens fun joiner => expression.clauses joiner := by
  match expression with
  | .single run => exact run.takenAs
  | .more run rest => exact run.takenAs.join .or rest.takenAs

end

theorem Disjunction.clauses_tokens (expression : Disjunction) :
    Query.clauses expression.tokens = expression.clauses .and := by
  have hgrouped : grouped expression.tokens = expression.clauses .and := by
    rw [grouped, expression.takenAs]
    change (Draft.addAll ⟨[], [], none⟩ (expression.clauses .and)).finish = _
    rw [Draft.addAll_outer]
    rfl
  rw [Query.clauses, hgrouped, (expression.allFull_clauses .and).nonempty_eq]

end Clauses

section Values

variable (truth : Condition → Bool)

/-- Whether a term is true. -/
def termTruth (word : String) : Bool :=
  truth (Term.ofWord word).condition

theorem Item.joiner_clause (joiner : Joiner) (item : Item) :
    (item.clause joiner).joiner = joiner := by
  cases item with
  | term | bracketed => rfl

mutual

theorem Item.value_clause (joiner : Joiner) (item : Item) :
    (item.clause joiner).value truth = item.value (termTruth truth) := by
  match item with
  | .term word => rfl
  | .bracketed inside => exact inside.valueOf_clauses .and

/-- Behind AND, a conjunction goes on with the conjunction before it. -/
theorem Conjunction.chain_and (run : Conjunction) (soFar : Bool) (rest : List Clause) :
    chain soFar (joinedValues truth (run.clauses .and ++ rest)) =
      chain (soFar && run.value (termTruth truth)) (joinedValues truth rest) := by
  match run with
  | .single item =>
      simp only [Conjunction.clauses, List.singleton_append, joinedValues, item.joiner_clause,
        item.value_clause, chain, Conjunction.value]
  | .more item _ others =>
      simp only [Conjunction.clauses, List.cons_append, joinedValues, item.joiner_clause,
        item.value_clause, chain, Conjunction.value, others.chain_and, Bool.and_assoc]

/-- Behind OR, a conjunction begins anew. -/
theorem Conjunction.chain_or (run : Conjunction) (soFar : Bool) (rest : List Clause) :
    chain soFar (joinedValues truth (run.clauses .or ++ rest)) =
      (soFar || chain (run.value (termTruth truth)) (joinedValues truth rest)) := by
  match run with
  | .single item =>
      simp only [Conjunction.clauses, List.singleton_append, joinedValues, item.joiner_clause,
        item.value_clause, chain, Conjunction.value]
  | .more item _ others =>
      simp only [Conjunction.clauses, List.cons_append, joinedValues, item.joiner_clause,
        item.value_clause, chain, Conjunction.value, others.chain_and]

theorem Conjunction.valueOf_clauses (joiner : Joiner) (run : Conjunction) (rest : List Clause) :
    valueOf truth (run.clauses joiner ++ rest) =
      chain (run.value (termTruth truth)) (joinedValues truth rest) := by
  match run with
  | .single item =>
      simp only [Conjunction.clauses, List.singleton_append, valueOf, item.value_clause,
        Conjunction.value]
  | .more item _ others =>
      simp only [Conjunction.clauses, List.cons_append, valueOf, item.value_clause,
        Conjunction.value, others.chain_and]

theorem Disjunction.chain_or (expression : Disjunction) (soFar : Bool) :
    chain soFar (joinedValues truth (expression.clauses .or)) =
      (soFar || expression.value (termTruth truth)) := by
  match expression with
  | .single run =>
      have hrun := run.chain_or soFar []
      rwa [List.append_nil] at hrun
  | .more run rest =>
      rw [Disjunction.clauses, run.chain_or, rest.chain_or, Disjunction.value]

theorem Disjunction.valueOf_clauses (joiner : Joiner) (expression : Disjunction) :
    valueOf truth (expression.clauses joiner) = expression.value (termTruth truth) := by
  match expression with
  | .single run =>
      have hrun := run.valueOf_clauses joiner []
      rwa [List.append_nil] at hrun
  | .more run rest =>
      rw [Disjunction.clauses, run.valueOf_clauses, rest.chain_or, Disjunction.value]

end

end Values

/-- A query printed from an expression is compiled to a predicate that is read
as what the expression says: for every truth of the terms, each with the NOT of
its own, and so for every truth of the tests that they make. -/
theorem printed_meaning {expression : Disjunction} (hproper : expression.Proper)
    {query : String} (hprinted : Printed expression.words query.toList) {maxWords : Nat}
    (hroom : expression.words.length ≤ maxWords) :
    ∃ formula, (compileWithin query maxWords).predicate.read? = some formula ∧
      (∀ truth : Condition → Bool, formula.value truth =
        expression.value fun word => truth (Term.ofWord word).condition) ∧
      ∀ holds : Test → Bool, formula.eval holds =
        expression.value fun word =>
          (Term.ofWord word).condition.negated ^^ holds (Term.ofWord word).condition.test := by
  have hwords : words query maxWords = expression.words :=
    hprinted.words_eq hproper.isToken hroom
  have hclauses : (compileWithin query maxWords).clauses = expression.clauses .and := by
    simp only [compileWithin, hwords, hproper.tokens_words, expression.clauses_tokens]
  obtain ⟨formula, hread, hvalue⟩ :=
    (expression.allFull_clauses .and).read?_predicateOf (expression.clauses_ne_nil .and)
  have hmeans (truth : Condition → Bool) :
      formula.value truth = expression.value (termTruth truth) :=
    (hvalue truth).trans (expression.valueOf_clauses truth .and)
  refine ⟨formula, ?_, hmeans, ?_⟩
  · rw [Compiled.predicate, hclauses]
    exact hread
  · intro holds
    rw [← Formula.value_eq_eval, hmeans]
    rfl

/-- Brackets, an escaped blank and a quoted one, and an AND left out. -/
theorem printed_meaning_bracketed :
    ∃ formula,
      (compileWithin " ( f~x OR -t=y\\ z ) 'a b'" 6).predicate.read? = some formula ∧
      ∀ truth : Condition → Bool, formula.value truth =
        ((truth ⟨false, .pathLike "%x%"⟩ || truth ⟨true, .tagLike "y\\\\ z"⟩) &&
          truth ⟨false, .pathOrTagLike "%a b%"⟩) := by
  let either : Disjunction :=
    .more (.single (.term "f~x")) (.single (.single (.term "-t=y\\ z")))
  let expression : Disjunction :=
    .single (.more (.bracketed either) false (.single (.term "'a b'")))
  have hpath : IsWord "f~x" := isWord_of_plain (by decide) rfl
  have htag : IsWord "-t=y\\ z" :=
    ⟨[.single (.bare '-'), .single (.bare 't'), .single (.bare '='), .single (.bare 'y'),
      .single (.escaped ' '), .single (.bare 'z')],
      by decide, by decide, by decide, by decide, rfl⟩
  have hquoted : IsWord "'a b'" :=
    ⟨[.quoted '\'' [.bare 'a', .bare ' ', .bare 'b']],
      by decide, by decide, by decide, by decide, rfl⟩
  have heither : either.Proper :=
    ⟨⟨hpath, by decide, by decide⟩, ⟨htag, by decide, by decide⟩⟩
  have hproper : expression.Proper := ⟨heither, ⟨hquoted, by decide, by decide⟩⟩
  have hprinted : Printed expression.words " ( f~x OR -t=y\\ z ) 'a b'".toList :=
    printed_spaced expression.words
  obtain ⟨formula, hread, hvalue, -⟩ :=
    printed_meaning hproper hprinted (by decide : expression.words.length ≤ 6)
  exact ⟨formula, hread, hvalue⟩

end MediaCatalog.Query
