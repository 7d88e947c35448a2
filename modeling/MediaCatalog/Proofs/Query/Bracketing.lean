import Mathlib.Data.List.Chain
import MediaCatalog.Proofs.Query.Grouping
import MediaCatalog.Query.Compiled

/-!
A part of a query in brackets. Taken inside an open group, words whose brackets
are balanced leave the clauses that they leave by themselves, so what is in
brackets means the same wherever it stands. One thing does get out: an operator
that is left waiting at the end of the group. It is not dropped there, and joins
the group to what follows.
-/

namespace MediaCatalog.Query

/-- A word that is neither an operator nor a bracket. -/
def IsMatch (word : String) : Prop :=
  Joiner.ofWord? word = none ∧ word ≠ "(" ∧ word ≠ ")"

/-- The token of a word that is no operator. -/
def Token.ofOperand (word : String) : Token :=
  if word = "(" then .opening
  else if word = ")" then .closing
  else .term (.ofWord word)

/-- How many brackets are open behind the words, unless one closes none. -/
def depthAfter (depth : Nat) : List String → Option Nat
  | [] => some depth
  | word :: rest =>
      if word = "(" then depthAfter (depth + 1) rest
      else if word = ")" then
        match depth with
        | 0 => none
        | depth + 1 => depthAfter depth rest
      else depthAfter depth rest

/-- Each bracket among the words has its partner. -/
def Balanced (words : List String) : Prop :=
  depthAfter 0 words = some 0

/-- The operator that waits behind the tokens for something to join. -/
def waitingAfter (waiting : Option Joiner) : List Token → Option Joiner
  | [] => waiting
  | .join joiner :: rest => waitingAfter (some joiner) rest
  | .closing :: rest => waitingAfter waiting rest
  | .opening :: rest | .term _ :: rest => waitingAfter none rest

section Words

variable {word : String} {rest others : List String}

theorem depthAfter_other (hopening : word ≠ "(") (hclosing : word ≠ ")") (depth : Nat) :
    depthAfter depth (word :: rest) = depthAfter depth rest := by
  simp only [depthAfter, if_neg hopening, if_neg hclosing]

theorem startsOperand_closing : startsOperand ")" = false := by decide

theorem endsOperand_opening : endsOperand "(" = false := by decide

theorem tokensAfter_opening (previous : Option String) (rest : List String) :
    tokensAfter previous ("(" :: rest) = .opening :: tokensAfter (some "(") rest := rfl

theorem tokensAfter_closing (previous : Option String) (rest : List String) :
    tokensAfter previous (")" :: rest) = .closing :: tokensAfter (some ")") rest := rfl

theorem IsMatch.tokensAfter_cons (hmatch : IsMatch word) (previous : Option String)
    (rest : List String) :
    tokensAfter previous (word :: rest) = .term (.ofWord word) :: tokensAfter (some word) rest := by
  obtain ⟨hoperator, hopening, hclosing⟩ := hmatch
  simp only [tokensAfter, hoperator, hopening, hclosing, if_false]

/-- A word that is no operator has a token of its own. -/
theorem tokensAfter_operand (hoperator : Joiner.ofWord? word = none) (previous : Option String)
    (rest : List String) :
    tokensAfter previous (word :: rest) = .ofOperand word :: tokensAfter (some word) rest := by
  simp only [tokensAfter, hoperator, Token.ofOperand]
  split
  · rfl
  · split <;> rfl

theorem Token.ofOperand_ne_join (word : String) (joiner : Joiner) :
    Token.ofOperand word ≠ .join joiner := by
  unfold Token.ofOperand
  split
  · exact nofun
  · split <;> exact nofun

/-- An operator is kept or left out. -/
theorem tokensAfter_operator {joiner : Joiner} (hoperator : Joiner.ofWord? word = some joiner)
    (previous : Option String) (rest : List String) :
    tokensAfter previous (word :: rest) =
      if previous.any endsOperand && rest.head?.any startsOperand then
        .join joiner :: tokensAfter (some word) rest
      else tokensAfter (some word) rest := by
  simp only [tokensAfter, hoperator]

/-- To the words before a closing bracket it is like the end of the query. -/
theorem tokensAfter_closed (previous : Option String) (words others : List String) :
    tokensAfter previous (words ++ ")" :: others) =
      tokensAfter previous words ++ .closing :: tokensAfter (some ")") others := by
  induction words generalizing previous with
  | nil => exact tokensAfter_closing previous others
  | cons word rest ih =>
      have hnext : (rest ++ ")" :: others).head?.any startsOperand =
          rest.head?.any startsOperand := by
        cases rest with
        | nil => exact startsOperand_closing
        | cons next more => rfl
      rw [List.cons_append]
      cases hoperator : Joiner.ofWord? word with
      | none =>
          simp only [tokensAfter, hoperator, ih]
          split
          · rfl
          · split <;> rfl
      | some joiner =>
          rw [tokensAfter_operator hoperator, tokensAfter_operator hoperator, hnext, ih]
          split <;> rfl

/-- To the words behind an opening bracket it is like the start of the query. -/
theorem tokensAfter_opened (words : List String) : tokensAfter (some "(") words = tokens words := by
  cases words with
  | nil => rfl
  | cons word rest =>
      have hstart : (some "(").any endsOperand = false := endsOperand_opening
      cases hoperator : Joiner.ofWord? word with
      | none => simp only [tokens, tokensAfter, hoperator]
      | some joiner =>
          rw [tokens, tokensAfter_operator hoperator, tokensAfter_operator hoperator, hstart]
          rfl

theorem IsMatch.term_mem (hmatch : IsMatch word) {words : List String} (hword : word ∈ words)
    (previous : Option String) : Token.term (.ofWord word) ∈ tokensAfter previous words := by
  induction words generalizing previous with
  | nil => cases hword
  | cons first rest ih =>
      rcases List.mem_cons.mp hword with rfl | hrest
      · rw [hmatch.tokensAfter_cons]
        exact List.mem_cons_self
      · have hmem := ih hrest (some first)
        cases hoperator : Joiner.ofWord? first with
        | none =>
            rw [tokensAfter_operand hoperator]
            exact List.mem_cons_of_mem _ hmem
        | some joiner =>
            rw [tokensAfter_operator hoperator]
            split
            · exact List.mem_cons_of_mem _ hmem
            · exact hmem

/-- The tokens of words of which a first part stands in brackets. -/
theorem tokens_bracketed (hmatch : IsMatch word) (words rest : List String) :
    tokens ("(" :: (words ++ ")" :: word :: rest)) =
      .opening :: (tokens words ++ .closing :: tokens (word :: rest)) := by
  rw [tokens, tokensAfter_opening, tokensAfter_closed, tokensAfter_opened,
    hmatch.tokensAfter_cons, tokens, tokens, hmatch.tokensAfter_cons]

end Words

namespace Draft

variable (draft : Draft)

/-- The draft as it is inside a group that was opened first of all. -/
def bracketed : Draft :=
  ⟨[], draft.opened ++ [(.and, draft.outer)], draft.waiting⟩

/-- The draft as it is behind other clauses. -/
def behind (before : List Clause) : Draft :=
  { draft with outer := before ++ draft.outer }

theorem add_bracketed (clause : Clause) :
    draft.bracketed.add clause = (draft.add clause).bracketed := by
  obtain ⟨outer, opened, waiting⟩ := draft
  cases opened with
  | nil | cons => rfl

theorem add_behind (before : List Clause) (clause : Clause) :
    (draft.behind before).add clause = (draft.add clause).behind before := by
  obtain ⟨outer, opened, waiting⟩ := draft
  cases opened with
  | nil => simp only [behind, add, List.append_assoc]
  | cons group opened => rfl

theorem close_bracketed (hopen : draft.opened ≠ []) :
    draft.bracketed.close = draft.close.bracketed := by
  obtain ⟨outer, opened, waiting⟩ := draft
  cases opened with
  | nil => exact absurd rfl hopen
  | cons group opened => exact add_bracketed ⟨outer, opened, waiting⟩ (.group group.1 group.2)

theorem close_behind (before : List Clause) :
    (draft.behind before).close = draft.close.behind before := by
  obtain ⟨outer, opened, waiting⟩ := draft
  cases opened with
  | nil => rfl
  | cons group opened =>
      exact add_behind ⟨outer, opened, waiting⟩ before (.group group.1 group.2)

theorem take_bracketed (token : Token) (hopen : token = .closing → draft.opened ≠ []) :
    draft.bracketed.take token = (draft.take token).bracketed := by
  cases token with
  | join | opening => rfl
  | closing => exact draft.close_bracketed (hopen rfl)
  | term term => exact add_bracketed { draft with waiting := none } _

theorem take_behind (before : List Clause) (token : Token) :
    (draft.behind before).take token = (draft.take token).behind before := by
  cases token with
  | join | opening => rfl
  | closing => exact draft.close_behind before
  | term term => exact add_behind { draft with waiting := none } before _

theorem foldl_behind (before : List Clause) (tokens : List Token) :
    tokens.foldl take (draft.behind before) = (tokens.foldl take draft).behind before := by
  induction tokens generalizing draft with
  | nil => rfl
  | cons token rest ih => rw [List.foldl_cons, take_behind, ih, List.foldl_cons]

theorem finish_behind (before : List Clause) :
    (draft.behind before).finish = before ++ draft.finish := by
  have hclosed (n : Nat) : Nat.repeat close n (draft.behind before) =
      (Nat.repeat close n draft).behind before := by
    induction n with
    | zero => rfl
    | succ n ih => rw [Nat.repeat, ih, close_behind, Nat.repeat]
  rw [finish, hclosed]
  rfl

theorem length_opened_add (clause : Clause) :
    (draft.add clause).opened.length = draft.opened.length := by
  obtain ⟨outer, opened, waiting⟩ := draft
  cases opened with
  | nil | cons => rfl

/-- Words that close none of the groups open before them are taken inside one
more group as they are without it. -/
theorem foldl_bracketed {words : List String} {depth : Nat}
    (hdepth : depthAfter draft.opened.length words = some depth) (previous : Option String) :
    ((tokensAfter previous words).foldl take draft).opened.length = depth ∧
      (tokensAfter previous words).foldl take draft.bracketed =
        ((tokensAfter previous words).foldl take draft).bracketed := by
  induction words generalizing previous draft with
  | nil => exact ⟨Option.some.inj hdepth, rfl⟩
  | cons word rest ih =>
      by_cases hopening : word = "("
      · subst hopening
        rw [tokensAfter_opening]
        exact ih (draft.take .opening) hdepth (some "(")
      by_cases hclosing : word = ")"
      · subst hclosing
        obtain ⟨outer, opened, waiting⟩ := draft
        cases opened with
        | nil => cases hdepth
        | cons group opened =>
            rw [tokensAfter_closing, List.foldl_cons, List.foldl_cons,
              take_bracketed _ _ fun _ => List.cons_ne_nil group opened]
            refine ih _ ?_ (some ")")
            rw [take, length_opened_close]
            exact hdepth
      have hrest : depthAfter draft.opened.length rest = some depth := by
        rwa [depthAfter_other hopening hclosing] at hdepth
      cases hoperator : Joiner.ofWord? word with
      | none =>
          have htaken : draft.bracketed.take (.term (.ofWord word)) =
              (draft.take (.term (.ofWord word))).bracketed :=
            draft.take_bracketed _ fun hsame => Token.noConfusion hsame
          rw [IsMatch.tokensAfter_cons ⟨hoperator, hopening, hclosing⟩, List.foldl_cons,
            List.foldl_cons, htaken]
          refine ih _ ?_ (some word)
          rw [take, length_opened_add]
          exact hrest
      | some joiner =>
          rw [tokensAfter_operator hoperator]
          split
          · exact ih (draft.take (.join joiner)) hrest (some word)
          · exact ih draft hrest (some word)

theorem waiting_add (clause : Clause) : (draft.add clause).waiting = draft.waiting := by
  obtain ⟨outer, opened, waiting⟩ := draft
  cases opened with
  | nil | cons => rfl

theorem waiting_close : draft.close.waiting = draft.waiting := by
  obtain ⟨outer, opened, waiting⟩ := draft
  cases opened with
  | nil => rfl
  | cons group opened => exact waiting_add ⟨outer, opened, waiting⟩ (.group group.1 group.2)

theorem waiting_foldl (tokens : List Token) :
    (tokens.foldl take draft).waiting = waitingAfter draft.waiting tokens := by
  induction tokens generalizing draft with
  | nil => rfl
  | cons token rest ih =>
      rw [List.foldl_cons, ih]
      cases token with
      | join | opening => rfl
      | closing => rw [take, waiting_close, waitingAfter]
      | term term => rw [take, waiting_add, waitingAfter]

end Draft

section Groups

variable {word : String} {words : List String}

/-- What comes behind a first match does not depend on what stands before. -/
theorem IsMatch.grouped_cons (hmatch : IsMatch word) (rest : List String) :
    grouped (tokens (word :: rest)) =
      .test .and (Term.ofWord word).condition ::
        ((tokensAfter (some word) rest).foldl Draft.take {}).finish := by
  rw [grouped, tokens, hmatch.tokensAfter_cons, List.foldl_cons]
  have hfirst : Draft.take {} (.term (.ofWord word)) =
      Draft.behind {} [.test .and (Term.ofWord word).condition] := rfl
  rw [hfirst, Draft.foldl_behind, Draft.finish_behind]
  rfl

/-- The words in brackets make up one group. The operator that waits behind
them joins what follows to it. -/
theorem grouped_bracketed (hbalanced : Balanced words) (hmatch : IsMatch word)
    (rest : List String) :
    grouped (tokens ("(" :: (words ++ ")" :: word :: rest))) =
      .group .and (grouped (tokens words)) ::
        .test ((waitingAfter none (tokens words)).getD .and) (Term.ofWord word).condition ::
          ((tokensAfter (some word) rest).foldl Draft.take {}).finish := by
  obtain ⟨hclosed, hinside⟩ := Draft.foldl_bracketed {} hbalanced none
  have hwaiting : ((tokens words).foldl Draft.take {}).waiting = waitingAfter none (tokens words) :=
    Draft.waiting_foldl {} (tokens words)
  rw [← tokens] at hclosed hinside
  have hgrouped : grouped (tokens words) = ((tokens words).foldl Draft.take {}).outer := by
    rw [grouped, Draft.finish, hclosed]
    rfl
  have hopened : Draft.take {} .opening = Draft.bracketed {} := rfl
  have hfirst : tokens (word :: rest) = .term (.ofWord word) :: tokensAfter (some word) rest :=
    hmatch.tokensAfter_cons none rest
  rw [hgrouped, ← hwaiting, grouped, tokens_bracketed hmatch, List.foldl_cons, List.foldl_append,
    List.foldl_cons, hopened, hinside, hfirst, List.foldl_cons]
  generalize (tokens words).foldl Draft.take {} = inner at hclosed
  -- Behind the closing bracket the group stands outside, and the operator still waits.
  have hbehind : (inner.bracketed.take .closing).take (.term (.ofWord word)) =
      Draft.behind {} [.group .and inner.outer,
        .test (inner.waiting.getD .and) (Term.ofWord word).condition] := by
    obtain ⟨outer, opened, waiting⟩ := inner
    obtain rfl : opened = [] := List.length_eq_zero_iff.mp hclosed
    rfl
  rw [hbehind, Draft.foldl_behind, Draft.finish_behind]
  rfl

/-- With a match among the words something is left of their group. -/
theorem IsMatch.clauses_ne_nil (hmatch : IsMatch word) (hword : word ∈ words) :
    clauses (tokens words) ≠ [] := by
  intro hnone
  have hasked : asked (tokens words) = [] := by
    rw [← conditionsOf_clauses, hnone]
    rfl
  exact asked_eq_nil.mp hasked _ (hmatch.term_mem hword none)

end Groups

/-- No operator stands next to another. -/
def Spaced (words : List String) : Prop :=
  words.IsChain fun word next => Joiner.ofWord? word = none ∨ Joiner.ofWord? next = none

/-- An operator that is kept finds the operand behind it to join, unless what
is behind it is an operator too. -/
theorem Spaced.waitingAfter {words : List String} (hspaced : Spaced words)
    (previous : Option String) : waitingAfter none (tokensAfter previous words) = none := by
  induction words generalizing previous with
  | nil => rfl
  | cons word rest ih =>
      have hrest := ih hspaced.tail (some word)
      cases hoperator : Joiner.ofWord? word with
      | none =>
          have hother := Token.ofOperand_ne_join word
          rw [tokensAfter_operand hoperator]
          cases htoken : Token.ofOperand word with
          | join joiner => exact absurd htoken (hother joiner)
          | opening | closing | term => exact hrest
      | some joiner =>
          rw [tokensAfter_operator hoperator]
          split
          next hkept =>
            cases rest with
            | nil => simp at hkept
            | cons next more =>
                have hnext : Joiner.ofWord? next = none :=
                  (List.isChain_cons_cons.mp hspaced).1.resolve_left (by simp [hoperator])
                have hopen : next ≠ ")" := by
                  rintro rfl
                  simp [startsOperand_closing] at hkept
                by_cases hopening : next = "("
                · subst hopening
                  exact hrest
                · have hmatch : IsMatch next := ⟨hnext, hopening, hopen⟩
                  rw [hmatch.tokensAfter_cons] at hrest ⊢
                  exact hrest
          next => exact hrest

/-- Words with balanced brackets that stand in brackets themselves compile to
their own predicate in brackets, and the operator that is left waiting at their
end joins it to what follows. There is none unless two of the words are
neighbouring operators. -/
theorem compileTokens_bracketed {words : List String} {word : String}
    (hbalanced : Balanced words) (hinner : ∃ inner ∈ words, IsMatch inner) (hmatch : IsMatch word)
    (rest : List String) :
    compileTokens (tokens ("(" :: (words ++ ")" :: word :: rest))) =
        { sql := "(" ++ (compileTokens (tokens words)).sql ++ ")" ++
            ((waitingAfter none (tokens words)).getD .and).sql ++
              (compileTokens (tokens (word :: rest))).sql
          bounds := (compileTokens (tokens words)).bounds ++
            (compileTokens (tokens (word :: rest))).bounds } ∧
      (Spaced words → waitingAfter none (tokens words) = none) := by
  obtain ⟨inner, hmem, hinner⟩ := hinner
  have hsome : (nonempty (grouped (tokens words))).isEmpty = false :=
    List.isEmpty_eq_false_iff.mpr (hinner.clauses_ne_nil hmem)
  refine ⟨?_, fun hspaced => hspaced.waitingAfter none⟩
  simp only [compileTokens, predicateOf, clauses, grouped_bracketed hbalanced hmatch,
    hmatch.grouped_cons, nonempty, Clause.kept?, hsome]
  simp [sqlOf, sqlJoined, Clause.sql, boundsOf, Clause.bounds, String.append_assoc, Clause.joiner]

theorem compileTokens_bracketed_misplaced :
    Balanced ["OR", "(", "a", "AND", ")", "OR", "b"] ∧ IsMatch "b" ∧ IsMatch "c" ∧
      compileTokens (tokens ["(", "OR", "(", "a", "AND", ")", "OR", "b", ")", "c", "AND"]) =
        { sql := "(" ++ (compileTokens (tokens ["OR", "(", "a", "AND", ")", "OR", "b"])).sql ++
            ") AND " ++ (compileTokens (tokens ["c", "AND"])).sql
          bounds := (compileTokens (tokens ["OR", "(", "a", "AND", ")", "OR", "b"])).bounds ++
            (compileTokens (tokens ["c", "AND"])).bounds } := by
  have hbalanced : Balanced ["OR", "(", "a", "AND", ")", "OR", "b"] := by
    rw [Balanced]
    decide
  have hb : IsMatch "b" := ⟨by decide, by decide, by decide⟩
  have hc : IsMatch "c" := ⟨by decide, by decide, by decide⟩
  have hwaiting : waitingAfter none (tokens ["OR", "(", "a", "AND", ")", "OR", "b"]) = none := by
    decide
  obtain ⟨heq, -⟩ := compileTokens_bracketed hbalanced ⟨"b", by decide, hb⟩ hc ["AND"]
  refine ⟨hbalanced, hb, hc, heq.trans ?_⟩
  rw [hwaiting]
  simp [Joiner.sql, String.append_assoc]

/-- The OR has the second operator behind it, so it is kept, and the second is
not. It then joins the group to what follows. -/
theorem operator_leaves_group :
    Balanced ["a", "OR", "AND"] ∧ IsMatch "a" ∧ IsMatch "b" ∧
      (compileTokens (tokens ["(", "a", "OR", "AND", ")", "b"])).sql ≠
        "(" ++ (compileTokens (tokens ["a", "OR", "AND"])).sql ++ ") AND " ++
          (compileTokens (tokens ["b"])).sql := by
  refine ⟨?_, ⟨by decide, by decide, by decide⟩, ⟨by decide, by decide, by decide⟩, by decide⟩
  rw [Balanced]
  decide

end MediaCatalog.Query
