import MediaCatalog.Proofs.Query.Bracketing

/-!
Which operators are left among the tokens. An operator is kept or left out by
the words beside it, so there is always an operand right in front of it. The
word behind it may be another operator, which is left out in its turn, and then
it stands before whatever comes next. It joins nothing where that is a closing
bracket or the end of the query, and only there.
-/

namespace MediaCatalog.Query

/-- Whether an operand ends with the token. -/
def Token.EndsOperand : Token → Prop
  | .term _ | .closing => True
  | .join _ | .opening => False

/-- Whether an operand starts with the token. -/
def Token.StartsOperand : Token → Prop
  | .term _ | .opening => True
  | .join _ | .closing => False

/-- Each operator among the tokens stands between two operands. -/
def Joining (tokens : List Token) : Prop :=
  ∀ before joiner after, tokens = before ++ .join joiner :: after →
    (∃ token, before.getLast? = some token ∧ token.EndsOperand) ∧
      ∃ token, after.head? = some token ∧ token.StartsOperand

def IsOperator (word : String) : Prop :=
  (Joiner.ofWord? word).isSome = true

/-- Behind an operand stand two operators or more, and behind these nothing or
a closing bracket. -/
def Stranded (words : List String) : Prop :=
  ∃ front first second others rest,
    words = front ++ first :: second :: (others ++ rest) ∧
      front.getLast?.any endsOperand = true ∧
      (∀ word ∈ first :: second :: others, IsOperator word) ∧
      (rest = [] ∨ rest.head? = some ")")

section Neighbours

variable {previous : Option String} {word : String} {words rest : List String} {joiner : Joiner}
  {before after : List Token}

theorem IsOperator.not_endsOperand (hoperator : IsOperator word) :
    (some word).any endsOperand = false := by
  rw [Option.any_some, endsOperand, Option.isNone_eq_false_iff.mpr hoperator, Bool.false_and]

theorem IsOperator.startsOperand (hoperator : IsOperator word) : startsOperand word = true := by
  rw [Query.startsOperand, bne_iff_ne]
  rintro rfl
  cases hoperator

theorem getLast?_cons_or (front : List String) :
    (word :: front).getLast?.or previous = front.getLast?.or (some word) := by
  rw [List.getLast?_cons]
  cases front.getLast? with
  | none | some => rfl

theorem ofOperand_endsOperand (hends : endsOperand word = true) :
    (Token.ofOperand word).EndsOperand := by
  have hopening : word ≠ "(" := by
    rintro rfl
    cases hends
  unfold Token.ofOperand
  rw [if_neg hopening]
  split <;> trivial

theorem ofOperand_startsOperand : (Token.ofOperand word).StartsOperand ↔ word ≠ ")" := by
  unfold Token.ofOperand
  split
  case isTrue hopening =>
    subst hopening
    exact iff_of_true trivial (by decide)
  case isFalse =>
    split
    case isTrue hclosing => exact iff_of_false not_false fun hother => hother hclosing
    case isFalse hclosing => exact iff_of_true trivial hclosing

/-- In front of an operator that is kept an operand ends. -/
theorem endsOperand_before
    (hsplit : tokensAfter previous words = before ++ .join joiner :: after) :
    (∃ token, before.getLast? = some token ∧ token.EndsOperand) ∨
      before = [] ∧ previous.any endsOperand = true := by
  induction words generalizing previous before with
  | nil => simp [tokensAfter] at hsplit
  | cons word rest ih =>
      cases hoperator : Joiner.ofWord? word with
      | none =>
          rw [tokensAfter_operand hoperator] at hsplit
          cases before with
          | nil => exact absurd (List.cons.inj hsplit).1 (Token.ofOperand_ne_join word joiner)
          | cons token before =>
              obtain ⟨rfl, hrest⟩ := List.cons.inj hsplit
              left
              rcases ih hrest with ⟨last, hlast, hends⟩ | ⟨rfl, hends⟩
              · exact ⟨last, by simp [List.getLast?_cons, hlast], hends⟩
              · exact ⟨_, rfl, ofOperand_endsOperand hends⟩
      | some found =>
          -- No operand ends with the operator itself, so one ends within `before`.
          have hword : (some word).any endsOperand = false :=
            IsOperator.not_endsOperand (Option.isSome_of_eq_some hoperator)
          have hlater {others : List Token}
              (hothers : tokensAfter (some word) rest = others ++ .join joiner :: after) :
              ∃ token, others.getLast? = some token ∧ token.EndsOperand :=
            (ih hothers).resolve_right fun h => Bool.false_ne_true (hword.symm.trans h.2)
          rw [tokensAfter_operator hoperator] at hsplit
          split at hsplit
          next hkept =>
            cases before with
            | nil => exact .inr ⟨rfl, (Bool.and_eq_true_iff.mp hkept).1⟩
            | cons token before =>
                obtain ⟨-, hrest⟩ := List.cons.inj hsplit
                obtain ⟨last, hlast, hends⟩ := hlater hrest
                exact .inl ⟨last, by simp [List.getLast?_cons, hlast], hends⟩
          next => exact .inl (hlater hsplit)

/-- An operator that is kept is one of the words, with neighbours that let it
be kept. -/
theorem word_of_join (hsplit : tokensAfter previous words = before ++ .join joiner :: after) :
    ∃ front word rest, words = front ++ word :: rest ∧ IsOperator word ∧
      (front.getLast?.or previous).any endsOperand = true ∧
      rest.head?.any startsOperand = true ∧ after = tokensAfter (some word) rest := by
  induction words generalizing previous before with
  | nil => simp [tokensAfter] at hsplit
  | cons word words ih =>
      have hlater {others : List Token}
          (hothers : tokensAfter (some word) words = others ++ .join joiner :: after) :
          ∃ front next rest, word :: words = front ++ next :: rest ∧ IsOperator next ∧
            (front.getLast?.or previous).any endsOperand = true ∧
            rest.head?.any startsOperand = true ∧ after = tokensAfter (some next) rest := by
        obtain ⟨front, next, rest, rfl, hnext, hends, hkept⟩ := ih hothers
        rw [← getLast?_cons_or] at hends
        exact ⟨word :: front, next, rest, rfl, hnext, hends, hkept⟩
      cases hoperator : Joiner.ofWord? word with
      | none =>
          rw [tokensAfter_operand hoperator] at hsplit
          cases before with
          | nil => exact absurd (List.cons.inj hsplit).1 (Token.ofOperand_ne_join word joiner)
          | cons token before => exact hlater (List.cons.inj hsplit).2
      | some found =>
          rw [tokensAfter_operator hoperator] at hsplit
          split at hsplit
          next hkept =>
            obtain ⟨hends, hstarts⟩ := Bool.and_eq_true_iff.mp hkept
            cases before with
            | nil =>
                exact ⟨[], word, words, rfl, Option.isSome_of_eq_some hoperator, hends, hstarts,
                  (List.cons.inj hsplit).2.symm⟩
            | cons token before => exact hlater (List.cons.inj hsplit).2
          next => exact hlater hsplit

/-- An operator with such neighbours is kept. -/
theorem join_of_word {front : List String} (hoperator : IsOperator word)
    (hends : (front.getLast?.or previous).any endsOperand = true)
    (hstarts : rest.head?.any startsOperand = true) :
    ∃ before joiner, tokensAfter previous (front ++ word :: rest) =
      before ++ .join joiner :: tokensAfter (some word) rest := by
  induction front generalizing previous with
  | nil =>
      obtain ⟨joiner, hjoiner⟩ := Option.isSome_iff_exists.mp hoperator
      refine ⟨[], joiner, ?_⟩
      rw [List.nil_append, tokensAfter_operator hjoiner, if_pos]
      · rfl
      · exact Bool.and_eq_true_iff.mpr ⟨hends, hstarts⟩
  | cons first front ih =>
      rw [getLast?_cons_or] at hends
      obtain ⟨before, joiner, hsplit⟩ := ih hends
      rw [List.cons_append]
      cases hfirst : Joiner.ofWord? first with
      | none =>
          exact ⟨_ :: before, joiner, by rw [tokensAfter_operand hfirst, hsplit]; rfl⟩
      | some found =>
          rw [tokensAfter_operator hfirst, hsplit]
          split
          · exact ⟨_ :: before, joiner, rfl⟩
          · exact ⟨before, joiner, rfl⟩

/-- Operators that have no operand in front are left out, one after another. -/
theorem head?_behind {operators : List String} (hends : previous.any endsOperand = false)
    (hoperators : ∀ word ∈ operators, IsOperator word)
    (hrest : ∀ word, rest.head? = some word → ¬ IsOperator word) :
    (tokensAfter previous (operators ++ rest)).head? = rest.head?.map .ofOperand := by
  induction operators generalizing previous with
  | nil =>
      cases rest with
      | nil => rfl
      | cons word rest =>
          have hoperator : Joiner.ofWord? word = none := by
            simpa [IsOperator] using hrest word rfl
          rw [List.nil_append, tokensAfter_operand hoperator]
          rfl
  | cons word operators ih =>
      have hword : IsOperator word := hoperators word List.mem_cons_self
      obtain ⟨joiner, hjoiner⟩ := Option.isSome_iff_exists.mp hword
      have hothers : ∀ word ∈ operators, IsOperator word :=
        fun word hmem => hoperators word (List.mem_cons_of_mem _ hmem)
      rw [List.cons_append, tokensAfter_operator hjoiner, hends, Bool.false_and, if_neg nofun]
      exact ih hword.not_endsOperand hothers

/-- Words begin with operators, possibly none, and then one that is none. -/
theorem operators_in_front (words : List String) :
    ∃ operators rest, words = operators ++ rest ∧ (∀ word ∈ operators, IsOperator word) ∧
      ∀ word, rest.head? = some word → ¬ IsOperator word := by
  induction words with
  | nil => exact ⟨[], [], rfl, nofun, nofun⟩
  | cons word words ih =>
      by_cases hword : IsOperator word
      · obtain ⟨operators, rest, rfl, hoperators, hrest⟩ := ih
        exact ⟨word :: operators, rest, rfl, List.forall_mem_cons.mpr ⟨hword, hoperators⟩, hrest⟩
      · refine ⟨[], word :: words, rfl, nofun, ?_⟩
        rintro first hfirst
        obtain rfl := Option.some.inj hfirst
        exact hword

end Neighbours

/-- An operator among the tokens has an operand in front of it. -/
theorem operand_before {words : List String} {before after : List Token} {joiner : Joiner}
    (hsplit : tokens words = before ++ .join joiner :: after) :
    ∃ token, before.getLast? = some token ∧ token.EndsOperand :=
  (endsOperand_before hsplit).resolve_right fun h => Bool.false_ne_true h.2

/-- The first of the stranded operators is kept, and the others are not. -/
theorem Stranded.not_joining {words : List String} (hstranded : Stranded words) :
    ¬ Joining (tokens words) := by
  obtain ⟨front, first, second, others, rest, rfl, hends, hoperators, hrest⟩ := hstranded
  obtain ⟨hfirst, hothers⟩ := List.forall_mem_cons.mp hoperators
  have hfront : (front.getLast?.or none).any endsOperand = true := by simpa using hends
  have hbehind : (second :: (others ++ rest)).head?.any startsOperand = true :=
    (hothers second List.mem_cons_self).startsOperand
  obtain ⟨before, joiner, hsplit⟩ := join_of_word hfirst hfront hbehind
  have hnext (word : String) (hword : rest.head? = some word) : ¬ IsOperator word := by
    rcases hrest with rfl | hclosing
    · cases hword
    · obtain rfl := Option.some.inj (hclosing.symm.trans hword)
      exact nofun
  intro hjoining
  obtain ⟨-, token, htoken, hstarts⟩ := hjoining _ _ _ hsplit
  rw [← List.cons_append, head?_behind hfirst.not_endsOperand hothers hnext] at htoken
  rcases hrest with rfl | hclosing
  · cases htoken
  · rw [hclosing] at htoken
    obtain rfl := Option.some.inj htoken
    exact ofOperand_startsOperand.mp hstarts rfl

/-- Behind an operator that is kept an operand starts, unless it is stranded. -/
theorem operand_behind {words : List String} (hnot : ¬ Stranded words) {before after : List Token}
    {joiner : Joiner} (hsplit : tokens words = before ++ .join joiner :: after) :
    ∃ token, after.head? = some token ∧ token.StartsOperand := by
  obtain ⟨front, word, words, rfl, hoperator, hends, hstarts, rfl⟩ := word_of_join hsplit
  obtain ⟨operators, rest, rfl, hoperators, hnext⟩ := operators_in_front words
  rw [head?_behind hoperator.not_endsOperand hoperators hnext]
  by_cases hclosed : rest = [] ∨ rest.head? = some ")"
  · -- A single operator with a closing bracket or nothing behind it is not kept.
    cases operators with
    | nil => rcases hclosed with rfl | hclosing <;> simp_all [startsOperand_closing]
    | cons second others =>
        refine absurd ⟨front, word, second, others, rest, rfl, by simpa using hends, ?_, hclosed⟩
          hnot
        exact List.forall_mem_cons.mpr ⟨hoperator, hoperators⟩
  · obtain ⟨hsome, hclosing⟩ := not_or.mp hclosed
    obtain ⟨next, more, rfl⟩ := List.exists_cons_of_ne_nil hsome
    refine ⟨.ofOperand next, rfl, ofOperand_startsOperand.mpr ?_⟩
    rintro rfl
    exact hclosing rfl

/-- An operator among the tokens has an operand in front of it. Each has one
behind it as well unless the words leave one stranded: two operators or more
behind an operand, with nothing to join behind them. -/
theorem tokens_joining (words : List String) :
    (∀ before joiner after, tokens words = before ++ .join joiner :: after →
      ∃ token, before.getLast? = some token ∧ token.EndsOperand) ∧
    (Joining (tokens words) ↔ ¬ Stranded words) := by
  refine ⟨fun before joiner after hsplit => operand_before hsplit, ?_, ?_⟩
  · intro hjoining hstranded
    exact hstranded.not_joining hjoining
  · intro hnot before joiner after hsplit
    exact ⟨operand_before hsplit, operand_behind hnot hsplit⟩

/-- The OR is kept, since a word follows that is no closing bracket. The AND is
not, and the OR is left with nothing to join. -/
theorem operator_stranded :
    tokens ["a", "OR", "AND"] = [.term (.ofWord "a"), .join .or] ∧
      ¬ Joining (tokens ["a", "OR", "AND"]) := by
  refine ⟨by decide, ?_⟩
  intro hjoining
  obtain ⟨-, token, htoken, -⟩ := hjoining [.term (.ofWord "a")] .or [] (by decide)
  cases htoken

end MediaCatalog.Query
