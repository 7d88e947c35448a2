import MediaCatalog.Query.Term

/-!
Tokens: a query's words by their part in it. An operator that has nothing to join
where it stands is left out, and what is no operator or bracket is a term.
-/

namespace MediaCatalog.Query

inductive Joiner where
  | and
  | or
deriving DecidableEq, Repr

inductive Token where
  | join (joiner : Joiner)
  | opening
  | closing
  | term (term : Term)
deriving DecidableEq, Repr

def Joiner.ofWord? (word : String) : Option Joiner :=
  if word = "AND" then some .and
  else if word = "OR" then some .or
  else none

/-- Whether an operator may follow this word. -/
def endsOperand (word : String) : Bool :=
  (Joiner.ofWord? word).isNone && word != "("

/-- Whether an operator may stand before this word. -/
def startsOperand (word : String) : Bool :=
  word != ")"

/-- The tokens of a query's words, where `previous` is the word in front. -/
def tokensAfter (previous : Option String) : List String → List Token
  | [] => []
  | word :: rest =>
      let others := tokensAfter (some word) rest
      match Joiner.ofWord? word with
      | some joiner =>
          if previous.any endsOperand && rest.head?.any startsOperand then
            .join joiner :: others
          else
            others
      | none =>
          if word = "(" then .opening :: others
          else if word = ")" then .closing :: others
          else .term (.ofWord word) :: others

def tokens (words : List String) : List Token :=
  tokensAfter none words

end MediaCatalog.Query
