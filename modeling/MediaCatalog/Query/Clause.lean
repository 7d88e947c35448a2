import MediaCatalog.Query.Condition

/-!
Clauses: a query as conditions and groups in sequence, each with the joiner that
ties it to what stands before. Within a sequence AND binds tighter than OR.

Any sequence of tokens has clauses. A closing bracket without an open group is
passed over, groups still open at the end are closed there, and a group without
conditions vanishes. The latest operator waits, across brackets that close, for
the next term or opening bracket; where none waits, AND joins.
-/

namespace MediaCatalog.Query

inductive Clause where
  | test (joiner : Joiner) (condition : Condition)
  | group (joiner : Joiner) (clauses : List Clause)
deriving Repr

def Clause.joiner : Clause → Joiner
  | .test joiner _ | .group joiner _ => joiner

/-- Clauses under construction: those outside every open group, the open
groups with their joiners, the innermost first, and the waiting operator. -/
structure Draft where
  outer : List Clause := []
  opened : List (Joiner × List Clause) := []
  waiting : Option Joiner := none

def Draft.add (draft : Draft) (clause : Clause) : Draft :=
  match draft.opened with
  | [] => { draft with outer := draft.outer ++ [clause] }
  | (joiner, clauses) :: opened =>
      { draft with opened := (joiner, clauses ++ [clause]) :: opened }

/-- Closes the innermost open group, if there is one. -/
def Draft.close (draft : Draft) : Draft :=
  match draft.opened with
  | [] => draft
  | (joiner, clauses) :: opened =>
      { draft with opened }.add (.group joiner clauses)

def Draft.take (draft : Draft) : Token → Draft
  | .join joiner => { draft with waiting := some joiner }
  | .opening =>
      { draft with
        opened := (draft.waiting.getD .and, []) :: draft.opened
        waiting := none }
  | .closing => draft.close
  | .term term =>
      { draft with waiting := none }.add
        (.test (draft.waiting.getD .and) term.condition)

/-- Closes every open group, each into the one around it. -/
def Draft.finish (draft : Draft) : List Clause :=
  (Nat.repeat Draft.close draft.opened.length draft).outer

/-- The groups that the tokens spell out, empty ones included. -/
def grouped (tokens : List Token) : List Clause :=
  (tokens.foldl Draft.take {}).finish

mutual

def Clause.kept? : Clause → Option Clause
  | .test joiner condition => some (.test joiner condition)
  | .group joiner clauses =>
      let clauses := nonempty clauses
      if clauses.isEmpty then none else some (.group joiner clauses)

/-- The clauses without groups that hold no condition. -/
def nonempty : List Clause → List Clause
  | [] => []
  | clause :: rest => clause.kept?.toList ++ nonempty rest

end

def clauses (tokens : List Token) : List Clause :=
  nonempty (grouped tokens)

def Joiner.sql : Joiner → String
  | .and => " AND "
  | .or => " OR "

mutual

def Clause.sql : Clause → String
  | .test _ condition => condition.sql
  | .group _ clauses => "(" ++ sqlOf clauses ++ ")"

/-- The clauses of one sequence, each behind its joiner but for the first. -/
def sqlOf : List Clause → String
  | [] => ""
  | clause :: rest => clause.sql ++ sqlJoined rest

def sqlJoined : List Clause → String
  | [] => ""
  | clause :: rest => clause.joiner.sql ++ clause.sql ++ sqlJoined rest

end

mutual

def Clause.bounds : Clause → List Bound
  | .test _ condition => condition.bounds
  | .group _ clauses => boundsOf clauses

def boundsOf : List Clause → List Bound
  | [] => []
  | clause :: rest => clause.bounds ++ boundsOf rest

end

/-- The value of a sequence whose first clauses, since the last OR, have the
value `soFar`, where the others have the given values behind their joiners. -/
def chain (soFar : Bool) : List (Joiner × Bool) → Bool
  | [] => soFar
  | (.and, value) :: rest => chain (soFar && value) rest
  | (.or, value) :: rest => soFar || chain value rest

mutual

def Clause.value (truth : Condition → Bool) : Clause → Bool
  | .test _ condition => truth condition
  | .group _ clauses => valueOf truth clauses

/-- The value of a sequence. No clause at all asks nothing. -/
def valueOf (truth : Condition → Bool) : List Clause → Bool
  | [] => true
  | clause :: rest => chain (clause.value truth) (joinedValues truth rest)

def joinedValues (truth : Condition → Bool) : List Clause → List (Joiner × Bool)
  | [] => []
  | clause :: rest => (clause.joiner, clause.value truth) :: joinedValues truth rest

end

structure Predicate where
  /-- Empty if the query asks nothing. -/
  sql : String
  bounds : List Bound
deriving DecidableEq, Repr

def Predicate.isEmpty (predicate : Predicate) : Bool :=
  predicate.sql.isEmpty

def predicateOf (clauses : List Clause) : Predicate :=
  { sql := sqlOf clauses, bounds := boundsOf clauses }

end MediaCatalog.Query
