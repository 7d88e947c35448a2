import MediaCatalog.Query.Compiled

/-!
How deep the expressions of a compiled query nest. A value or a bare name has
depth one and a column named with its table two; what is made of expressions is
one deeper than the deepest of them, and so is an IN than the deepest expression
inside its selection. A sequence nests from its left end.

Inside a selection the depth of the condition around it counts on.
-/

namespace MediaCatalog.Query

def valueDepth : Nat := 1
def columnDepth : Nat := 2

/-- The depth of what is made of expressions of the given depths. -/
def deeper (a b : Nat) : Nat :=
  max a b + 1

/-- The deepest expression inside the selections that tests are made of: two
comparisons joined, or a comparison of a count. -/
def selectionDepth : Nat := 3

namespace Test

def membershipDepth : Nat :=
  deeper columnDepth selectionDepth

def depth : Test → Nat
  | .pathLike _ => deeper columnDepth valueDepth
  | .tagLike _ | .tagsAbove _ | .dupesAbove _ => membershipDepth
  | .tagsBelow _ => membershipDepth + 1
  | .pathOrTagLike _ => deeper (deeper columnDepth valueDepth) membershipDepth

def selects : Test → Bool
  | .pathLike _ => false
  | .tagLike _ | .pathOrTagLike _ | .tagsBelow _ | .tagsAbove _ | .dupesAbove _ => true

end Test

def Condition.depth (condition : Condition) : Nat :=
  if condition.negated then condition.test.depth + 1 else condition.test.depth

/-- The depth of a disjunction of what stands before, if anything does, and a
last part. -/
def disjoinedDepth : Option Nat → Nat → Nat
  | none, last => last
  | some before, last => deeper before last

mutual

def Clause.depth : Clause → Nat
  | .test _ condition => condition.depth
  | .group _ clauses => depthOf clauses

def depthOf : List Clause → Nat
  | [] => 0
  | clause :: rest => depthWith none clause.depth rest

/-- The depth of a sequence whose first clauses have the depth `before` up to
the last OR and the depth `run` since then. -/
def depthWith (before : Option Nat) (run : Nat) : List Clause → Nat
  | [] => disjoinedDepth before run
  | clause :: rest =>
      match clause.joiner with
      | .and => depthWith before (deeper run clause.depth) rest
      | .or => depthWith (some (disjoinedDepth before run)) clause.depth rest

end

mutual

def Clause.selects : Clause → Bool
  | .test _ condition => condition.test.selects
  | .group _ clauses => anySelects clauses

def anySelects : List Clause → Bool
  | [] => false
  | clause :: rest => clause.selects || anySelects rest

end

namespace Compiled

/-- The depth of the comparison that every selection of a query begins with. -/
def liveDepth : Nat :=
  deeper columnDepth valueDepth

def writtenDepth (query : Compiled) : Nat :=
  match query.clauses with
  | [] => liveDepth
  | clauses => deeper liveDepth (depthOf clauses)

/-- The depth of the condition once that of the join is added to it. -/
def joinedDepth (query : Compiled) : Nat :=
  query.writtenDepth + 1

/-- How far down the query reaches, the selections of its tests included, in
a statement that has the depth `around` about it. -/
def reach (query : Compiled) (around : Nat) : Nat :=
  around + query.joinedDepth + if anySelects query.clauses then selectionDepth else 0

/-- The depth of a condition on tags whose items a query selects: that they
are live, and in the selection. -/
def tagsDepth (query : Compiled) : Nat :=
  deeper liveDepth (deeper columnDepth query.writtenDepth)

end Compiled

end MediaCatalog.Query
