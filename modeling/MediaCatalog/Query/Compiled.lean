import MediaCatalog.Query.Clause
import MediaCatalog.Query.Sort

/-!
Compiled queries. The full statement selects the identifiers of the live files
that meet the predicate.
-/

namespace MediaCatalog.Query

def compileTokens (input : List Token) : Predicate :=
  predicateOf (clauses input)

structure Compiled where
  /-- The words that were kept. -/
  words : List String
  clauses : List Clause

def compileWithin (query : String) (maxWords : Nat) : Compiled :=
  let kept := words query maxWords
  { words := kept, clauses := clauses (tokens kept) }

def compile (query : String) : Compiled :=
  compileWithin query defaultMaxWords

namespace Compiled

def predicate (query : Compiled) : Predicate :=
  predicateOf query.clauses

/-- The identifiers that meet the predicate, in no order. -/
def selection (query : Compiled) : String :=
  "SELECT DISTINCT h.id FROM files f " ++
  "INNER JOIN hashes h ON f.hash = h.hash " ++
  "WHERE f.missing = 0" ++
  (if query.predicate.isEmpty then "" else " AND (" ++ query.predicate.sql ++ ")")

def statement (query : Compiled) (orders : List SortOrder) : String :=
  query.selection ++ " ORDER BY " ++
    ", ".intercalate ((effectiveOrders orders).map SortOrder.sql)

end Compiled

end MediaCatalog.Query
