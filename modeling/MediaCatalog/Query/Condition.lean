import MediaCatalog.Query.Token

/-!
Conditions: what the terms of a query ask of a recorded file, as fragments of SQL
about its record `f` and the row `h` that gives the identifier of its content.
The values stand beside the fragment in the order of its placeholders.
-/

namespace MediaCatalog.Query

inductive Bound where
  | text (s : String)
  | integer (n : Int)
deriving DecidableEq, Repr

inductive Test where
  | pathLike (pattern : String)
  | tagLike (pattern : String)
  | pathOrTagLike (pattern : String)
  /-- Not among the items with `n` tags or more. -/
  | tagsBelow (n : Int)
  /-- Among the items with more than `n` tags. -/
  | tagsAbove (n : Int)
  /-- Among the contents with more than `n + 1` live files. -/
  | dupesAbove (n : Int)
deriving DecidableEq, Repr

structure Condition where
  negated : Bool
  test : Test
deriving DecidableEq, Repr

def Test.sql : Test → String
  | .pathLike _ => "(f.path LIKE ? ESCAPE ?)"
  | .tagLike _ =>
      "(h.id IN (SELECT file_id FROM tags WHERE tag LIKE ? ESCAPE ? AND deleted = 0))"
  | .pathOrTagLike _ =>
      "(f.path LIKE ? ESCAPE ? " ++
      "OR h.id IN (SELECT file_id FROM tags WHERE tag LIKE ? ESCAPE ? AND deleted = 0))"
  | .tagsBelow _ =>
      "(h.id NOT IN (SELECT file_id FROM tags WHERE deleted = 0 " ++
      "GROUP BY file_id HAVING COUNT(DISTINCT tag) >= ?))"
  | .tagsAbove _ =>
      "(h.id IN (SELECT file_id FROM tags WHERE deleted = 0 " ++
      "GROUP BY file_id HAVING COUNT(DISTINCT tag) > ?))"
  | .dupesAbove _ =>
      "(f.hash IN (SELECT hash FROM files WHERE missing = 0 " ++
      "GROUP BY hash HAVING COUNT(hash) > ? + 1))"

def likeBounds (pattern : String) : List Bound :=
  [.text pattern, .text "\\"]

def Test.bounds : Test → List Bound
  | .pathLike pattern | .tagLike pattern => likeBounds pattern
  | .pathOrTagLike pattern => likeBounds pattern ++ likeBounds pattern
  | .tagsBelow n | .tagsAbove n | .dupesAbove n => [.integer n]

def Condition.sql (condition : Condition) : String :=
  if condition.negated then "NOT " ++ condition.test.sql else condition.test.sql

def Condition.bounds (condition : Condition) : List Bound :=
  condition.test.bounds

/-- What a term asks. The contains kinds heed ties at the pattern's ends; the
exact kinds and the words without a lead do not. -/
def Term.condition (term : Term) : Condition :=
  match term.kind with
  | .fileContains => ⟨false, .pathLike (openEnds term.literal)⟩
  | .fileNotContains => ⟨true, .pathLike (openEnds term.literal)⟩
  | .tagContains => ⟨false, .tagLike (openEnds term.literal)⟩
  | .tagNotContains => ⟨true, .tagLike (openEnds term.literal)⟩
  | .tagExact => ⟨false, .tagLike term.literal⟩
  | .tagNotExact => ⟨true, .tagLike term.literal⟩
  | .tagCountBelow => ⟨false, .tagsBelow term.count⟩
  | .tagCountAbove => ⟨false, .tagsAbove term.count⟩
  | .dupesAbove => ⟨false, .dupesAbove term.count⟩
  | .fileOrTag => ⟨false, .pathOrTagLike (openBoth term.literal)⟩

end MediaCatalog.Query
