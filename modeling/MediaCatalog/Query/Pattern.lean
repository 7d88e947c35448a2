/-!
From the text of a query to patterns of the LIKE comparison. In a query only the
star is a wildcard. Patterns that look for a part have open ends, unless a
circumflex or a dollar sign ties them to the start or the end.
-/

namespace MediaCatalog.Query

def escapeLikeChar : Char → List Char
  | '\\' => ['\\', '\\']
  | '%' => ['\\', '%']
  | '_' => ['\\', '_']
  | '*' => ['%']
  | c => [c]

/-- The pattern that takes every character but the star literally. -/
def escapeLike (text : String) : String :=
  .ofList (text.toList.flatMap escapeLikeChar)

def openFront : List Char → List Char
  | '^' :: pattern => pattern
  | pattern => '%' :: pattern

def openBack (pattern : List Char) : List Char :=
  if pattern.getLast? = some '$' then pattern.dropLast else pattern ++ ['%']

/-- The pattern with its ends opened where they are not tied. -/
def openEnds (pattern : String) : String :=
  .ofList (openBack (openFront pattern.toList))

def openBoth (pattern : String) : String :=
  "%" ++ pattern ++ "%"

end MediaCatalog.Query
