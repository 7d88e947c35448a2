import MediaCatalog.Query.Token

/-!
Queries written for a purpose: one that looks for a tag, and one that looks below
a path. A text with blanks or brackets is quoted so that it stays one word, in
double quotes unless the text has some.
-/

namespace MediaCatalog.Query

open Text

def needsQuotes (text : String) : Bool :=
  text.toList.any fun c => c == '(' || c == ')' || isBlank c

def quoted (text : String) : String :=
  if needsQuotes text then
    if text.toList.contains '"' then
      "'" ++ .ofList (text.toList.flatMap fun c => if c = '\'' then ['\\', '\''] else [c]) ++ "'"
    else
      "\"" ++ text ++ "\""
  else
    text

def singleTagSearch (tag : String) : String :=
  "t=" ++ quoted tag

/-- The query for a path and what is below it. -/
def pathSearch (path : String) : String :=
  "f~^" ++ quoted path

end MediaCatalog.Query
