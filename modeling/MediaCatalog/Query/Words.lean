import MediaCatalog.Text.Blank

/-!
The words of a query. Blanks separate words, except inside quotes and behind an
escaping backslash. An opening bracket at the start of a word and a closing
bracket at its end stand alone. Quotes and backslashes stay in the words.

Scanning ends as soon as a query's greatest number of words is complete.
-/

namespace MediaCatalog.Query

open Text

def defaultMaxWords : Nat := 10

/-- What the scan knows in front of a character: whether a backslash escapes
it, the open quote if any, and whether it starts the query or follows a
blank. A blank inside quotes counts here as well; an escaped character leaves
this as it was. -/
structure Scan where
  escaped : Bool := false
  quote : Option Char := none
  afterBlank : Bool := true
deriving DecidableEq, Repr

inductive Role where
  /-- Follows a backslash and belongs to the word, whatever it is. -/
  | escaped
  | ordinary
  /-- Ends the word and belongs to none. -/
  | separator
  /-- Ends the word and is the next one by itself. -/
  | bracket
deriving DecidableEq, Repr

def isQuote (c : Char) : Bool :=
  c == '"' || c == '\''

/-- The role of `c`, where `next` is the character behind it. -/
def Scan.role (scan : Scan) (c : Char) (next : Option Char) : Role :=
  if scan.escaped then .escaped
  else if scan.quote.isSome then .ordinary
  else if c == '(' && scan.afterBlank then .bracket
  else if c == ')' && next.all isBlank then .bracket
  else if isBlank c then .separator
  else .ordinary

def Scan.next (scan : Scan) (c : Char) : Scan :=
  if scan.escaped then
    { scan with escaped := false }
  else
    { escaped := c == '\\'
      quote :=
        if isQuote c then
          match scan.quote with
          | none => some c
          | some q => if q = c then none else some q
        else scan.quote
      afterBlank := isBlank c }

/-- The word with the given characters, last character first, unless there
are none. -/
def completed (part : List Char) : List String :=
  if part.isEmpty then [] else [.ofList part.reverse]

/-- The words of the rest of a query. `room` more words may follow, and `part`
holds the characters of the word in progress, last character first. -/
def wordsFrom (room : Nat) (scan : Scan) (part : List Char) : List Char → List String
  | [] => completed part
  | c :: rest =>
      match scan.role c rest.head? with
      | .escaped => wordsFrom room (scan.next c) (c :: part) rest
      | .ordinary =>
          if room = 0 then []
          else wordsFrom room (scan.next c) (c :: part) rest
      | .separator =>
          let room := room - (completed part).length
          completed part ++
            if room = 0 then [] else wordsFrom room (scan.next c) [] rest
      | .bracket =>
          let room := room - (completed part).length
          completed part ++
            if room = 0 then []
            else .singleton c :: wordsFrom (room - 1) (scan.next c) [] rest

def words (query : String) (maxWords : Nat) : List String :=
  wordsFrom maxWords {} [] query.toList

end MediaCatalog.Query
