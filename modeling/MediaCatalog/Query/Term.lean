import MediaCatalog.Query.Pattern
import MediaCatalog.Query.Quotes
import MediaCatalog.Text.Caseless
import MediaCatalog.Text.Numeral

/-!
Terms: the words of a query that say something about a media item. A lead such as
a t and an equals sign, in either case, tells what the term compares with.
-/

namespace MediaCatalog.Query

open Text

inductive TermKind where
  | fileContains
  | fileNotContains
  | tagContains
  | tagNotContains
  | tagExact
  | tagNotExact
  /-- There are fewer tags than the operand says. -/
  | tagCountBelow
  /-- There are more tags than the operand says. -/
  | tagCountAbove
  /-- The content has more further copies than the operand says. -/
  | dupesAbove
  | fileOrTag
deriving DecidableEq, Repr

/-- The leads in small letters. No lead begins another, so that their order
does not matter. -/
def leads : List (String × TermKind) :=
  [("f~", .fileContains), ("-f~", .fileNotContains), ("t~", .tagContains),
   ("t=", .tagExact), ("-t~", .tagNotContains), ("-t=", .tagNotExact),
   ("t<", .tagCountBelow), ("t>", .tagCountAbove), ("dupes>", .dupesAbove)]

structure Term where
  kind : TermKind
  /-- What follows the lead as it was typed, quotes and escapes included. -/
  operand : String
deriving DecidableEq, Repr

def Term.ofWord (word : String) : Term :=
  let led := leads.findSome? fun lead =>
    (afterCaseless lead.1.toList word.toList).map fun rest =>
      ({ kind := lead.2, operand := .ofList rest } : Term)
  led.getD { kind := .fileOrTag, operand := word }

/-- The operand as a pattern, its quotes removed and its ends closed. -/
def Term.literal (term : Term) : String :=
  escapeLike (unquote term.operand)

/-- The operand as a number. An equals sign may stand in front; an operand
that is no number of 64 bits counts as one. -/
def Term.count (term : Term) : Int :=
  let digits := match term.operand.toList with
    | '=' :: digits => digits
    | digits => digits
  (signed64? digits).getD 1

end MediaCatalog.Query
