import MediaCatalog.Query.Words

/-!
Quotes and escapes inside one word. A quote opens only where an unescaped one of
the same kind follows, and is an ordinary character elsewhere. A backslash is
dropped where it stands before the kind of quote that is open.
-/

namespace MediaCatalog.Query

/-- Whether `quote` occurs unescaped; `escaped` tells whether the first
character is escaped itself. -/
def closesLater (quote : Char) (escaped : Bool) : List Char → Bool
  | [] => false
  | c :: rest =>
      if escaped then closesLater quote false rest
      else if c = '\\' then closesLater quote true rest
      else c == quote || closesLater quote false rest

/-- Reads on with the given open quote, collecting the characters kept, last
character first. -/
def unquoteFrom (kept : List Char) (escaped : Bool) (quote : Option Char) :
    List Char → List Char
  | [] => kept.reverse
  | c :: rest =>
      if escaped then
        unquoteFrom (c :: kept) false quote rest
      else if c = '\\' then
        if quote.isSome && rest.head? == quote then
          unquoteFrom kept true quote rest
        else
          unquoteFrom (c :: kept) true quote rest
      else if isQuote c then
        if quote = some c then
          unquoteFrom kept false none rest
        else if quote.isNone && closesLater c false rest then
          unquoteFrom kept false (some c) rest
        else
          unquoteFrom (c :: kept) false quote rest
      else
        unquoteFrom (c :: kept) false quote rest

def unquote (word : String) : String :=
  .ofList (unquoteFrom [] false none word.toList)

end MediaCatalog.Query
