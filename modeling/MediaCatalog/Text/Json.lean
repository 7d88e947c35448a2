import MediaCatalog.Text.Hex

/-!
JSON output. Compact text has no blanks at all; laid-out text gives each item a
line of its own, two blanks further in, and leaves empty brackets closed.
-/

namespace MediaCatalog.Text

inductive Json where
  | text (s : String)
  | integer (n : Int)
  | truth (value : Bool)
  | array (items : List Json)
  | object (fields : List (String × Json))

namespace Json

/-- The character as it stands inside a text. Quotes, backslashes and controls
below space are escaped. -/
def escape : Char → List Char
  | '"' => ['\\', '"']
  | '\\' => ['\\', '\\']
  | '\x08' => ['\\', 'b']
  | '\x0c' => ['\\', 'f']
  | '\n' => ['\\', 'n']
  | '\r' => ['\\', 'r']
  | '\t' => ['\\', 't']
  | c =>
      if c < ' ' then
        ['\\', 'u', '0', '0'] ++ hexOfByte (.ofNat c.toNat)
      else [c]

def quote (s : String) : String :=
  "\"" ++ .ofList (s.toList.flatMap escape) ++ "\""

/-- Items between brackets, on lines of their own if a margin is given. -/
def bracket (opening closing : String) (margin : Option Nat) (items : List String) : String :=
  match items, margin with
  | [], _ => opening ++ closing
  | items, none => opening ++ ",".intercalate items ++ closing
  | items, some margin =>
      let indent := "\n" ++ "".pushn ' ' (margin + 2)
      opening ++ indent ++ ("," ++ indent).intercalate items ++
        "\n" ++ "".pushn ' ' margin ++ closing

def separator (margin : Option Nat) : String :=
  if margin.isSome then ": " else ":"

mutual

def render (margin : Option Nat) : Json → String
  | .text s => quote s
  | .integer n => toString n
  | .truth value => if value then "true" else "false"
  | .array items => bracket "[" "]" margin (renderItems (margin.map (· + 2)) items)
  | .object fields =>
      bracket "\x7b" "\x7d" margin (renderFields (margin.map (· + 2)) fields)

def renderItems (margin : Option Nat) : List Json → List String
  | [] => []
  | item :: rest => render margin item :: renderItems margin rest

def renderFields (margin : Option Nat) : List (String × Json) → List String
  | [] => []
  | (key, value) :: rest =>
      (quote key ++ separator margin ++ render margin value) :: renderFields margin rest

end

def compact (json : Json) : String :=
  json.render none

def laidOut (json : Json) : String :=
  json.render (some 0)

end Json

end MediaCatalog.Text
