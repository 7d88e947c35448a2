import MediaCatalog.Text.Caseless

/-!
Patterns of the LIKE comparison. A percent sign stands for any run of characters,
an underscore for any one character, and a backslash takes the character behind
it literally. Letters of ASCII match in either case. The comparison cannot tell
the code points FFFE and FFFF from the replacement character FFFD.
-/

namespace MediaCatalog.Text.Like

/-- The character that takes the next one literally. -/
def escape : Char := '\\'

inductive Piece where
  | anyRun
  | anyOne
  | literal (c : Char)
deriving DecidableEq, Repr

/-- The pieces of a pattern, collected behind `done`, last piece first. A
pattern that ends in its escape character has none. -/
def piecesFrom (done : List Piece) : List Char → Option (List Piece)
  | [] => some done.reverse
  | '%' :: pattern => piecesFrom (.anyRun :: done) pattern
  | '_' :: pattern => piecesFrom (.anyOne :: done) pattern
  | '\\' :: c :: pattern => piecesFrom (.literal c :: done) pattern
  | ['\\'] => none
  | c :: pattern => piecesFrom (.literal c :: done) pattern

def pieces? (pattern : List Char) : Option (List Piece) :=
  piecesFrom [] pattern

/-- For each suffix of the text, the longest first, whether one more piece in
front of a pattern matches it; `later` says so of the pattern itself. -/
def widen (text : List Char) (piece : Piece) (later : List Bool) : List Bool :=
  match piece with
  | .literal c => text.zipWith (fun t found => fold c == fold t && found) later.tail ++ [false]
  | .anyOne => text.zipWith (fun _ found => found) later.tail ++ [false]
  | .anyRun => later.foldr (fun found suffixes => (found || suffixes.headD false) :: suffixes) []

/-- For each suffix of the text, the longest first, whether the pieces match
the whole of it. The empty pattern matches the empty suffix alone. -/
def suffixMatches (text : List Char) (pieces : List Piece) : List Bool :=
  pieces.foldr (widen text) (text.map (fun _ => false) ++ [true])

def accepts (pattern text : List Char) : Bool :=
  match pieces? pattern with
  | some pieces => (suffixMatches text pieces).headD false
  | none => false

/-- What the comparison reads of a text. -/
def reading (s : String) : List Char :=
  (s.toList.takeWhile (· ≠ '\x00')).map fun c =>
    if c.toNat = 0xFFFE || c.toNat = 0xFFFF then '\uFFFD' else c

def like (pattern text : String) : Bool :=
  accepts (reading pattern) (reading text)

/-- The longest pattern, in bytes, that the comparison takes. -/
def longestPattern : Nat := 50000

def tooComplex (pattern : String) : Bool :=
  longestPattern < pattern.utf8ByteSize

end MediaCatalog.Text.Like
