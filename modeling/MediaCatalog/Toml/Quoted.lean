/-!
Texts in quotes. Three quotes open a text of several lines, whose first line end
is dropped and which may close with up to two quotes of its own. A backslash at
the end of such a line joins it to the next character that is not blank.
-/

namespace MediaCatalog.Toml

/-- Whether a character can stand in a text or comment as it is. Of the
controls below space only the tab can, and delete cannot. -/
def isPlain (c : Char) : Bool :=
  c == '\t' || (' ' ≤ c && c ≤ '~') || '\x80' ≤ c

def isLineBlank (c : Char) : Bool :=
  c == ' ' || c == '\t'

abbrev Reading := Option (List Char × List Char)

def Reading.after (c : Char) (reading : Reading) : Reading :=
  reading.map fun read => (c :: read.1, read.2)

def codePoint? (digits : List Char) : Option Char := do
  let step := fun (n : Nat) (c : Char) =>
    if c.isDigit then some (16 * n + (c.toNat - 48))
    else if 'a' ≤ c && c ≤ 'f' then some (16 * n + (c.toNat - 87))
    else if 'A' ≤ c && c ≤ 'F' then some (16 * n + (c.toNat - 55))
    else none
  let n ← digits.foldlM step 0
  if n.isValidChar then some (.ofNat n) else none

/-- What a letter stands for after a backslash. -/
def escaped? : Char → Option Char
  | 'b' => some '\x08'
  | 'f' => some '\x0c'
  | 'n' => some '\n'
  | 'r' => some '\r'
  | 't' => some '\t'
  | '\\' => some '\\'
  | '"' => some '"'
  | _ => none

def readDouble : List Char → Reading
  | '"' :: rest => some ([], rest)
  | '\\' :: 'u' :: a :: b :: c :: d :: rest =>
      (codePoint? [a, b, c, d]).bind fun x => (readDouble rest).after x
  | '\\' :: 'U' :: a :: b :: c :: d :: e :: f :: g :: h :: rest =>
      (codePoint? [a, b, c, d, e, f, g, h]).bind fun x => (readDouble rest).after x
  | '\\' :: c :: rest => (escaped? c).bind fun x => (readDouble rest).after x
  | c :: rest => if c ≠ '\\' && isPlain c then (readDouble rest).after c else none
  | [] => none

def readSingle : List Char → Reading
  | '\'' :: rest => some ([], rest)
  | c :: rest => if isPlain c then (readSingle rest).after c else none
  | [] => none

/-- The end of a text of several lines, its three quotes already read. -/
def closing (quote : Char) : List Char → List Char × List Char
  | a :: b :: rest =>
      if a = quote && b = quote then ([quote, quote], rest)
      else if a = quote then ([quote], b :: rest)
      else ([], a :: b :: rest)
  | [a] => if a = quote then ([quote], []) else ([], [a])
  | [] => ([], [])

inductive Seen where
  | text
  /-- A backslash that must be followed by the line's end. -/
  | backslash
  /-- The end of a line that ends in a backslash. -/
  | lineEnd
deriving DecidableEq

def readDoubleLines (seen : Seen) : List Char → Reading
  | '"' :: '"' :: '"' :: rest => if seen = .backslash then none else some (closing '"' rest)
  | '\\' :: 'u' :: a :: b :: c :: d :: rest =>
      if seen = .backslash then none
      else (codePoint? [a, b, c, d]).bind fun x => (readDoubleLines .text rest).after x
  | '\\' :: 'U' :: a :: b :: c :: d :: e :: f :: g :: h :: rest =>
      if seen = .backslash then none
      else
        (codePoint? [a, b, c, d, e, f, g, h]).bind fun x =>
          (readDoubleLines .text rest).after x
  | '\\' :: c :: rest =>
      if seen = .backslash then none
      else if isLineBlank c then readDoubleLines .backslash rest
      else if c = '\n' then readDoubleLines .lineEnd rest
      else if c = '\r' then
        match rest with
        | '\n' :: rest => readDoubleLines .lineEnd rest
        | _ => none
      else (escaped? c).bind fun x => (readDoubleLines .text rest).after x
  | '\r' :: '\n' :: rest =>
      if seen = .text then (readDoubleLines .text rest).after '\n'
      else readDoubleLines .lineEnd rest
  | '\n' :: rest =>
      if seen = .text then (readDoubleLines .text rest).after '\n'
      else readDoubleLines .lineEnd rest
  | c :: rest =>
      if seen ≠ .text && isLineBlank c then readDoubleLines seen rest
      else if seen ≠ .backslash && c ≠ '\\' && isPlain c then
        (readDoubleLines .text rest).after c
      else none
  | [] => none

def readSingleLines : List Char → Reading
  | '\'' :: '\'' :: '\'' :: rest => some (closing '\'' rest)
  | '\r' :: '\n' :: rest => (readSingleLines rest).after '\n'
  | '\n' :: rest => (readSingleLines rest).after '\n'
  | c :: rest => if isPlain c then (readSingleLines rest).after c else none
  | [] => none

def dropLineEnd : List Char → List Char
  | '\r' :: '\n' :: rest => rest
  | '\n' :: rest => rest
  | rest => rest

def readQuoted : List Char → Reading
  | '"' :: '"' :: '"' :: rest => readDoubleLines .text (dropLineEnd rest)
  | '"' :: rest => readDouble rest
  | '\'' :: '\'' :: '\'' :: rest => readSingleLines (dropLineEnd rest)
  | '\'' :: rest => readSingle rest
  | _ => none

end MediaCatalog.Toml
