import MediaCatalog.Toml.Quoted
import MediaCatalog.Toml.Scalar

/-!
Documents, read as statements on lines of their own: a header opens a table, and a
pair adds a value to the table that is open. No key has two values and no table
two headers. Arrays and tables in braces may be nested to a depth below eighty.
-/

namespace MediaCatalog.Toml

inductive Statement where
  | header (path : List String)
  /-- The header of one more table in an array. -/
  | nextHeader (path : List String)
  | pair (path : List String) (value : Value)

def depthLimit : Nat := 79

def skipBlanks (cs : List Char) : List Char :=
  cs.dropWhile isLineBlank

/-- The text without the blanks, line ends and comments it begins with. -/
def skipFiller (inComment : Bool) : List Char → List Char
  | '\r' :: '\n' :: rest => skipFiller false rest
  | '\n' :: rest => skipFiller false rest
  | c :: rest =>
      if inComment then
        if isPlain c then skipFiller true rest else c :: rest
      else if isLineBlank c then skipFiller false rest
      else if c = '#' then skipFiller true rest
      else c :: rest
  | [] => []

/-- The next line, if nothing but a comment is left on this one. -/
def endLine? (cs : List Char) : Option (List Char) :=
  let rest := match skipBlanks cs with
    | '#' :: rest => rest.dropWhile isPlain
    | rest => rest
  match rest with
  | [] => some []
  | '\n' :: rest => some rest
  | '\r' :: '\n' :: rest => some rest
  | _ => none

def isBareKeyChar (c : Char) : Bool :=
  c.isAlphanum || c == '_' || c == '-'

def readKey? (cs : List Char) : Option (String × List Char) :=
  match cs with
  | '"' :: rest => (readDouble rest).map fun read => (.ofList read.1, read.2)
  | '\'' :: rest => (readSingle rest).map fun read => (.ofList read.1, read.2)
  | cs =>
      let key := cs.takeWhile isBareKeyChar
      if key.isEmpty then none else some (.ofList key, cs.dropWhile isBareKeyChar)

/-- Keys with dots between them, at most so many. -/
def readPath? : (parts : Nat) → List Char → Option (List String × List Char)
  | 0, _ => none
  | parts + 1, cs => do
      let (key, rest) ← readKey? (skipBlanks cs)
      match skipBlanks rest with
      | '.' :: rest =>
          let (path, rest) ← readPath? parts rest
          some (key :: path, rest)
      | rest => some ([key], rest)

def braced? (pairs : List (List String × Value)) : Option Value := do
  let entries ← pairs.foldlM (fun entries pair => Draft.insert pair.2 entries pair.1) []
  some (Draft.table .headed entries).finish

mutual

/-- A value and what comes after it. Every second step passes a character, so
twice as many steps as characters are enough. -/
def readValue : (steps depth : Nat) → List Char → Option (Value × List Char)
  | 0, _, _ => none
  | steps + 1, depth, cs =>
      match cs with
      | '[' :: rest =>
          if depth = 0 then none
          else (readItems steps (depth - 1) rest).map fun read => (.array read.1, read.2)
      | '\x7b' :: rest =>
          if depth = 0 then none
          else
            match skipBlanks rest with
            | '\x7d' :: rest => some (.table [], rest)
            | rest => do
                let (pairs, rest) ← readPairs steps (depth - 1) rest
                some (← braced? pairs, rest)
      | '"' :: _ | '\'' :: _ =>
          (readQuoted cs).map fun read => (.text (.ofList read.1), read.2)
      | cs => readScalar? cs

def readItems : (steps depth : Nat) → List Char → Option (List Value × List Char)
  | 0, _, _ => none
  | steps + 1, depth, cs =>
      match skipFiller false cs with
      | ']' :: rest => some ([], rest)
      | cs => do
          let (item, rest) ← readValue steps depth cs
          match skipFiller false rest with
          | ',' :: rest =>
              let (items, rest) ← readItems steps depth rest
              some (item :: items, rest)
          | ']' :: rest => some ([item], rest)
          | _ => none

def readPairs : (steps depth : Nat) → List Char →
    Option (List (List String × Value) × List Char)
  | 0, _, _ => none
  | steps + 1, depth, cs => do
      let (path, rest) ← readPath? depthLimit cs
      match rest with
      | '=' :: rest =>
          let (value, rest) ← readValue steps depth (skipBlanks rest)
          match skipBlanks rest with
          | ',' :: rest =>
              let (pairs, rest) ← readPairs steps depth rest
              some ((path, value) :: pairs, rest)
          | '\x7d' :: rest => some ([(path, value)], rest)
          | _ => none
      | _ => none

end

def readStatement? (cs : List Char) : Option (Statement × List Char) :=
  match cs with
  | '[' :: '[' :: rest => do
      let (path, rest) ← readPath? depthLimit rest
      match rest with
      | ']' :: ']' :: rest => some (.nextHeader path, rest)
      | _ => none
  | '[' :: rest => do
      let (path, rest) ← readPath? depthLimit rest
      match rest with
      | ']' :: rest => some (.header path, rest)
      | _ => none
  | cs => do
      let (path, rest) ← readPath? depthLimit cs
      match rest with
      | '=' :: rest =>
          let rest := skipBlanks rest
          let (value, rest) ← readValue (2 * rest.length + 1) depthLimit rest
          some (.pair path value, rest)
      | _ => none

/-- The statements of a text. Each has a line of its own, so as many steps as
characters are enough. -/
def readStatements : (steps : Nat) → List Char → Option (List Statement)
  | 0, _ => none
  | steps + 1, cs =>
      match skipFiller false cs with
      | [] => some []
      | cs => do
          let (statement, rest) ← readStatement? cs
          let statements ← readStatements steps (← endLine? rest)
          some (statement :: statements)

/-- The document so far, and the path of the table that is open. -/
structure Assembly where
  entries : Draft.Entries
  path : List String

/-- Changes the table that the path without its last key leads to. -/
def Assembly.opening (assembly : Assembly) (path : List String)
    (change : String → Draft.Entries → Option Draft.Entries) : Option Assembly := do
  let key ← path.getLast?
  some ⟨← Draft.within (change key) assembly.entries path.dropLast, path⟩

def Assembly.add (assembly : Assembly) : Statement → Option Assembly
  | .header path => assembly.opening path Draft.openTable
  | .nextHeader path => assembly.opening path Draft.openNext
  | .pair path value => do
      some ⟨← Draft.within (fun entries => Draft.insert value entries path)
        assembly.entries assembly.path, assembly.path⟩

/-- The entries of a document. A byte order mark in front does not count. -/
def read? (text : String) : Option (List (String × Value)) := do
  let cs := match text.toList with
    | '\uFEFF' :: cs => cs
    | cs => cs
  let statements ← readStatements (cs.length + 1) cs
  let assembly ← statements.foldlM Assembly.add ⟨[], []⟩
  some (Draft.finishAll assembly.entries)

end MediaCatalog.Toml
