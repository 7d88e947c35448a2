import MediaCatalog.Catalog.Basic
import MediaCatalog.Text.Numeral

/-!
A catalog as the bytes of its database file: a heading, then a line for each row
with its fields, escaped, between tabs, filled up with line ends to whole pages.
-/

namespace MediaCatalog

open Text

namespace Codec

def heading : String := "media catalog 1"

def pageBytes : Nat := 4096

/-- The pages that even an empty catalog takes. -/
def leastPages : Nat := 13

def escapeChar : Char → List Char
  | '\\' => ['\\', '\\']
  | '\t' => ['\\', 't']
  | '\n' => ['\\', 'n']
  | c => [c]

def unescape : List Char → List Char
  | '\\' :: 't' :: cs => '\t' :: unescape cs
  | '\\' :: 'n' :: cs => '\n' :: unescape cs
  | '\\' :: c :: cs => c :: unescape cs
  | c :: cs => c :: unescape cs
  | [] => []

def writeFields (fields : List String) : String :=
  "\t".intercalate (fields.map fun field => .ofList (field.toList.flatMap escapeChar))

def readFields (line : String) : List String :=
  (line.toList.splitOnP (· == '\t')).map fun field => .ofList (unescape field)

def writeFlag (flag : Bool) : String :=
  if flag then "1" else "0"

def fileLine (record : FileRecord) : String :=
  writeFields ["file", record.path, toString record.size.toNat, toString record.modified,
    record.hash, record.id.text, writeFlag record.missing]

def canonicalLine (row : CanonicalRow) : String :=
  writeFields ["hash", row.hash, row.id.text]

def tagLine (row : TagRow) : String :=
  writeFields ["tag", row.item.text, row.tag, toString row.modified, writeFlag row.deleted]

def lines (catalog : Catalog) : List String :=
  heading :: catalog.files.map fileLine ++ catalog.canonical.map canonicalLine ++
    catalog.tags.map tagLine

def encode (catalog : Catalog) : ByteArray :=
  let text := ("\n".intercalate (lines catalog) ++ "\n").toUTF8
  let pages := max leastPages ((text.size + pageBytes - 1) / pageBytes)
  text ++ ⟨Array.replicate (pages * pageBytes - text.size) 0x0A⟩

def readLine? (catalog : Catalog) (line : String) : Option Catalog :=
  match readFields line with
  | ["file", path, size, modified, hash, id, missing] => do
      let size ← unsigned64? size.toList
      let modified ← signed64? modified.toList
      some { catalog with
        files := ⟨path, size, modified, hash, ⟨id⟩, missing == "1"⟩ :: catalog.files }
  | ["hash", hash, id] => some { catalog with canonical := ⟨hash, ⟨id⟩⟩ :: catalog.canonical }
  | ["tag", item, tag, modified, deleted] => do
      let modified ← signed64? modified.toList
      some { catalog with tags := ⟨⟨item⟩, tag, modified, deleted == "1"⟩ :: catalog.tags }
  | _ => none

def decode? (bytes : ByteArray) : Option Catalog := do
  let text ← String.fromUTF8? bytes
  let lines := (text.toList.splitOnP (· == '\n')).map String.ofList
  match lines with
  | [] => none
  | first :: rest =>
      if first = heading then
        let catalog ← (rest.filter (· ≠ "")).foldlM readLine? {}
        some ⟨catalog.files.reverse, catalog.canonical.reverse, catalog.tags.reverse⟩
      else
        none

end Codec

end MediaCatalog
