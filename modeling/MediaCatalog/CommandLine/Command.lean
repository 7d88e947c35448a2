import MediaCatalog.CommandLine.Arguments
import MediaCatalog.Disk.Path
import MediaCatalog.Query.Sort
import MediaCatalog.Text.Numeral

/-!
The commands and what each takes. Options that say which library, database and
settings to use may stand before or after the name of a command; the later count.
-/

namespace MediaCatalog.CommandLine

open Text Query

structure Common where
  library : Option Path := none
  database : Option Path := none
  settings : Option Path := none
deriving DecidableEq, Repr

/-- The options of both places, those in `later` first. -/
def Common.under (common later : Common) : Common where
  library := later.library <|> common.library
  database := later.database <|> common.database
  settings := later.settings <|> common.settings

structure Layout where
  json : Bool := false
  pretty : Bool := false
deriving DecidableEq, Repr

structure ScanArguments where
  directory : Option Path := none
  quiet : Bool := false
deriving DecidableEq, Repr

structure ResolveArguments where
  files : List Path := []
  layout : Layout := {}
deriving DecidableEq, Repr

structure SearchArguments where
  query : String := ""
  limit : Option UInt64 := none
  offset : UInt64 := 0
  all : Bool := false
  columns : List SortColumn := []
  directions : List SortDirection := []
  withTags : Bool := false
  layout : Layout := {}
deriving DecidableEq, Repr

structure TagsArguments where
  query : String := ""
  limit : Option UInt64 := none
  offset : UInt64 := 0
  layout : Layout := {}
deriving DecidableEq, Repr

structure EditArguments where
  file : Path := ⟨[]⟩
  tags : List String := []
deriving DecidableEq, Repr

structure ListArguments where
  file : Path := ⟨[]⟩
  withDeleted : Bool := false
  layout : Layout := {}
deriving DecidableEq, Repr

inductive Command where
  | scan (arguments : ScanArguments)
  | resolve (arguments : ResolveArguments)
  | search (arguments : SearchArguments)
  | tags (arguments : TagsArguments)
  | addTags (arguments : EditArguments)
  | removeTags (arguments : EditArguments)
  | listTags (arguments : ListArguments)
  | clean (layout : Layout)
  | stats (layout : Layout)
deriving DecidableEq, Repr

structure Invocation where
  common : Common
  command : Command
deriving DecidableEq, Repr

structure Reading (α : Type) where
  common : Common := {}
  own : α

section Values

variable {σ : Type}

def flag (name : String) (letter : Option Char) (set : σ → σ) : Argument σ where
  name := name
  letter := letter
  take _ s := .ok (set s)

def valued {α : Type} (name : String) (letter : Option Char)
    (read : String → Except UsageFault α) (set : α → σ → σ) : Argument σ where
  name := name
  letter := letter
  takesValue := true
  take values s := do
    let values ← values.mapM read
    return values.foldl (fun s value => set value s) s

/-- An option that ends the reading. -/
def ending (name : String) (letter : Char) (fault : UsageFault) : Argument σ where
  name := name
  letter := some letter
  repeats := true
  take _ _ := .error fault

def positional {α : Type} (name : String) (required repeats : Bool)
    (read : String → Except UsageFault α) (set : α → σ → σ) : Argument σ where
  name := name
  takesValue := true
  repeats := repeats
  required := required
  take values s := do
    let values ← values.mapM read
    return values.foldl (fun s value => set value s) s

def readText (written : String) : Except UsageFault String :=
  .ok written

/-- A path, which may not be empty. -/
def readPath (written : String) : Except UsageFault Path :=
  if written.isEmpty then .error .noValue else .ok (.ofText written)

def readNumber (written : String) : Except UsageFault UInt64 :=
  match unsigned64? written.toList with
  | some n => .ok n
  | none => .error .badValue

/-- Names with commas between them. -/
def readNames {α : Type} (ofName? : String → Option α) (written : String) :
    Except UsageFault (List α) :=
  (written.toList.splitOnP (· == ',')).mapM fun name =>
    match ofName? (.ofList name) with
    | some value => .ok value
    | none => .error .badValue

end Values

def commonOptions {α : Type} : List (Argument (Reading α)) :=
  let change := fun (set : Path → Common → Common) (path : Path) (s : Reading α) =>
    { s with common := set path s.common }
  [ { flag "verbose" (some 'v') id with repeats := true },
    valued "library" (some 'L') readPath (change fun path s => { s with library := some path }),
    valued "db" none readPath (change fun path s => { s with database := some path }),
    valued "config" none readPath (change fun path s => { s with settings := some path }),
    ending "help" 'h' .helpWanted ]

/-- An argument of one command among those of all. -/
def Argument.ofOwn {α : Type} (argument : Argument α) : Argument (Reading α) where
  name := argument.name
  letter := argument.letter
  takesValue := argument.takesValue
  repeats := argument.repeats
  required := argument.required
  take values s := do return { s with own := ← argument.take values s.own }

def Level.ofOwn {α : Type} (options positionals : List (Argument α)) : Level (Reading α) where
  options := commonOptions ++ options.map Argument.ofOwn
  positionals := positionals.map Argument.ofOwn
  commands := []

def jsonFlag {σ : Type} (change : (Layout → Layout) → σ → σ) : Argument σ :=
  flag "json" none (change fun s => { s with json := true })

def prettyFlag {σ : Type} (change : (Layout → Layout) → σ → σ) : Argument σ :=
  flag "pretty" none (change fun s => { s with pretty := true })

def scanLevel : Level (Reading ScanArguments) := .ofOwn
  [flag "quiet" (some 'q') fun s => { s with quiet := true }]
  [positional "DIR" false false readPath fun path s => { s with directory := some path }]

def resolveLevel : Level (Reading ResolveArguments) := .ofOwn
  [jsonFlag fun change s => { s with layout := change s.layout }]
  [positional "FILE" true true readPath fun path s => { s with files := s.files ++ [path] }]

def searchLevel : Level (Reading SearchArguments) := .ofOwn
  [ valued "limit" (some 'n') readNumber fun n s => { s with limit := some n },
    valued "offset" (some 'o') readNumber fun n s => { s with offset := n },
    flag "all" (some 'a') fun s => { s with all := true },
    { valued "sort-by" none (readNames SortColumn.ofName?)
        (fun names s => { s with columns := s.columns ++ names }) with repeats := true },
    { valued "order" none (readNames SortDirection.ofName?)
        (fun names s => { s with directions := s.directions ++ names }) with repeats := true },
    flag "tags" (some 't') fun s => { s with withTags := true },
    jsonFlag fun change s => { s with layout := change s.layout },
    prettyFlag fun change s => { s with layout := change s.layout } ]
  [positional "QUERY" true false readText fun query s => { s with query }]

def tagsLevel : Level (Reading TagsArguments) := .ofOwn
  [ valued "limit" (some 'n') readNumber fun n s => { s with limit := some n },
    valued "offset" (some 'o') readNumber fun n s => { s with offset := n },
    jsonFlag fun change s => { s with layout := change s.layout },
    prettyFlag fun change s => { s with layout := change s.layout } ]
  [positional "QUERY" false false readText fun query s => { s with query }]

def editLevel : Level (Reading EditArguments) := .ofOwn []
  [ positional "FILE" true false readPath fun file s => { s with file },
    positional "TAGS" true true readText fun tag s => { s with tags := s.tags ++ [tag] } ]

def listLevel : Level (Reading ListArguments) := .ofOwn
  [ flag "deleted" none fun s => { s with withDeleted := true },
    jsonFlag fun change s => { s with layout := change s.layout } ]
  [positional "FILE" true false readPath fun file s => { s with file }]

def cleanLevel : Level (Reading Layout) := .ofOwn [jsonFlag id] []

def statsLevel : Level (Reading Layout) := .ofOwn [jsonFlag id, prettyFlag id] []

/-- The names of the commands below another, the outermost having none. -/
def commandsBelow : List String → List String
  | [] => ["scan", "resolve", "search", "tags", "tag", "clean", "stats", "help"]
  | ["tag"] => ["add", "rm", "list", "help"]
  | _ => []

def tagLevel : Level (Reading Unit) where
  options := commonOptions
  positionals := []
  commands := commandsBelow ["tag"]

def rootLevel : Level (Reading Unit) where
  options := commonOptions ++ [ending "version" 'V' .versionWanted]
  positionals := []
  commands := commandsBelow []

/-- What asking for help on a command by its names comes to. -/
def helpOn (path : List String) : List String → UsageFault
  | [] => .helpWanted
  | name :: rest =>
      if (commandsBelow path).contains name then helpOn (path ++ [name]) rest
      else .unknownCommand

def readCommand {α : Type} (level : Level (Reading α)) (own : α) (make : α → Command)
    (written : List String) : Except UsageFault Invocation := do
  let (progress, _) ← (Progress.start { own }).read level written
  let reading ← progress.finish level false
  return ⟨reading.common, make reading.own⟩

/-- Reads the command below another, and then what was still pending above. -/
def readBelow (level : Level (Reading Unit))
    (below : String → List String → Except UsageFault Invocation) (written : List String) :
    Except UsageFault Invocation := do
  match ← (Progress.start { own := () }).read level written with
  | (progress, none) =>
      let _ ← progress.finish level false
      throw .commandMissing
  | (progress, some (name, rest)) =>
      let invocation ← below name rest
      let reading ← progress.finish level true
      return { invocation with common := reading.common.under invocation.common }

def readTagCommand (name : String) (rest : List String) : Except UsageFault Invocation :=
  match name with
  | "add" => readCommand editLevel {} .addTags rest
  | "rm" => readCommand editLevel {} .removeTags rest
  | "list" => readCommand listLevel {} .listTags rest
  | _ => .error (helpOn ["tag"] rest)

def readRootCommand (name : String) (rest : List String) : Except UsageFault Invocation :=
  match name with
  | "scan" => readCommand scanLevel {} .scan rest
  | "resolve" => readCommand resolveLevel {} .resolve rest
  | "search" => readCommand searchLevel {} .search rest
  | "tags" => readCommand tagsLevel {} .tags rest
  | "tag" => readBelow tagLevel readTagCommand rest
  | "clean" => readCommand cleanLevel {} .clean rest
  | "stats" => readCommand statsLevel {} .stats rest
  | _ => .error (helpOn [] rest)

def Invocation.read (written : List String) : Except UsageFault Invocation :=
  readBelow rootLevel readRootCommand written

end MediaCatalog.CommandLine
