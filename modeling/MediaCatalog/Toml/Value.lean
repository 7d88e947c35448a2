/-!
The values of a TOML document, and tables while they are being written. What may
still be added to a table depends on how it came to be.
-/

namespace MediaCatalog.Toml

inductive Value where
  | text (written : String)
  | integer (n : Int)
  /-- A number with a fraction or exponent, infinity, or no number at all. -/
  | float (written : String)
  | truth (value : Bool)
  /-- A date, a time of day, or both. -/
  | moment (written : String)
  | array (items : List Value)
  | table (entries : List (String × Value))

inductive Origin where
  /-- By a header of its own, or in braces. -/
  | headed
  /-- On the way to the header of another. -/
  | passed
  | dotted
deriving DecidableEq, Repr

inductive Draft where
  | value (done : Value)
  | table (origin : Origin) (entries : List (String × Draft))
  /-- An array of tables, the newest first, without its other tables' origin. -/
  | tables (newest : List (String × Draft)) (others : List (List (String × Draft)))

abbrev Draft.Entries := List (String × Draft)

namespace Draft

def find? (entries : Entries) (key : String) : Option Draft :=
  entries.lookup key

def put (entries : Entries) (key : String) (draft : Draft) : Entries :=
  if (find? entries key).isSome then
    entries.map fun entry => if entry.1 = key then (key, draft) else entry
  else
    entries ++ [(key, draft)]

/-- Adds a value under a dotted key. Tables on the way are made if there are
none; one with a header of its own is closed to dotted keys of others, and the
table that takes the value must have come from a dotted key itself. -/
def insert (value : Value) (entries : Entries) : List String → Option Entries
  | [] => none
  | [key] => if (find? entries key).isSome then none else some (put entries key (.value value))
  | key :: path =>
      match find? entries key with
      | none => do some (put entries key (.table .dotted (← insert value [] path)))
      | some (.table .headed _) => none
      | some (.table .passed inner) => do
          if path.length = 1 then none
          some (put entries key (.table .passed (← insert value inner path)))
      | some (.table .dotted inner) => do
          some (put entries key (.table .dotted (← insert value inner path)))
      | some (.tables newest others) => do
          if path.length = 1 then none
          some (put entries key (.tables (← insert value newest path) others))
      | some (.value _) => none

/-- Changes the table at the end of a path, the newest where there is an array
of them. Tables on the way are made if there are none. -/
def within (change : Entries → Option Entries) (entries : Entries) : List String → Option Entries
  | [] => change entries
  | key :: path =>
      match find? entries key with
      | none => do some (put entries key (.table .passed (← within change [] path)))
      | some (.table origin inner) => do
          some (put entries key (.table origin (← within change inner path)))
      | some (.tables newest others) => do
          some (put entries key (.tables (← within change newest path) others))
      | some (.value _) => none

/-- Opens the table of a header, unless it was written to before. -/
def openTable (key : String) (entries : Entries) : Option Entries :=
  match find? entries key with
  | none => some (put entries key (.table .headed []))
  | some (.table .passed inner) => some (put entries key (.table .headed inner))
  | _ => none

def openNext (key : String) (entries : Entries) : Option Entries :=
  match find? entries key with
  | none => some (put entries key (.tables [] []))
  | some (.tables newest others) => some (put entries key (.tables [] (newest :: others)))
  | _ => none

mutual

def finish : Draft → Value
  | .value done => done
  | .table _ entries => .table (finishAll entries)
  | .tables newest others => .array (finishEach others [.table (finishAll newest)])

def finishAll : Entries → List (String × Value)
  | [] => []
  | (key, draft) :: rest => (key, finish draft) :: finishAll rest

/-- The tables of an array, from the newest back, before those in `later`. -/
def finishEach : List Entries → List Value → List Value
  | [], later => later
  | entries :: rest, later => finishEach rest (.table (finishAll entries) :: later)

end

end Draft

end MediaCatalog.Toml
