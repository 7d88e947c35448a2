/-!
Reading the arguments of a command: options, positional arguments in order, and
perhaps the name of a command below it, which ends its own.

A value is looked at only once the next argument that makes sense has been seen,
so that a fault in a later argument can come first.
-/

namespace MediaCatalog.CommandLine

inductive UsageFault where
  | unknownArgument
  | unknownCommand
  | noValue
  | badValue
  | valueNotTaken
  | repeated
  | argumentMissing
  | commandMissing
  /-- Nothing was given where a command must be. -/
  | nothingGiven
  | helpWanted
  | versionWanted
deriving DecidableEq, Repr

/-- An option or positional argument, and what its values do to the arguments
read so far. -/
structure Argument (σ : Type) where
  /-- For an option, its long name. -/
  name : String
  letter : Option Char := none
  takesValue : Bool := false
  repeats : Bool := false
  required : Bool := false
  take : List String → σ → Except UsageFault σ

structure Level (σ : Type) where
  options : List (Argument σ)
  positionals : List (Argument σ)
  commands : List String

structure Progress (σ : Type) where
  value : σ
  given : List String
  /-- An argument with its values, not looked at yet. -/
  pending : Option (Argument σ × List String)
  /-- Whether a double dash was seen. -/
  onlyPositional : Bool
  filled : Nat

namespace Progress

variable {σ : Type}

def start (value : σ) : Progress σ :=
  ⟨value, [], none, false, 0⟩

def settle (progress : Progress σ) (argument : Argument σ) (values : List String) :
    Except UsageFault (Progress σ) := do
  if argument.takesValue && values.isEmpty then throw .noValue
  if !argument.repeats && progress.given.contains argument.name then throw .repeated
  let value ← argument.take values progress.value
  return { progress with value, given := argument.name :: progress.given }

def flush (progress : Progress σ) : Except UsageFault (Progress σ) :=
  match progress.pending with
  | none => .ok progress
  | some (argument, values) => { progress with pending := none }.settle argument values

def accept (progress : Progress σ) (argument : Argument σ) (values : List String) :
    Except UsageFault (Progress σ) := do
  (← progress.flush).settle argument values

/-- Keeps an argument until its values are complete. -/
def keep (progress : Progress σ) (argument : Argument σ) (values : List String) :
    Except UsageFault (Progress σ) := do
  return { ← progress.flush with pending := some (argument, values) }

def waiting? (progress : Progress σ) : Option (Argument σ) :=
  match progress.pending with
  | some (argument, []) => some argument
  | _ => none

/-- Takes a long option, written without its dashes. -/
def takeLong (level : Level σ) (progress : Progress σ) (written : List Char) :
    Except UsageFault (Progress σ) :=
  let name := written.takeWhile (· != '=')
  let rest := written.dropWhile (· != '=')
  match level.options.find? fun option => option.name.toList = name with
  | none => .error .unknownArgument
  | some option =>
      match option.takesValue, rest with
      | true, [] => progress.keep option []
      | true, _ :: value => progress.accept option [.ofList value]
      | false, [] => progress.accept option []
      | false, _ :: _ => .error .valueNotTaken

def takeLetters (level : Level σ) (progress : Progress σ) :
    List Char → Except UsageFault (Progress σ)
  | [] => .ok progress
  | c :: rest =>
      match level.options.find? fun option => option.letter = some c with
      | none => .error .unknownArgument
      | some option =>
          if option.takesValue then
            match rest with
            | [] => progress.keep option []
            | '=' :: value => progress.accept option [.ofList value]
            | value => progress.accept option [.ofList value]
          else do
            takeLetters level (← progress.accept option []) rest

/-- Takes a positional argument. One that may be repeated takes all that come
after it. -/
def takePositional (level : Level σ) (progress : Progress σ) (written : String) :
    Except UsageFault (Progress σ) :=
  match level.positionals[progress.filled]? with
  | none =>
      if level.commands.isEmpty || (progress.onlyPositional && level.commands.contains written) then
        .error .unknownArgument
      else
        .error .unknownCommand
  | some argument =>
      if argument.repeats then
        match progress.pending with
        | some (before, values) =>
            if before.name = argument.name then
              .ok { progress with pending := some (argument, values ++ [written]) }
            else
              progress.keep argument [written]
        | none => progress.keep argument [written]
      else do
        let progress ← progress.keep argument [written]
        return { progress with filled := progress.filled + 1 }

def take (level : Level σ) (progress : Progress σ) (written : String) :
    Except UsageFault (Progress σ) :=
  if progress.onlyPositional then
    progress.takePositional level written
  else
    match written.toList, progress.waiting? with
    | ['-', '-'], _ => .ok { progress with onlyPositional := true }
    | '-' :: '-' :: rest, _ => progress.takeLong level rest
    | '-' :: c :: rest, _ => progress.takeLetters level (c :: rest)
    | _, some option => .ok { progress with pending := some (option, [written]) }
    | _, none => progress.takePositional level written

def allowsCommand (progress : Progress σ) : Bool :=
  !progress.onlyPositional && progress.waiting?.isNone

/-- Reads arguments up to the name of a command, and tells that name and what
comes after it. -/
def read (level : Level σ) (progress : Progress σ) :
    List String → Except UsageFault (Progress σ × Option (String × List String))
  | [] => .ok (progress, none)
  | written :: rest =>
      if progress.allowsCommand && level.commands.contains written then
        .ok (progress, some (written, rest))
      else do
        (← progress.take level written).read level rest

/-- Looks at what is still pending and for what was left out. -/
def finish (level : Level σ) (progress : Progress σ) (hasCommand : Bool) :
    Except UsageFault σ := do
  let progress ← progress.flush
  if !level.commands.isEmpty && !hasCommand then
    throw (if progress.given.isEmpty then .nothingGiven else .commandMissing)
  let missing := (level.options ++ level.positionals).filter fun argument =>
    argument.required && !progress.given.contains argument.name
  if !missing.isEmpty then throw .argumentMissing
  return progress.value

end Progress

end MediaCatalog.CommandLine
