import MediaCatalog.Disk.Access
import MediaCatalog.Toml.Document

/-!
Settings, read from a TOML document, in which each group and each setting may be
left out. A group may also be an array with its settings in their fixed order; a
date is a group without settings. A setting of another kind than its number, or
out of range, spoils the document.
-/

namespace MediaCatalog

structure Settings where
  /-- How long to wait for a database that another writer holds, in
  milliseconds. -/
  busyTimeout : Nat := 5000
  /-- The number of further attempts after one that came to nothing. -/
  maxRetries : Nat := 5
  /-- How long to wait between attempts, in milliseconds. -/
  retryBackoff : Nat := 20
  defaultLimit : Nat := 100
deriving DecidableEq, Repr

namespace Settings

open Toml

/-- The settings of a group, `none` for each that is left out. -/
def group? (keys : List String) : Value → Option (List (Option Value))
  | .table entries => some (keys.map fun key => List.lookup key entries)
  | .array items => some (keys.zipIdx.map fun key => items[key.2]?)
  | .moment _ => some (keys.map fun _ => none)
  | _ => none

/-- A whole number below a bound. -/
def number? (bound usual : Nat) : Option Value → Option Nat
  | none => some usual
  | some (.integer n) => if 0 ≤ n && n.toNat < bound then some n.toNat else none
  | some _ => none

def groupOf? (document : List (String × Value)) (name : String) (keys : List String) :
    Option (List (Option Value)) :=
  match List.lookup name document with
  | none => some (keys.map fun _ => none)
  | some value => group? keys value

def ofDocument? (document : List (String × Value)) : Option Settings := do
  let usual : Settings := {}
  let store ← groupOf? document "store" ["busy_timeout_ms"]
  let resolver ← groupOf? document "resolver" ["max_retries", "retry_backoff_ms"]
  let search ← groupOf? document "search" ["default_limit"]
  some {
    busyTimeout := ← number? UInt64.size usual.busyTimeout store[0]?.join
    maxRetries := ← number? UInt32.size usual.maxRetries resolver[0]?.join
    retryBackoff := ← number? UInt64.size usual.retryBackoff resolver[1]?.join
    defaultLimit := ← number? UInt64.size usual.defaultLimit search[0]?.join }

def ofText? (text : String) : Option Settings := do
  ofDocument? (← Toml.read? text)

end Settings

inductive SettingsFault where
  | unreadable (path : Path) (fault : DiskFault)
  | malformed (path : Path)
deriving DecidableEq, Repr

/-- The message followed by that of its cause. Why a file is malformed is not
told. -/
def SettingsFault.chain : SettingsFault → List String
  | .unreadable path fault => ["Failed to read " ++ path.shown, fault.message]
  | .malformed path => ["Failed to parse " ++ path.shown]

namespace Settings

def fileName : String := "config.toml"

def load (disk : Disk) (here path : Path) : Except SettingsFault Settings :=
  match disk.readText here path with
  | .error fault => .error (.unreadable path fault)
  | .ok text =>
      match ofText? text with
      | some settings => .ok settings
      | none => .error (.malformed path)

/-- The settings for a directory with a database, `home` being where the user
keeps settings. -/
def discover (disk : Disk) (here home directory : Path) : Except SettingsFault Settings :=
  let beside := directory.join (.ofText fileName)
  let user := (home.join (.ofText "mediadex")).join (.ofText fileName)
  match [beside, user].find? (disk.present here) with
  | some path => load disk here path
  | none => .ok {}

end Settings

end MediaCatalog
