import Crosswalk.Catalog
import Crosswalk.FilePath
import Crosswalk.Toml.Reader

/-!
# Settings

Settings say where the catalogue is stored, how many nodes a page holds and whether the storage
keeps a log of changes ahead of writing them. They are kept in a text with a version. What the text
leaves out has a default, and entries that mean nothing here are ignored. A path that leads from
the working directory is taken from the directory of the settings file.
-/

namespace Crosswalk

inductive SettingsFault where
  | unreadable
  /-- The text is no settings text, or it has an entry of the wrong sort. -/
  | malformed
deriving DecidableEq

def SettingsFault.message : SettingsFault → String
  | unreadable => "Failed to read config file"
  | malformed => "Failed to parse config file"

structure Settings where
  database : String := "catalog.sqlite"
  /-- The number of nodes on a page as it is written; zero stands for the default. -/
  itemsPerPage : Nat := Catalog.defaultItemsPerPage
  writesAhead : Bool := true
deriving DecidableEq, Inhabited

namespace Settings

def version : String := "1"

/-- The number of nodes on a page, never zero. -/
def pageSize (s : Settings) : Nat :=
  if s.itemsPerPage = 0 then Catalog.defaultItemsPerPage else s.itemsPerPage

/-! ### Reading -/

/-- The value of an entry, a default where there is none; it must be of the sort that `read`
expects. -/
def entryOr {α : Type} (entries : Toml.Entries) (name : String) (default : α)
    (read : Toml.Value → Option α) : Option α :=
  match entries.lookup name with
  | none => some default
  | some value => read value

def readText : Toml.Value → Option String
  | .text s => some s
  | _ => none

def readCount : Toml.Value → Option Nat
  | .integer n => if 0 ≤ n then some n.toNat else none
  | _ => none

def readFlag : Toml.Value → Option Bool
  | .bool b => some b
  | _ => none

/-- The settings in the entries of a settings text of the known version. -/
def ofEntries? (entries : Toml.Entries) : Option Settings := do
  let given ← (entries.lookup "_version").bind readText
  if given = version then
    return {
      database := ← entryOr entries "database" ({} : Settings).database readText
      itemsPerPage := ← entryOr entries "items_per_page" ({} : Settings).itemsPerPage readCount
      writesAhead := ← entryOr entries "wal" ({} : Settings).writesAhead readFlag }
  else none

def ofText? (s : String) : Option Settings :=
  (Toml.read s).bind ofEntries?

/-- The settings with their path taken from inside a directory. -/
def within (directory : String) (s : Settings) : Settings :=
  { s with database := FilePath.join directory s.database }

/-- The settings in the file at a path, of which the text or a fault is given. -/
def load {ε : Type} (path : String) (file : Except ε String) : Except SettingsFault Settings :=
  match file with
  | .error _ => .error .unreadable
  | .ok s =>
    match ofText? s, FilePath.parent? path with
    | none, _ => .error .malformed
    | some settings, some directory => .ok (settings.within directory)
    | some settings, none => .ok settings

/-! ### Writing -/

def text (s : Settings) : String :=
  "_version = " ++ Toml.Quoted.write version ++ "\n" ++
  "database = " ++ Toml.Quoted.write s.database ++ "\n" ++
  "items_per_page = " ++ toString s.itemsPerPage ++ "\n" ++
  "wal = " ++ (if s.writesAhead then "true" else "false") ++ "\n"

end Settings

end Crosswalk
