/-!
# Settings texts

The values of a settings text in TOML, and the rules by which its lines build up tables. A table
comes into being in one of four ways, and this decides what may still be added to it: a table
written in braces is complete, a table with a header of its own takes no second header, a table
that only lies on the way to another header may still get its own, and a table made by dots in a
key grows by further dots only.
-/

namespace Crosswalk.Toml

inductive Form where
  | braces
  | header
  | passed
  | dotted
deriving DecidableEq

/-- A value. Of real numbers and of dates and times only their being so is kept. -/
inductive Value where
  | text (value : String)
  | integer (value : Int)
  | real
  | bool (value : Bool)
  | moment
  | list (items : List Value)
  | table (form : Form) (entries : List (String × Value))
  /-- Tables that have come into being under one header, written once for each. -/
  | tables (items : List (List (String × Value)))

/-- The entries of a table, in the order in which they came into being. -/
abbrev Entries := List (String × Value)

/-- A line of a settings text that is not blank. -/
inductive Statement where
  | opens (path : List String)
  | appends (path : List String)
  | assigns (path : List String) (value : Value)

namespace Entries

def replace (entries : Entries) (name : String) (value : Value) : Entries :=
  entries.map fun entry => if entry.1 = name then (name, value) else entry

/-- Changes the table to which a path leads from a table of the given form, making tables on the
way where there are none. By dots only such tables are entered as have no header of their own. -/
def within (byDots : Bool) (change : Form → Entries → Option Entries) (form : Form) :
    List String → Entries → Option Entries
  | [], entries => change form entries
  | name :: path, entries =>
    match entries.lookup name with
    | none =>
      let form := if byDots then .dotted else .passed
      (within byDots change form path []).map fun inner => entries ++ [(name, .table form inner)]
    | some (.table .braces _) => none
    | some (.table form inner) =>
      if byDots && form = .header then none
      else
        (within byDots change form path inner).map fun inner =>
          entries.replace name (.table form inner)
    | some (.tables items) =>
      match items.getLast? with
      | none => none
      | some last =>
        (within byDots change .header path last).map fun last =>
          entries.replace name (.tables (items.dropLast ++ [last]))
    | some _ => none

/-- The entries with one more, whose key is a path. -/
def assign (form : Form) (path : List String) (value : Value) (entries : Entries) :
    Option Entries :=
  match path.getLast? with
  | none => none
  | some name =>
    within true (fun reached entries =>
      if (path.length = 1 || reached = .dotted) && (entries.lookup name).isNone then
        some (entries ++ [(name, value)])
      else none) form path.dropLast entries

def openTable (path : List String) (entries : Entries) : Option Entries :=
  match path.getLast? with
  | none => none
  | some name =>
    within false (fun _ entries =>
      match entries.lookup name with
      | none => some (entries ++ [(name, .table .header [])])
      | some (.table .passed inner) => some (entries.replace name (.table .header inner))
      | some _ => none) .header path.dropLast entries

/-- The entries with one more table under a doubled header. -/
def appendTable (path : List String) (entries : Entries) : Option Entries :=
  match path.getLast? with
  | none => none
  | some name =>
    within false (fun _ entries =>
      match entries.lookup name with
      | none => some (entries ++ [(name, .tables [[]])])
      | some (.tables items) => some (entries.replace name (.tables (items ++ [[]])))
      | some _ => none) .header path.dropLast entries

/-- Adds the statements in order; `current` is the path of the last header. -/
def run (current : List String) (entries : Entries) : List Statement → Option Entries
  | [] => some entries
  | .opens path :: rest => (entries.openTable path).bind fun entries => run path entries rest
  | .appends path :: rest => (entries.appendTable path).bind fun entries => run path entries rest
  | .assigns path value :: rest =>
    (within false (fun form => assign form path value) .header current entries).bind
      fun entries => run current entries rest

end Entries

end Crosswalk.Toml
