import Crosswalk.Database.Page

/-!
# Records of a database file

A record starts with the types of its columns, each of which says how many bytes the column takes and
what they are.
-/

namespace Crosswalk

/-- What stands in a column. -/
inductive Column where
  | null
  | whole (value : Nat)
  | text (value : String)
  /-- Bytes, or a number that is not whole. -/
  | other

namespace Column

/-- How many bytes a column of a type takes. -/
def size (type : Nat) : Nat :=
  if type ≤ 4 then type
  else if type = 5 then 6
  else if type ≤ 7 then 8
  else if type < 12 then 0
  else (type - 12) / 2

/-- The column of a type in some bytes. Whole numbers are taken without a sign, as the numbers of
pages are. -/
def ofBytes? (type : Nat) (bytes : ByteArray) : Option Column :=
  if type = 0 then some null
  else if type ≤ 6 then (PagedFile.number bytes 0 bytes.size).map whole
  else if type = 8 then some (whole 0)
  else if type = 9 then some (whole 1)
  else if 13 ≤ type ∧ type % 2 = 1 then (String.fromUTF8? bytes).map text
  else some other

def text? : Column → Option String
  | text value => some value
  | _ => none

def whole? : Column → Option Nat
  | whole value => some value
  | _ => none

end Column

namespace PagedFile

/-- The types of the columns, read from a place up to the end of the heading; the first number bounds
how many there are. -/
def columnTypes (bytes : ByteArray) (last : Nat) : Nat → Nat → Option (List Nat)
  | 0, _ => none
  | count + 1, place =>
    if last ≤ place then some []
    else do
      let (type, place) ← readVarint bytes place
      return type :: (← columnTypes bytes last count place)

def columnsFrom (bytes : ByteArray) : List Nat → Nat → Option (List Column)
  | [], _ => some []
  | type :: types, place => do
    let content ← slice bytes place (Column.size type)
    return (← Column.ofBytes? type content) ::
      (← columnsFrom bytes types (place + Column.size type))

/-- The columns of a record. -/
def columns (bytes : ByteArray) : Option (List Column) := do
  let (last, place) ← readVarint bytes 0
  columnsFrom bytes (← columnTypes bytes last (bytes.size + 1) place) last

/-- The rows of the table whose tree starts at a page. -/
def rows (f : PagedFile) (root : Nat) : Option (List (List Column)) := do
  (← f.records (f.pageCount + 1) root).mapM columns

/-- Where the tree of a table starts, as the table of tables on the first page has it. -/
def root? (tables : List (List Column)) (name : String) : Option Nat :=
  tables.findSome? fun
    | [type, .text table, _, root, _] =>
      if type.text? = some "table" ∧ table = name then root.whole? else none
    | _ => none

/-- The rows of a table; one that is not there has none. -/
def table (f : PagedFile) (name : String) : Option (List (List Column)) := do
  match root? (← f.rows 1) name with
  | none => return []
  | some root => f.rows root

end PagedFile

end Crosswalk
