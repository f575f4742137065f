import Crosswalk.Table.Csv
import Crosswalk.Text.Blank

/-!
# Tables

A table has a row of headers and rows of cells below it, every row as wide as the headers. Short
rows are filled up with empty cells, and cells past the headers are refused unless they are empty.
Where a header occurs twice, its cells are those of the last column.
-/

namespace Crosswalk

structure Table where
  headers : List String
  rows : List (List String)
  widths : ∀ row ∈ rows, row.length = headers.length

namespace Table

def ofHeaders (headers : List String) : Table :=
  ⟨headers, [], by simp⟩

def empty : Table :=
  ofHeaders []

instance : Inhabited Table := ⟨empty⟩

/-! ### Adding rows -/

/-- The first `width` cells of a row, filled up with empty ones. -/
def fit (width : Nat) (row : List String) : List String :=
  row.take width ++ List.replicate (width - row.length) ""

@[simp]
theorem length_fit (width : Nat) (row : List String) : (fit width row).length = width := by
  simp only [fit, List.length_append, List.length_take, List.length_replicate]
  omega

theorem fit_eq_self {row : List String} {width : Nat} (h : row.length = width) :
    fit width row = row := by
  subst h
  unfold fit
  rw [List.take_length, Nat.sub_self, List.replicate_zero, List.append_nil]

/-- The table with a row at the end, cut or filled up to the width of the headers. -/
def pushFitted (t : Table) (row : List String) : Table where
  headers := t.headers
  rows := t.rows ++ [fit t.headers.length row]
  widths := by
    intro r hr
    rcases List.mem_append.1 hr with hr | hr
    · exact t.widths r hr
    · simp_all

/-- The table with a row at the end; a row may exceed the headers by empty cells only. -/
def push (t : Table) (row : List String) : Except TableFault Table :=
  if (row.drop t.headers.length).any (· != "") then
    .error (.surplusCells row.length t.headers.length)
  else .ok (t.pushFitted row)

/-! ### Text -/

/-- Adds the records that are not blank; `number` is the number of the first of them. -/
def pushRecords (t : Table) (number : Nat) : List (List String) → Except TableFault Table
  | [] => .ok t
  | record :: records =>
    if record.all (· = "") then t.pushRecords (number + 1) records
    else
      match t.push record with
      | .ok t => t.pushRecords (number + 1) records
      | .error fault => .error (.inRecord number fault)

/-- The text without a byte order mark at its start. -/
def dropMark (s : String) : String :=
  match s.toList with
  | '\uFEFF' :: cs => String.ofList cs
  | _ => s

/-- Reads a table: the first record holds the headers, trimmed; records of empty cells are left
out. -/
def ofCsv (s : String) : Except TableFault Table := do
  match ← Csv.read (dropMark s) with
  | [] => return empty
  | headers :: records => (ofHeaders (headers.map Text.trim)).pushRecords 2 records

/-- The text of the table, each record ended by a line feed. -/
def toCsv (t : Table) : String :=
  Csv.write (t.headers :: t.rows)

/-! ### Cells -/

/-- The last position that satisfies a test. -/
def lastIndex? {α : Type} (p : α → Bool) : List α → Option Nat
  | [] => none
  | a :: as =>
    match lastIndex? p as with
    | some i => some (i + 1)
    | none => if p a then some 0 else none

def position? (headers : List String) (header : String) : Option Nat :=
  lastIndex? (· = header) headers

/-- The trimmed cell at a position, empty where there is none. -/
def cellAt (row : List String) (position : Option Nat) : String :=
  match position.bind fun i => row[i]? with
  | some cell => Text.trim cell
  | none => ""

/-- The trimmed cell under a header, empty where there is no such column. -/
def cell (headers row : List String) (header : String) : String :=
  cellAt row (position? headers header)

end Table

end Crosswalk
