import Crosswalk.Exchange.Column
import Crosswalk.Exchange.Merge

/-!
# Outlines

The indented form of a catalogue. The names of requirements stand in level columns, one level a
column; the deepest name of a row is its requirement, and the name before it, on the row or else
the last one seen at a shallower level above, is its parent. Other columns hold the identifier, the
tags and related requirements, and node columns hold one node a line.
-/

namespace Crosswalk.Outline

def idHeader : String := "CRE ID"

def tagsHeader : String := "CRE Tags"

def relatedHeader : String := "Link to other CRE"

def level? (header : String) : Option Nat := do
  let rest ← Text.after? "CRE hierarchy " header
  Text.parseCount? (Text.trim rest)

/-- The positions of the level columns, the shallowest level first; columns of one level keep their
order. -/
def levelColumns (headers : List String) : List Nat :=
  let levels := headers.zipIdx.filterMap fun (header, i) => (level? header).map (·, i)
  (levels.mergeSort fun a b => a.1 ≤ b.1).map (·.2)

/-- The items of a list with commas between, trimmed, without the empty ones. -/
def items (s : String) : List String :=
  ((Text.split ',' s).map Text.trim).filter (· != "")

/-! ### Nodes -/

def cellLines (row : List String) (position : Nat) : List String :=
  match row[position]? with
  | some cell => (Text.lines cell).map Text.trim
  | none => []

/-- The line of an attribute that describes the n-th node of a group. -/
def groupLine (group : NodeGroup) (row : List String) (n : Nat) (attr : Attribute) : String :=
  match group.columns.lookup attr with
  | some position => ((cellLines row position)[n]?).getD ""
  | none => ""

/-- The number of nodes that the cells of a group can describe. -/
def lineCount (group : NodeGroup) (row : List String) : Nat :=
  (group.columns.map fun (_, position) => (cellLines row position).length).foldl max 0

/-- The nodes of a group in a row, with their relations. -/
def groupNodes (row : List String) (group : NodeGroup) :
    Except Failure (List (Relation × Node Unit)) :=
  ((List.range (lineCount group row)).mapM fun n => group.node? (groupLine group row n)).map
    fun nodes => nodes.filterMap id

/-- The nodes in a row, with their relations. -/
def rowNodes (groups : List NodeGroup) (row : List String) :
    Except Failure (List (Relation × Node Unit)) :=
  (groups.mapM (groupNodes row)).map List.flatten

def standards (headers row : List String) : Except Failure (List (Relation × Node Unit)) := do
  rowNodes (← (NodeGroup.ofHeaders headers).mapError .table) row

/-! ### Rows -/

structure Layout where
  headers : List String
  levels : List Nat
  groups : List NodeGroup

def Layout.ofHeaders (headers : List String) : Except Failure Layout := do
  if (levelColumns headers).isEmpty then throw (.table .noLevels)
  return ⟨headers, levelColumns headers, ← (NodeGroup.ofHeaders headers).mapError .table⟩

def rowNames (layout : Layout) (row : List String) : List String :=
  layout.levels.map fun position => Table.cellAt row (some position)

/-- The last name in a list that is not empty. -/
def lastName? (names : List String) : Option String :=
  (names.filter (· != "")).getLast?

/-- The parent of the name at a depth: the nearest name before it on the row, or else the last one
above at a shallower level. -/
def parent? (names above : List String) (depth : Nat) : Option String :=
  (lastName? (names.take depth)).or (lastName? (above.take depth))

/-- The last names seen, one a level, after a name at a depth; there are none at deeper levels. -/
def descend (above : List String) (depth : Nat) (name : String) : List String :=
  above.take depth ++ name :: List.replicate (above.length - depth - 1) ""

/-- A requirement of which only the name is known. -/
def named (name : String) : Requirement Unit :=
  ⟨(), none, name, "", .empty⟩

/-- The documents in a row: its requirement, and its parent that contains it. -/
def rowDocuments (layout : Layout) (row : List String) (name : String) (parent : Option String) :
    Except Failure (List (Document Unit)) := do
  let tags := TagSet.ofList (items (Table.cell layout.headers row tagsHeader))
  let externalId ← readExternalId (Table.cell layout.headers row idHeader)
  let r : Requirement Unit := ⟨(), externalId, name, "", tags⟩
  let nodes ← rowNodes layout.groups row
  let related := items (Table.cell layout.headers row relatedHeader)
  let links := (nodes.map fun (relation, n) => Link.mk relation (.ofNode n)) ++
    related.map fun other => Link.mk .related (.ofRequirement (named other))
  let above := parent.toList.map fun p =>
    Document.mk (.requirement (named p)) [.mk .contains (.ofRequirement r)]
  return .mk (.requirement r) links :: above

/-- Reads a row without a name: its nodes belong to no requirement and are dropped, but a cell that
cannot be read is reported. -/
def namelessRow (layout : Layout) (row : List String) :
    Except Failure (List (Document Unit)) :=
  (rowNodes layout.groups row).map fun _ => []

/-- Adds the rows to what was read so far; `above` holds the last names seen, one a level, and
`number` is the number of the first row. -/
def addRows (layout : Layout) (m : Merged) (above : List String) (number : Nat) :
    List (List String) → Merged
  | [] => m
  | row :: rows =>
    let names := rowNames layout row
    match Table.lastIndex? (· != "") names with
    | none => addRows layout (m.addRow number (namelessRow layout row)) above (number + 1) rows
    | some depth =>
      let name := names.getD depth ""
      addRows layout
        (m.addRow number (rowDocuments layout row name (parent? names above depth)))
        (descend above depth name) (number + 1) rows

def decode (t : Table) : Except Failure Decoded := do
  let layout ← Layout.ofHeaders t.headers
  return (addRows layout .empty (layout.levels.map fun _ => "") 1 t.rows).decoded

end Crosswalk.Outline
