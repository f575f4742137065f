import Crosswalk.Exchange.Column
import Crosswalk.Exchange.Merge

/-!
# Sheets

The flat form of a catalogue. A sheet has three columns for the requirement of a row, groups of
three columns for the requirements it is linked to, and groups of node columns for the nodes it is
linked to. A row without the name of a requirement describes nodes on their own. Rows of one
requirement are merged; a link that contains a requirement also gives that requirement, linked
back as a part.
-/

namespace Crosswalk.Sheet

/-! ### Headers -/

def idHeader : String := "CRE:id"

def nameHeader : String := "CRE:name"

def descriptionHeader : String := "CRE:description"

def peerAttributes : List String :=
  ["id", "name", "link_type"]

def peerHeader (index : Nat) (attr : String) : String :=
  "Linked_CRE_" ++ toString index ++ ":" ++ attr

/-- The number and the attribute of a column of a linked requirement. -/
def peerColumn? (header : String) : Option (Nat × String) := do
  let rest ← Text.after? "Linked_CRE_" header
  let (index, attr) ← Text.cutFirst ':' rest.toList
  let attr := String.ofList attr
  if peerAttributes.contains attr then
    return (← Text.parseCount? (String.ofList index), attr)
  else none

/-- Whether a column that is no node column has a place in a sheet. -/
def isKnown (header : String) : Bool :=
  header = "" || [idHeader, nameHeader, descriptionHeader].contains header ||
    (peerColumn? header).isSome

/-- The first header that has no place in a sheet. -/
def unknownHeader? : List String → List (Option NodeColumn) → Option String
  | header :: headers, column :: columns =>
    if column.isSome || isKnown header then unknownHeader? headers columns else some header
  | _, _ => none

/-- The numbers under which linked requirements are looked for, in ascending order: those whose
column of names or of identifiers has the header that is written for them. The greatest number
that is read is not looked for. -/
def peerIndices (headers : List String) : List Nat :=
  let indices := headers.filterMap fun header =>
    match peerColumn? header with
    | some (index, attr) =>
      if attr ≠ "link_type" ∧ peerHeader index attr = header ∧ index + 1 < UInt64.size then some index
      else none
    | none => none
  (indices.eraseDups).mergeSort (· ≤ ·)

/-! ### Rows -/

structure Layout where
  headers : List String
  groups : List NodeGroup
  peers : List Nat

/-- The columns that the headers announce. A bad node column is reported before a header that has
no place. -/
def Layout.ofHeaders (headers : List String) : Except Failure Layout := do
  let columns ← (headers.mapM NodeColumn.ofHeader).mapError .table
  match unknownHeader? headers columns with
  | some header => throw (.table (.unrecognisedColumn header))
  | none => return ⟨headers, NodeGroup.ofColumns columns, peerIndices headers⟩

/-- The trimmed cell of an attribute in the columns of a group. -/
def groupCell (group : NodeGroup) (row : List String) (attr : Attribute) : String :=
  Table.cellAt row (group.columns.lookup attr)

/-- The nodes in a row, with their relations. -/
def rowNodes (groups : List NodeGroup) (row : List String) :
    Except Failure (List (Relation × Node Unit)) :=
  (groups.mapM fun (group : NodeGroup) => group.node? (groupCell group row)).map fun nodes =>
    nodes.filterMap id

/-- The linked requirement under a number with its relation, `Related` where none is given;
nothing when there is neither a name nor an identifier. -/
def rowPeer? (headers row : List String) (index : Nat) :
    Except Failure (Option (Link Unit)) := do
  let name := Table.cell headers row (peerHeader index "name")
  let id := Table.cell headers row (peerHeader index "id")
  if name = "" ∧ id = "" then return none
  if name = "" then throw (.table (.peerWithoutName (peerHeader index "name")))
  let externalId ← readExternalId id
  let relation ← relationOr (Table.cell headers row (peerHeader index "link_type")) .related
  return some (.mk relation (.ofRequirement ⟨(), externalId, name, "", .empty⟩))

/-- The peers that a requirement contains, each linked back to it as a part. -/
def containedPeers (r : Requirement Unit) (links : List (Link Unit)) : List (Document Unit) :=
  (links.filter fun l => l.relation = .contains).map fun l =>
    l.peer.addLink (.mk .partOf (.ofRequirement r))

/-- The documents in a row: the nodes, or the requirement with its links and the peers that it
contains. -/
def rowDocuments (layout : Layout) (row : List String) :
    Except Failure (List (Document Unit)) := do
  let nodes ← rowNodes layout.groups row
  let name := Table.cell layout.headers row nameHeader
  if name = "" then return nodes.map fun (_, n) => .ofNode n
  let description := Table.cell layout.headers row descriptionHeader
  let externalId ← readExternalId (Table.cell layout.headers row idHeader)
  let r : Requirement Unit := ⟨(), externalId, name, description, .empty⟩
  let peers ← layout.peers.mapM (rowPeer? layout.headers row)
  let links := (nodes.map fun (relation, n) => Link.mk relation (.ofNode n)) ++
    peers.filterMap id
  return .mk (.requirement r) links :: containedPeers r links

/-- Adds the rows to what was read so far; `number` is the number of the first of them. -/
def addRows (layout : Layout) (m : Merged) (number : Nat) : List (List String) → Merged
  | [] => m
  | row :: rows => addRows layout (m.addRow number (rowDocuments layout row)) (number + 1) rows

def decode (t : Table) : Except Failure Decoded :=
  (Layout.ofHeaders t.headers).map fun layout => (addRows layout .empty 1 t.rows).decoded

end Crosswalk.Sheet
