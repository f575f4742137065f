import Crosswalk.Document
import Crosswalk.Table
import Crosswalk.Text.Order

/-!
# Node columns

A table has a group of columns for every outside document, one column an attribute. The header of
a column is the kind, the name of the document and the attribute, with colons between; the name
may hold colons itself. The kind is read from the left and the attribute from the right.
-/

namespace Crosswalk

inductive Attribute where
  /-- The section of a standard, or the rule of a tool. -/
  | sectionTitle
  | subsection
  | sectionId
  | hyperlink
  /-- The relation from the requirement of the row to the node. -/
  | linkType
  | description
  | toolType
deriving DecidableEq

namespace Attribute

/-- Every attribute, in the order in which columns are looked at. -/
def all : List Attribute :=
  [sectionTitle, subsection, sectionId, hyperlink, linkType, description, toolType]

def text : Attribute → String
  | sectionTitle => "section"
  | subsection => "subsection"
  | sectionId => "section_id"
  | hyperlink => "hyperlink"
  | linkType => "link_type"
  | description => "description"
  | toolType => "tool_type"

/-- The attributes that have a column for each kind of node, in the order of the columns. -/
def ofKind : NodeKind → List Attribute
  | .standard => [sectionTitle, subsection, sectionId, hyperlink, linkType]
  | .tool => [sectionTitle, hyperlink, linkType, description, toolType]
  | .code => [hyperlink, linkType, description]

/-- The text of an attribute of a node; an unknown tool type and the relation are empty. -/
def valueOf {ι : Type} (n : Node ι) : Attribute → String
  | sectionTitle => n.sectionTitle
  | subsection => n.subsection
  | sectionId => n.sectionId
  | hyperlink => n.hyperlink
  | linkType => ""
  | description => n.description
  | toolType =>
    match n.toolType? with
    | none | some .unknown => ""
    | some type => type.text

/-- Reads an attribute, spelled as it is written. -/
def ofText? (s : String) : Option Attribute :=
  all.find? fun a => a.text = s

end Attribute

/-! ### Headers -/

structure NodeColumn where
  kind : NodeKind
  name : String
  attr : Attribute
deriving DecidableEq

namespace NodeColumn

def header (c : NodeColumn) : String :=
  c.kind.text ++ ":" ++ c.name ++ ":" ++ c.attr.text

/-- The column that a header announces, if it starts with a kind and a colon. Then it needs a name
that is not blank and a known attribute. -/
def ofHeader (header : String) : Except TableFault (Option NodeColumn) :=
  match Text.cutFirst ':' header.toList with
  | none => .ok none
  | some (start, rest) =>
    match NodeKind.ofText? (String.ofList start) with
    | none => .ok none
    | some kind =>
      match Text.cutLast ':' rest with
      | none => .error (.malformedColumn header)
      | some (name, attr) =>
        let name := Text.trim (String.ofList name)
        let attr := Text.trim (String.ofList attr)
        if name = "" then .error (.malformedColumn header)
        else
          match Attribute.ofText? attr with
          | none => .error (.unknownAttribute attr)
          | some attr => .ok (some ⟨kind, name, attr⟩)

end NodeColumn

/-! ### Groups -/

/-- The columns of the nodes of one document, with their positions. -/
structure NodeGroup where
  kind : NodeKind
  name : String
  columns : List (Attribute × Nat)

namespace NodeGroup

/-- The key by which groups are ordered: the rank of the kind, then the name. -/
def orderKey (group : NodeKind × String) : List String :=
  [toString group.1.rank, group.2]

/-- The groups of some columns, by kind and name; of two columns for one attribute of a group the
last one counts. -/
def ofColumns (columns : List (Option NodeColumn)) : List NodeGroup :=
  let groups := (columns.filterMap fun c => c.map fun c => (c.kind, c.name)).eraseDups
  (Text.sortOn orderKey groups).map fun (kind, name) =>
    { kind, name
      columns := Attribute.all.filterMap fun attr =>
        (Table.lastIndex? (· = some ⟨kind, name, attr⟩) columns).map (attr, ·) }

def ofHeaders (headers : List String) : Except TableFault (List NodeGroup) :=
  (headers.mapM NodeColumn.ofHeader).map ofColumns

end NodeGroup

/-! ### Cells -/

/-- Reads a public identifier; an empty text is none. -/
def readExternalId (s : String) : Except Failure (Option ExternalId) :=
  if s = "" then .ok none
  else
    match ExternalId.ofText? s with
    | some id => .ok (some id)
    | none => .error (.externalId s)

/-- Reads a relation, which is another one where the text is empty. -/
def relationOr (s : String) (default : Relation) : Except Failure Relation :=
  if s = "" then .ok default
  else
    match Relation.ofText? s with
    | some relation => .ok relation
    | none => .error (.relation s)

def readToolType (s : String) : Except Failure ToolType :=
  match ToolType.ofText? s with
  | some type => .ok type
  | none => .error (.toolType (Text.trim s))

/-! ### Nodes -/

def detailOf (kind : NodeKind) (value : Attribute → String) : Except Failure NodeDetail :=
  match kind with
  | .standard =>
    .ok (.standard (value .sectionTitle) (value .subsection) (value .sectionId) "")
  | .tool =>
    (readToolType (value .toolType)).map fun type =>
      .tool (value .sectionTitle) type (value .description)
  | .code => .ok (.code (value .description))

/-- The node of a kind and a document that has the given attributes. -/
def nodeOf (kind : NodeKind) (name : String) (value : Attribute → String) :
    Except Failure (Node Unit) :=
  (detailOf kind value).map fun detail => ⟨(), name, value .hyperlink, .empty, detail⟩

/-- The node that the cells of a group describe and its relation, `LinkedTo` where none is given;
nothing when all the cells are empty. -/
def NodeGroup.node? (group : NodeGroup) (value : Attribute → String) :
    Except Failure (Option (Relation × Node Unit)) := do
  if group.columns.all fun (attr, _) => value attr = "" then return none
  let relation ← relationOr (value .linkType) .linkedTo
  return some (relation, ← nodeOf group.kind group.name value)

end Crosswalk
