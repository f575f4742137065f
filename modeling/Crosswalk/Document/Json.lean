import Crosswalk.Document
import Crosswalk.Json

/-!
# Documents as JSON

A document is an object with a `doctype`, the fields of its entity and its links; a link is an
object with the text of its relation and the document of its peer. Empty texts, tags and links are
left out, and so is a public identifier that is not set. Reading takes the fields in any order,
ignores those it does not know and fills in the ones left out.

Reading takes more than is written. A requirement may be a list that starts with its `doctype` and
goes on with its fields in their order, of which those at the end may be left out; a link may be a
list of its two fields. A kind may be given by its number and, within another document, so may a
`doctype`.
-/

namespace Crosswalk

/-- The type of a document; the order is that of the numbers. -/
inductive Doctype where
  | requirement
  | node
deriving DecidableEq

namespace Doctype

def all : List Doctype :=
  [requirement, node]

def text : Doctype → String
  | requirement => "CRE"
  | node => "Node"

end Doctype

namespace Document

/-! ### Writing -/

/-- The field of a text, left out when the text is empty. -/
def textField (name s : String) : List (String × Json) :=
  if s = "" then [] else [(name, .text s)]

/-- The field of the tags, left out when there are none. -/
def tagsField (tags : TagSet) : List (String × Json) :=
  if tags.isEmpty then [] else [("tags", .ofTexts tags.toList)]

def externalIdField (id : Option ExternalId) : List (String × Json) :=
  match id with
  | some id => [("external_id", .text id.text)]
  | none => []

def detailFields : NodeDetail → List (String × Json)
  | .standard title subsection sectionId version =>
    ("kind", .text NodeKind.standard.text) :: textField "section" title ++
      textField "subsection" subsection ++ textField "section_id" sectionId ++
      textField "version" version
  | .tool rule type description =>
    ("kind", .text NodeKind.tool.text) :: textField "rule_id" rule ++
      [("tool_type", .text type.text)] ++ textField "description" description
  | .code description => ("kind", .text NodeKind.code.text) :: textField "description" description

def entityFields : Entity Uuid → List (String × Json)
  | .requirement r =>
    ("internal_id", .text r.id.text) :: externalIdField r.externalId ++ [("name", .text r.name)] ++
      textField "description" r.description ++ tagsField r.tags
  | .node n =>
    ("id", .text n.id.text) :: ("name", .text n.name) :: textField "hyperlink" n.hyperlink ++
      tagsField n.tags ++ detailFields n.detail

def doctype {ι : Type} : Entity ι → Doctype
  | .requirement _ => .requirement
  | .node _ => .node

/-- The field of the links, left out when there are none. -/
def linksField (links : List Json) : List (String × Json) :=
  if links.isEmpty then [] else [("links", .list links)]

mutual

def fields : Document Uuid → List (String × Json)
  | .mk entity links => entityFields entity ++ linksField (linksJson links)
termination_by structural d => d

def linksJson : List (Link Uuid) → List Json
  | [] => []
  | link :: links => linkJson link :: linksJson links
termination_by structural links => links

def linkJson : Link Uuid → Json
  | .mk relation peer =>
    .object [("ltype", .text relation.text),
      ("document", .object (("doctype", .text (doctype peer.entity).text) :: fields peer))]
termination_by structural link => link

end

def toJson (d : Document Uuid) : Json :=
  .object (("doctype", .text (doctype d.entity).text) :: d.fields)

def toBareJson (d : Document Uuid) : Json :=
  .object d.fields

/-! ### Reading -/

def readText (name : String) (fields : List (String × Json)) : Option String :=
  (Json.field? name fields).bind Json.text?

/-- A text that is empty when it is left out. -/
def readTextOr (name : String) (fields : List (String × Json)) : Option String :=
  match Json.field? name fields with
  | none => some ""
  | some j => j.text?

/-- The tags, none when they are left out. -/
def readTags (fields : List (String × Json)) : Option TagSet :=
  match Json.field? "tags" fields with
  | none => some .empty
  | some j => j.texts?.map TagSet.ofList

/-- The public identifier: left out, null or well formed. -/
def readExternalId (fields : List (String × Json)) : Option (Option ExternalId) :=
  match Json.field? "external_id" fields with
  | none | some .null => some none
  | some j => (j.text?.bind ExternalId.ofText?).map some

def readId (name : String) (fields : List (String × Json)) : Option Uuid :=
  (readText name fields).bind Uuid.ofText?

/-- The name of a tool type: a text, or the only field of an object that holds nothing. -/
def toolTypeName? : Json → Option String
  | .text s => some s
  | .object [(name, .null)] => some name
  | .object [(name, .object [])] => some name
  | _ => none

/-- The tool type: unknown when it is left out, otherwise spelled as it is written. -/
def readToolType (fields : List (String × Json)) : Option ToolType :=
  match Json.field? "tool_type" fields with
  | none => some .unknown
  | some j => (toolTypeName? j).bind fun s => ToolType.all.find? fun type => type.text = s

/-- The attributes of a node, by its kind. -/
def readDetail (fields : List (String × Json)) : Option NodeDetail := do
  match ← (Json.field? "kind" fields).bind (Json.choice? NodeKind.all NodeKind.text true) with
  | .standard =>
    return .standard (← readTextOr "section" fields) (← readTextOr "subsection" fields)
      (← readTextOr "section_id" fields) (← readTextOr "version" fields)
  | .tool =>
    return .tool (← readTextOr "rule_id" fields) (← readToolType fields)
      (← readTextOr "description" fields)
  | .code => return .code (← readTextOr "description" fields)

def readRequirement (fields : List (String × Json)) : Option (Requirement Uuid) := do
  return ⟨← readId "internal_id" fields, ← readExternalId fields, ← readText "name" fields,
    ← readTextOr "description" fields, ← readTags fields⟩

def readNode (fields : List (String × Json)) : Option (Node Uuid) := do
  return ⟨← readId "id" fields, ← readText "name" fields, ← readTextOr "hyperlink" fields,
    ← readTags fields, ← readDetail fields⟩

def readEntity (type : Doctype) (fields : List (String × Json)) : Option (Entity Uuid) :=
  match type with
  | .requirement => (readRequirement fields).map .requirement
  | .node => (readNode fields).map .node

/-- The fields of a requirement in their order, before its links. -/
def requirementFields : List String :=
  ["internal_id", "external_id", "name", "description", "tags"]

/-- The entity of the items of a list; only a requirement may be written so. The items stand for its
fields and links in their order, and there are no more of them. -/
def readListed (type : Doctype) (items : List Json) : Option (Entity Uuid) :=
  if type = .requirement ∧ items.length ≤ requirementFields.length + 1 then
    readEntity .requirement (requirementFields.zip items)
  else none

/-- The type that a value names, by its number only where numbers count. -/
def readDoctype (byNumber : Bool) (j : Json) : Option Doctype :=
  j.choice? Doctype.all Doctype.text byNumber

def readRelation (j : Json) : Option Relation :=
  j.text?.bind Relation.ofText?

mutual

/-- Reads a document, its type by number only where numbers count; they do in the documents within
it. -/
def read (byNumber : Bool) : Json → Option (Document Uuid)
  | .object fields => do
    let type ← readDoctype byNumber (← Json.field? "doctype" fields)
    return .mk (← readEntity type fields) (← readLinks true fields)
  | .list (type :: items) => do
    return .mk (← readListed (← readDoctype byNumber type) items)
      (← readLinksAt true requirementFields.length items)
  | _ => none
termination_by structural j => j

/-- The links among the fields of a document, none when they are left out. -/
def readLinks (byNumber : Bool) : List (String × Json) → Option (List (Link Uuid))
  | [] => some []
  | (name, value) :: rest =>
    if name = "links" then readLinkList byNumber value else readLinks byNumber rest
termination_by structural fields => fields

/-- The links at a place of a list, none when the list ends before it. -/
def readLinksAt (byNumber : Bool) : Nat → List Json → Option (List (Link Uuid))
  | _, [] => some []
  | 0, item :: _ => readLinkList byNumber item
  | place + 1, _ :: items => readLinksAt byNumber place items
termination_by structural _ items => items

def readLinkList (byNumber : Bool) : Json → Option (List (Link Uuid))
  | .list items => readLinkItems byNumber items
  | _ => none
termination_by structural j => j

def readLinkItems (byNumber : Bool) : List Json → Option (List (Link Uuid))
  | [] => some []
  | item :: items => do
    return (← readLink byNumber item) :: (← readLinkItems byNumber items)
termination_by structural items => items

def readLink (byNumber : Bool) : Json → Option (Link Uuid)
  | .object fields => do
    return .mk (← readRelation (← Json.field? "ltype" fields)) (← readPeer byNumber fields)
  | .list [relation, peer] => do
    return .mk (← readRelation relation) (← read byNumber peer)
  | _ => none
termination_by structural j => j

def readPeer (byNumber : Bool) : List (String × Json) → Option (Document Uuid)
  | [] => none
  | (name, value) :: rest =>
    if name = "document" then read byNumber value else readPeer byNumber rest
termination_by structural fields => fields

end

def ofJson? (j : Json) : Option (Document Uuid) :=
  read false j

/-- Reads a document of a known type, which it does not name. -/
def ofBareJson? (type : Doctype) : Json → Option (Document Uuid)
  | .object fields => do return .mk (← readEntity type fields) (← readLinks false fields)
  | .list items => do
    return .mk (← readListed type items) (← readLinksAt false requirementFields.length items)
  | _ => none

end Document

end Crosswalk
