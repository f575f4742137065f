import Crosswalk.Store
import Crosswalk.Table.Csv

/-!
# Archives

An archive is a store as it is kept. Its bytes are a mark that no text contains and a text of
comma-separated records: a heading with the number of identities drawn and a note whether changes
are logged ahead, then a record for every requirement, node and link, in the order of insertion.
-/

namespace Crosswalk

structure Archive where
  store : Store
  logsAhead : Bool

namespace Archive

/-! ### Records -/

/-- The field of an identity: its number in decimal digits. -/
def idField (id : StoredId) : String :=
  toString id.number

/-- The first field of the heading. -/
def headingName : String := "crosswalk catalogue"

def requirementRecord (r : Requirement StoredId) : List String :=
  ["requirement", idField r.id, r.externalText, r.name, r.description] ++ r.tags.toList

def nodeRecord (n : Node StoredId) : List String :=
  ["node", idField n.id, n.kind.text, n.name, n.sectionTitle, n.subsection, n.sectionId, n.version,
    n.description, (n.toolType?.map ToolType.text).getD "", n.hyperlink] ++ n.tags.toList

/-- The field of a spelling, empty for the plain one. -/
def spellingField : Spelling → String
  | .plain => ""
  | .other text => text

def linkRecord (l : StoredLink) : List String :=
  ["link", idField l.id, l.kind.text, idField l.source, idField l.target, l.relation.text,
    spellingField l.spelling.id, spellingField l.spelling.source, spellingField l.spelling.target]

def logField (logsAhead : Bool) : String :=
  if logsAhead then "ahead" else ""

def toRecords (a : Archive) : List (List String) :=
  [headingName, toString a.store.drawn, logField a.logsAhead] ::
    a.store.requirements.map requirementRecord ++ a.store.nodes.map nodeRecord ++
    a.store.links.map linkRecord

/-! ### Reading records -/

def readNumber (field : String) : Option Nat :=
  if field.toList.all Text.isAsciiDigit then some (Text.decimalValue field.toList) else none

def readId (field : String) : Option StoredId :=
  (readNumber field).map StoredId.mk

def readDetail (kind : NodeKind) (title subsection sectionId version description toolType : String) :
    Option NodeDetail :=
  match kind with
  | .standard => some (.standard title subsection sectionId version)
  | .tool =>
    (ToolType.all.find? fun type => type.text = toolType).map fun type => .tool title type description
  | .code => some (.code description)

def readSpelling (field : String) : Spelling :=
  if field = "" then .plain else .other field

def readLinkKind : String → Option LinkKind
  | "internal" => some .internal
  | "external" => some .external
  | _ => none

/-- The store with what a record holds at its end. -/
def addRecord (s : Store) : List String → Option Store
  | "requirement" :: id :: externalId :: name :: description :: tags => do
    let r : Requirement StoredId :=
      ⟨← readId id, ExternalId.ofText? externalId, name, description, .ofList tags⟩
    return { s with requirements := s.requirements ++ [r] }
  | "node" :: id :: kind :: name :: title :: subsection :: sectionId :: version :: description ::
      toolType :: hyperlink :: tags => do
    let detail ← readDetail (← NodeKind.ofText? kind) title subsection sectionId version description
      toolType
    let n : Node StoredId := ⟨← readId id, name, hyperlink, .ofList tags, detail⟩
    return { s with nodes := s.nodes ++ [n] }
  | ["link", id, kind, source, target, relation, idSpelling, sourceSpelling, targetSpelling] => do
    let l : StoredLink := ⟨← readId id, ← readLinkKind kind, ← readId source,
      ← readId target, ← Relation.ofText? relation,
      ⟨readSpelling idSpelling, readSpelling sourceSpelling, readSpelling targetSpelling⟩⟩
    return { s with links := s.links ++ [l] }
  | _ => none

def ofRecords? : List (List String) → Option Archive
  | [name, drawn, log] :: records =>
    if name = headingName then do
      let s ← records.foldlM addRecord (Store.startingAt (← readNumber drawn))
      return ⟨s, log = logField true⟩
    else none
  | _ => none

/-! ### Bytes -/

/-- The first byte, which occurs in no text. -/
def mark : UInt8 := 0xff

def toBytes (a : Archive) : ByteArray :=
  ByteArray.mk #[mark] ++ (Csv.write a.toRecords).toUTF8

def ofBytes? (bytes : ByteArray) : Option Archive :=
  if bytes[0]? = some mark then
    ((String.fromUTF8? (bytes.extract 1 bytes.size)).bind fun text =>
      (Csv.read text).toOption).bind ofRecords?
  else none

end Archive

end Crosswalk
