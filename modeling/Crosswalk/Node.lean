import Crosswalk.Node.Kind
import Crosswalk.Requirement

/-!
# Nodes

A node is an entry of a document outside the catalogue: a section of a standard, a rule of a tool
or a piece of code. Name, kind and some attributes identify it; an incoming node with the same key
replaces the hyperlink, fills what else is empty and adds its tags.
-/

namespace Crosswalk

inductive NodeDetail where
  | standard (sectionTitle subsection sectionId version : String)
  | tool (ruleId : String) (toolType : ToolType) (description : String)
  | code (description : String)
deriving DecidableEq

structure Node (ι : Type) where
  id : ι
  name : String
  hyperlink : String
  tags : TagSet
  detail : NodeDetail
deriving DecidableEq

structure NodeKey where
  name : String
  sectionTitle : String
  subsection : String
  kind : NodeKind
  description : String
  version : String
deriving DecidableEq

namespace NodeDetail

def kind : NodeDetail → NodeKind
  | standard .. => .standard
  | tool .. => .tool
  | code .. => .code

end NodeDetail

namespace Node

variable {ι κ : Type}

def withId (n : Node ι) (id : κ) : Node κ :=
  ⟨id, n.name, n.hyperlink, n.tags, n.detail⟩

def kind (n : Node ι) : NodeKind :=
  n.detail.kind

/-- The section of a standard, or the rule of a tool. -/
def sectionTitle (n : Node ι) : String :=
  match n.detail with
  | .standard title _ _ _ => title
  | .tool rule _ _ => rule
  | .code _ => ""

def subsection (n : Node ι) : String :=
  match n.detail with
  | .standard _ subsection _ _ => subsection
  | _ => ""

def sectionId (n : Node ι) : String :=
  match n.detail with
  | .standard _ _ sectionId _ => sectionId
  | _ => ""

def version (n : Node ι) : String :=
  match n.detail with
  | .standard _ _ _ version => version
  | _ => ""

/-- The description of a rule or a piece of code. -/
def description (n : Node ι) : String :=
  match n.detail with
  | .standard .. => ""
  | .tool _ _ description => description
  | .code description => description

def toolType? (n : Node ι) : Option ToolType :=
  match n.detail with
  | .tool _ type _ => some type
  | _ => none

def key (n : Node ι) : NodeKey :=
  ⟨n.name, n.sectionTitle, n.subsection, n.kind, n.description, n.version⟩

/-- How the node is named in messages: kind, document, and the section and subsection it has. -/
def label (n : Node ι) : String :=
  [n.sectionTitle, n.subsection].foldl
    (fun label part => if part = "" then label else label ++ ":" ++ part)
    (n.kind.text ++ " " ++ n.name)

/-- Fills the attributes that are not part of the key. An unknown tool type counts as empty. -/
def fillDetail (label : String) : NodeDetail → NodeDetail → Except Conflict (NodeDetail × Bool)
  | .standard title subsection stored version, .standard _ _ incoming _ =>
    (fillField label "section_id" stored incoming).map fun (sectionId, changed) =>
      (.standard title subsection sectionId version, changed)
  | .tool rule stored description, .tool _ incoming _ =>
    if incoming = .unknown ∨ stored = incoming then .ok (.tool rule stored description, false)
    else if stored = .unknown then .ok (.tool rule incoming description, true)
    else .error ⟨label, "tool_type", stored.text, incoming.text⟩
  | stored, _ => .ok (stored, false)

/-- The stored node with the incoming hyperlink, if there is one, its empty attributes filled and
the tags added. The flag tells whether anything changed. -/
def enrich (stored : Node ι) (incoming : Node κ) : Except Conflict (Node ι × Bool) := do
  let (detail, detailChanged) ← fillDetail stored.label stored.detail incoming.detail
  let linkChanged := incoming.hyperlink != "" && stored.hyperlink != incoming.hyperlink
  let hyperlink := if linkChanged then incoming.hyperlink else stored.hyperlink
  let (tags, tagsChanged) := addTags stored.tags incoming.tags
  return ({ stored with hyperlink, tags, detail }, detailChanged || linkChanged || tagsChanged)

end Node

end Crosswalk
