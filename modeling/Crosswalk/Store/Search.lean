import Crosswalk.Json
import Crosswalk.Store

/-!
# Searching a store

Requirements and nodes are looked up by any of their fields, as written or as a part in any ASCII
case, and page by page; they are searched for a text in all their fields, and for tags. A text is
sought in the tags of an entity as they are stored, in one compact JSON list.
-/

namespace Crosswalk.Store

/-! ### By fields -/

/-- Whether a field answers to a key: as a part in any ASCII case when the look-up is loose, and
otherwise as written. An empty key asks for nothing. -/
def answers (loose : Bool) (field : String) (key : Option String) : Bool :=
  match key with
  | none => true
  | some key => key = "" || if loose then Text.containsFolded key field else key = field

def isSet (key : Option String) : Bool :=
  match key with
  | none => false
  | some key => key != ""

structure RequirementFilter where
  externalId : Option String := none
  internalId : Option String := none
  name : Option String := none
  description : Option String := none
  /-- Whether fields need to hold the keys only as parts. -/
  loose : Bool := false

def RequirementFilter.isEmpty (f : RequirementFilter) : Bool :=
  !([f.externalId, f.internalId, f.name, f.description].any isSet)

def RequirementFilter.accepts (f : RequirementFilter) (r : Requirement StoredId) : Bool :=
  answers f.loose r.externalText f.externalId && answers f.loose r.id.text f.internalId &&
    answers f.loose r.name f.name && answers f.loose r.description f.description

/-- The requirements that answer to all keys, in order; none when no key is set. -/
def getRequirements (s : Store) (f : RequirementFilter) : List (Requirement StoredId) :=
  if f.isEmpty then [] else sortRequirements (s.requirements.filter f.accepts)

structure NodeFilter where
  name : Option String := none
  sectionTitle : Option String := none
  subsection : Option String := none
  sectionId : Option String := none
  version : Option String := none
  hyperlink : Option String := none
  description : Option String := none
  kind : Option NodeKind := none
  loose : Bool := false

/-- Whether no key but the kind is set. -/
def NodeFilter.hasOnlyKind (f : NodeFilter) : Bool :=
  !([f.name, f.sectionTitle, f.subsection, f.sectionId, f.version, f.hyperlink,
    f.description].any isSet)

def NodeFilter.isEmpty (f : NodeFilter) : Bool :=
  f.kind.isNone && f.hasOnlyKind

def NodeFilter.accepts (f : NodeFilter) (n : Node StoredId) : Bool :=
  answers f.loose n.name f.name && answers f.loose n.sectionTitle f.sectionTitle &&
    answers f.loose n.subsection f.subsection && answers f.loose n.sectionId f.sectionId &&
    answers f.loose n.version f.version && answers f.loose n.hyperlink f.hyperlink &&
    answers f.loose n.description f.description && f.kind.all (· = n.kind)

/-- The nodes that answer to all keys, in order; at least one key must be set. -/
def getNodes (s : Store) (f : NodeFilter) : Except Failure (List (Node StoredId)) :=
  if f.isEmpty then .error .emptyFilter else .ok (sortNodes (s.nodes.filter f.accepts))

/-! ### Pages -/

/-- The greatest count and the greatest position that can be asked for. -/
def maxCount : Nat := UInt64.size / 2 - 1

def maxWord : Nat := UInt64.size - 1

/-- The items on a page; pages are numbered from one, and a zero stands for one. -/
def pageOf {α : Type} (page perPage : Nat) (items : List α) : List α :=
  let perPage := max perPage 1
  let offset := min (min ((max page 1 - 1) * perPage) maxWord) maxCount
  (items.drop offset).take (min perPage maxCount)

def pageCount {α : Type} (perPage : Nat) (items : List α) : Nat :=
  let perPage := max perPage 1
  (items.length + perPage - 1) / perPage

/-! ### By any field -/

def tagsText (tags : TagSet) : String :=
  (Json.ofTexts tags.toList).compact

/-- The tool type as it is stored, empty for other nodes. -/
def toolTypeText (n : Node StoredId) : String :=
  match n.toolType? with
  | some type => type.text
  | none => ""

def requirementFields (r : Requirement StoredId) : List String :=
  [r.externalText, r.name, r.description, tagsText r.tags]

def nodeFields (n : Node StoredId) : List String :=
  [n.kind.text, n.name, n.sectionTitle, n.subsection, n.sectionId, n.version, n.description,
    toolTypeText n, n.hyperlink, tagsText n.tags]

/-- The requirements with a text in one of their fields, in any ASCII case. -/
def searchRequirements (s : Store) (text : String) : List (Requirement StoredId) :=
  sortRequirements (s.requirements.filter fun r =>
    (requirementFields r).any (Text.containsFolded text))

/-- The nodes with a text in one of their fields, in any ASCII case. -/
def searchNodes (s : Store) (text : String) : List (Node StoredId) :=
  sortNodes (s.nodes.filter fun n => (nodeFields n).any (Text.containsFolded text))

/-! ### By tags -/

/-- Whether every wanted text is part of the tags as they are stored and of one of the tags. -/
def hasTags (wanted : List String) (tags : TagSet) : Bool :=
  wanted.all (fun w => Text.contains w (tagsText tags)) &&
    wanted.all fun w => tags.toList.any (Text.contains w)

/-- The greatest number of tags that one query can ask for. -/
def maxWanted : Nat := 997

/-- The entities that have all the wanted tags, requirements first; none when nothing is wanted. -/
def tagged (s : Store) (wanted : List String) : Except Failure (List (Entity StoredId)) :=
  if wanted.isEmpty then .ok []
  else if maxWanted < wanted.length then .error (.storage .queryTooDeep)
  else
    .ok ((sortRequirements (s.requirements.filter fun r => hasTags wanted r.tags)).map .requirement ++
      (sortNodes (s.nodes.filter fun n => hasTags wanted n.tags)).map .node)

end Crosswalk.Store
