import Crosswalk.ExternalId
import Crosswalk.Failure
import Crosswalk.TagSet

/-!
# Requirements

A requirement has an identity, perhaps a public identifier, a name, a description and tags. An
incoming requirement fills the empty fields of a stored one and adds its tags; a field that is
filled never changes.

Entities are parametrised by the type of their identities: `StoredId` for those that are stored,
`Uuid` for those that are exchanged with their identities, `Unit` for those that have none yet.
-/

namespace Crosswalk

structure Requirement (ι : Type) where
  id : ι
  externalId : Option ExternalId
  name : String
  description : String
  tags : TagSet
deriving DecidableEq

/-- Fills a field: an empty incoming text or the stored text changes nothing, an empty stored text
is replaced, and anything else is a conflict. The flag tells whether the field changed. -/
def fillField (entity field stored incoming : String) : Except Conflict (String × Bool) :=
  if incoming = "" ∨ stored = incoming then .ok (stored, false)
  else if stored = "" then .ok (incoming, true)
  else .error ⟨entity, field, stored, incoming⟩

/-- Adds tags; the flag tells whether one of them is new. -/
def addTags (stored incoming : TagSet) : TagSet × Bool :=
  let tags := stored.union incoming
  (tags, tags.size != stored.size)

namespace Requirement

variable {ι κ : Type}

/-- The text of the public identifier, empty where there is none. -/
def externalText (r : Requirement ι) : String :=
  ExternalId.textOf r.externalId

def withId (r : Requirement ι) (id : κ) : Requirement κ :=
  ⟨id, r.externalId, r.name, r.description, r.tags⟩

def label (r : Requirement ι) : String :=
  match r.externalId with
  | some id => s!"CRE {id.text} ({r.name})"
  | none => s!"CRE ({r.name})"

/-- Fills the public identifier, as `fillField` fills a text. -/
def fillExternalId (stored : Requirement ι) (incoming : Requirement κ) :
    Except Conflict (Option ExternalId × Bool) :=
  (fillField stored.label "external_id" stored.externalText incoming.externalText).map
    fun (_, changed) => (if changed then incoming.externalId else stored.externalId, changed)

/-- The stored requirement with its empty fields filled and the tags added. The flag tells whether
anything changed. -/
def enrich (stored : Requirement ι) (incoming : Requirement κ) :
    Except Conflict (Requirement ι × Bool) := do
  let (externalId, idChanged) ← fillExternalId stored incoming
  let (description, textChanged) ←
    fillField stored.label "description" stored.description incoming.description
  let (tags, tagsChanged) := addTags stored.tags incoming.tags
  return ({ stored with externalId, description, tags }, idChanged || textChanged || tagsChanged)

end Requirement

end Crosswalk
