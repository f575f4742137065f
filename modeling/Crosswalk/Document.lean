import Crosswalk.Node
import Crosswalk.Relation

/-!
# Documents

A document is an entity together with its links; each link names a relation and a peer, itself a
document. Two documents denote one entity when their identities are known to agree or when their
natural keys do, and a document never holds two links that state one relation to one entity if the
links are added one by one.
-/

namespace Crosswalk

variable {ι κ : Type}

/-! ### Entities -/

inductive Entity (ι : Type) where
  | requirement (r : Requirement ι)
  | node (n : Node ι)
deriving DecidableEq

namespace Entity

def id : Entity ι → ι
  | requirement r => r.id
  | node n => n.id

def withId (e : Entity ι) (id : κ) : Entity κ :=
  match e with
  | requirement r => requirement (r.withId id)
  | node n => node (n.withId id)

def name : Entity ι → String
  | requirement r => r.name
  | node n => n.name

def tags : Entity ι → TagSet
  | requirement r => r.tags
  | node n => n.tags

def label : Entity ι → String
  | requirement r => r.label
  | node n => n.label

/-- The requirement, if it is one. -/
def requirement? : Entity ι → Option (Requirement ι)
  | requirement r => some r
  | node _ => none

/-- The node, if it is one. -/
def node? : Entity ι → Option (Node ι)
  | requirement _ => none
  | node n => some n

def vertex : Entity StoredId → Vertex
  | requirement r => .requirement r.id
  | node n => .node n.id

end Entity

class Identity (ι : Type) where
  agree : ι → ι → Bool

instance : Identity Uuid := ⟨fun a b => a = b⟩

/-- Where there are no identities, none are known to be one. -/
instance : Identity Unit := ⟨fun _ _ => false⟩

/-- Whether two entities are one: requirements by name and public identifier, nodes by key, both
also by identity. -/
def sameEntity [Identity ι] : Entity ι → Entity ι → Bool
  | .requirement a, .requirement b =>
    Identity.agree a.id b.id || (a.name == b.name && a.externalText == b.externalText)
  | .node a, .node b => Identity.agree a.id b.id || a.key == b.key
  | _, _ => false

/-! ### Documents and links -/

mutual

inductive Document (ι : Type) where
  | mk (entity : Entity ι) (links : List (Link ι))

inductive Link (ι : Type) where
  | mk (relation : Relation) (peer : Document ι)

end

namespace Link

def relation : Link ι → Relation
  | mk relation _ => relation

def peer : Link ι → Document ι
  | mk _ peer => peer

end Link

namespace Document

def entity : Document ι → Entity ι
  | mk entity _ => entity

def links : Document ι → List (Link ι)
  | mk _ links => links

def ofEntity (e : Entity ι) : Document ι :=
  mk e []

def ofRequirement (r : Requirement ι) : Document ι :=
  ofEntity (.requirement r)

def ofNode (n : Node ι) : Document ι :=
  ofEntity (.node n)

def name (d : Document ι) : String :=
  d.entity.name

def label (d : Document ι) : String :=
  d.entity.label

def shallow (d : Document ι) : Document ι :=
  ofEntity d.entity

mutual

def mapId (f : ι → κ) : Document ι → Document κ
  | .mk entity links => .mk (entity.withId (f entity.id)) (mapLinks f links)
termination_by structural d => d

def mapLinks (f : ι → κ) : List (Link ι) → List (Link κ)
  | [] => []
  | link :: links => mapLink f link :: mapLinks f links
termination_by structural links => links

def mapLink (f : ι → κ) : Link ι → Link κ
  | .mk relation peer => .mk relation (mapId f peer)
termination_by structural link => link

end

/-- The document with the identities by which it is known outside the store. -/
def shown (d : Document StoredId) : Document Uuid :=
  d.mapId StoredId.uuid

def anonymous (d : Document ι) : Document Unit :=
  d.mapId fun _ => ()

/-- Whether the document holds a link that states the same relation to the same entity. -/
def hasLink [Identity ι] (d : Document ι) (link : Link ι) : Bool :=
  d.links.any fun l => l.relation = link.relation && sameEntity l.peer.entity link.peer.entity

/-- The document with one more link at the end, unless it holds that link. -/
def addLink [Identity ι] (d : Document ι) (link : Link ι) : Document ι :=
  if d.hasLink link then d else mk d.entity (d.links ++ [link])

/-- Whether the name or the public identifier of the entity is in the list. -/
def isAmong (wanted : List String) (e : Entity ι) : Bool :=
  wanted.contains e.name ||
    match e with
    | .requirement r => wanted.contains r.externalText
    | .node _ => false

/-- The document with only those links whose peer is in the list; an empty list keeps all. -/
def retainLinks (d : Document ι) (wanted : List String) : Document ι :=
  if wanted.isEmpty then d
  else mk d.entity (d.links.filter fun l => isAmong wanted l.peer.entity)

end Document

end Crosswalk
