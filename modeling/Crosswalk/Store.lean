import Crosswalk.Document
import Crosswalk.StoredLink
import Crosswalk.Text.Order

/-!
# Stored entities and links

A store holds requirements, nodes and the links between them, each in the order of insertion, and
the number of identities drawn so far. Look-ups by identity, the links of an entity as the entity
sees them, and the orders in which entities are listed stand here; how entities and links come into
the store stands in the modules beside this one.
-/

namespace Crosswalk

structure Store where
  requirements : List (Requirement StoredId)
  nodes : List (Node StoredId)
  links : List StoredLink
  drawn : Nat
deriving DecidableEq

namespace Store

/-- The store without entities whose identities start at a serial number. -/
def startingAt (serial : Nat) : Store :=
  ⟨[], [], [], serial⟩

def empty : Store :=
  startingAt 0

instance : Inhabited Store := ⟨empty⟩

/-- The next identity, and the store after it has been drawn. -/
def draw (s : Store) : StoredId × Store :=
  (.ofSerial s.drawn, { s with drawn := s.drawn + 1 })

/-! ### Orders -/

/-- Requirements are listed by public identifier, then by name. -/
def requirementKey (r : Requirement StoredId) : List String :=
  [r.externalText, r.name]

/-- Nodes are listed by name, section and subsection, then by their other attributes. -/
def nodeKey (n : Node StoredId) : List String :=
  [n.name, n.sectionTitle, n.subsection, n.sectionId, n.description, n.kind.text, n.version]

/-- All nodes are listed by kind first. -/
def nodeKeyByKind (n : Node StoredId) : List String :=
  [n.kind.text, n.name, n.sectionTitle, n.subsection, n.description, n.sectionId, n.version]

def sortRequirements (rs : List (Requirement StoredId)) : List (Requirement StoredId) :=
  Text.sortOn requirementKey rs

def sortNodes (ns : List (Node StoredId)) : List (Node StoredId) :=
  Text.sortOn nodeKey ns

def allRequirements (s : Store) : List (Requirement StoredId) :=
  sortRequirements s.requirements

def allNodes (s : Store) : List (Node StoredId) :=
  Text.sortOn nodeKeyByKind s.nodes

/-! ### By identity -/

def requirement? (s : Store) (id : StoredId) : Option (Requirement StoredId) :=
  s.requirements.find? fun r => r.id = id

def node? (s : Store) (id : StoredId) : Option (Node StoredId) :=
  s.nodes.find? fun n => n.id = id

def entity? (s : Store) : Vertex → Option (Entity StoredId)
  | .requirement id => (s.requirement? id).map .requirement
  | .node id => (s.node? id).map .node

/-- The vertices of all entities, in the order in which these are listed. -/
def vertices (s : Store) : List Vertex :=
  s.allRequirements.map (fun r => .requirement r.id) ++ s.allNodes.map fun n => .node n.id

/-! ### Links of an entity -/

/-- The requirements at the other ends of some links, in order, with what each link says. -/
def peerRequirements (s : Store) (ends : List (StoredId × Relation)) :
    List (Requirement StoredId × Relation) :=
  let peers := ends.filterMap fun (id, relation) => (s.requirement? id).map (·, relation)
  Text.sortOn (fun peer => requirementKey peer.1) peers

/-- The nodes at the other ends of some links, in order, with what each link says. -/
def peerNodes (s : Store) (ends : List (StoredId × Relation)) : List (Node StoredId × Relation) :=
  let peers := ends.filterMap fun (id, relation) => (s.node? id).map (·, relation)
  Text.sortOn (fun peer => nodeKey peer.1) peers

/-- The far ends of the links of a kind that lead from a requirement. An end that is spelt otherwise
than the entity is not found. -/
def outgoing (s : Store) (kind : LinkKind) (id : StoredId) : List (StoredId × Relation) :=
  (s.links.filter fun l => l.kind = kind && l.source = id && l.endsPlain).map
    fun l => (l.target, l.relation)

/-- The near ends of the links of a kind that lead to an entity, as seen from there. -/
def incoming (s : Store) (kind : LinkKind) (id : StoredId) : List (StoredId × Relation) :=
  (s.links.filter fun l => l.kind = kind && l.target = id && l.endsPlain).map
    fun l => (l.source, l.relation.inverse)

def linkToRequirement (peer : Requirement StoredId × Relation) : Link StoredId :=
  .mk peer.2 (.ofRequirement peer.1)

def linkToNode (peer : Node StoredId × Relation) : Link StoredId :=
  .mk peer.2 (.ofNode peer.1)

/-- The links of an entity as it sees them: for a requirement those that lead to requirements, then
those that lead from requirements to it, then those to nodes. -/
def linksOf (s : Store) : Vertex → List (Link StoredId)
  | .requirement id =>
    (s.peerRequirements (s.outgoing .internal id)).map linkToRequirement ++
      (s.peerRequirements (s.incoming .internal id)).map linkToRequirement ++
      (s.peerNodes (s.outgoing .external id)).map linkToNode
  | .node id => (s.peerRequirements (s.incoming .external id)).map linkToRequirement

def hydrate (s : Store) (e : Entity StoredId) : Document StoredId :=
  .mk e (s.linksOf e.vertex)

def findLink? (s : Store) (kind : LinkKind) (a b : StoredId) : Option StoredLink :=
  s.links.find? fun l => l.kind = kind && l.joins a b && l.endsPlain

/-- The numbers of requirements, nodes and links. -/
def counts (s : Store) : Nat × Nat × Nat :=
  (s.requirements.length, s.nodes.length, s.links.length)

end Store

end Crosswalk
