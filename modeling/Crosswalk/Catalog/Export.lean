import Crosswalk.Catalog

/-!
# Exporting and checking a catalogue

The export lists every requirement with its links and then the nodes that no requirement is linked
to. The check compares the link graph with what is stored.
-/

namespace Crosswalk

inductive Problem where
  /-- The graph does not have as many vertices as there are entities. -/
  | vertexCount (vertices entities : Nat)
  /-- The graph does not have as many edges as there are links. -/
  | edgeCount (edges links : Nat)
  | danglingEnd (link : StoredId)
  | missingEdge (link : StoredId)
  | cycle (vertices : List Vertex)
deriving DecidableEq

def Problem.message : Problem → String
  | vertexCount vertices entities => s!"index has {vertices} vertices for {entities} stored entities"
  | edgeCount edges links => s!"index has {edges} edges for {links} stored links"
  | danglingEnd link => "link " ++ link.text ++ " has a dangling endpoint"
  | missingEdge link => "link " ++ link.text ++ " is missing from the index"
  | cycle vertices => "hierarchy cycle: " ++ Failure.showCycle vertices

namespace Catalog

/-- Every requirement with its links, then every node without links. -/
def exported (c : Catalog) : List (Document StoredId) :=
  (c.store.allRequirements.map fun r => c.store.hydrate (.requirement r)) ++
    (c.store.allNodes.filter fun n => (c.store.linksOf (.node n.id)).isEmpty).map .ofNode

def linkProblems (c : Catalog) (l : StoredLink) : List Problem :=
  (if (c.store.entity? l.sourceVertex).isNone || (c.store.entity? l.targetVertex).isNone then
    [.danglingEnd l.id] else []) ++
  (if l.edge ∈ c.index.edges then [] else [.missingEdge l.id])

def check (c : Catalog) : List Problem :=
  let (requirements, nodes, links) := c.store.counts
  let (vertices, edges) := c.index.size
  (if vertices = requirements + nodes then [] else [.vertexCount vertices (requirements + nodes)]) ++
  (if edges = links then [] else [.edgeCount edges links]) ++
  c.store.links.flatMap c.linkProblems ++
  (c.index.findCycle.map Problem.cycle).toList

end Catalog

end Crosswalk
