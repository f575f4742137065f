import Crosswalk.Failure
import Crosswalk.Graph.Component
import Crosswalk.Graph.Strong
import Crosswalk.StoredLink

/-!
# The link graph

The index reflects the stored links: a vertex for every entity, an edge with its relation for every
link, and apart from these the hierarchy, an arrow from parent to child for every internal link
that contains or is part. Two vertices have one edge in each direction at most. A flag tells
whether the hierarchy is free of cycles; it is looked up on every write and brought up to date when
an arrow comes or goes.

Each requirement also keeps its arrows in the order in which a search into depth follows them. A
new arrow comes last, and the last one takes the place of an arrow that goes. The order decides
only which of several cycles is reported, and from where.
-/

namespace Crosswalk

structure Edge where
  source : Vertex
  target : Vertex
  relation : Relation
deriving DecidableEq

/-- An arrow of the hierarchy at one of its ends: the requirement at the other end, and whether it
leads there. -/
structure Incident where
  other : StoredId
  outgoing : Bool
deriving DecidableEq

structure Index where
  vertices : List Vertex
  edges : List Edge
  hierarchy : List (StoredId × StoredId)
  /-- The arrows at each requirement, in the order in which they are followed. -/
  incidence : List (StoredId × List Incident)
  acyclic : Bool
deriving DecidableEq

def StoredLink.edge (l : StoredLink) : Edge :=
  ⟨l.sourceVertex, l.targetVertex, l.relation⟩

namespace Index

def empty : Index :=
  ⟨[], [], [], [], true⟩

/-! ### Lists of edges and arrows -/

/-- The edges with one more; an edge between the same ends in the same direction gives way. -/
def setEdge (e : Edge) : List Edge → List Edge
  | [] => [e]
  | f :: fs =>
    if f.source = e.source ∧ f.target = e.target then e :: fs else f :: setEdge e fs

/-- The edges without those between two ends, in either direction. -/
def dropEdges (a b : Vertex) (edges : List Edge) : List Edge :=
  edges.filter fun e =>
    !(e.source = a && e.target = b) && !(e.source = b && e.target = a)

/-- The arrows without those between two ends, in either direction. -/
def dropArrows (a b : StoredId) (arrows : List (StoredId × StoredId)) : List (StoredId × StoredId) :=
  arrows.filter fun (s, t) => !(s = a && t = b) && !(s = b && t = a)

/-- The items after the last one has taken the place of the given one. -/
def takeOut {α : Type} [DecidableEq α] (a : α) (items : List α) : List α :=
  match items.idxOf? a, items.getLast? with
  | some i, some last => (items.set i last).dropLast
  | _, _ => items

def atVertex (a : StoredId) (change : List Incident → List Incident) :
    List (StoredId × List Incident) → List (StoredId × List Incident)
  | [] => [(a, change [])]
  | (b, at_b) :: rest => if a = b then (b, change at_b) :: rest else (b, at_b) :: atVertex a change rest

def addIncidents (parent child : StoredId) (incidence : List (StoredId × List Incident)) :
    List (StoredId × List Incident) :=
  let incidence := atVertex parent (· ++ [⟨child, true⟩]) incidence
  if parent = child then incidence else atVertex child (· ++ [⟨parent, false⟩]) incidence

def takeIncidents (parent child : StoredId) (incidence : List (StoredId × List Incident)) :
    List (StoredId × List Incident) :=
  let incidence := atVertex parent (takeOut ⟨child, true⟩) incidence
  if parent = child then incidence else atVertex child (takeOut ⟨parent, false⟩) incidence

/-! ### Changing the graph -/

/-- The graph with a vertex, at the end if it is new. -/
def addVertex (ix : Index) (v : Vertex) : Index :=
  if v ∈ ix.vertices then ix else { ix with vertices := ix.vertices ++ [v] }

/-- The graph with an arrow. The flag falls when the arrow closes a cycle. -/
def addArrow (ix : Index) (parent child : StoredId) : Index :=
  let acyclic := ix.acyclic && parent != child && !Graph.reaches ix.hierarchy child parent
  if (parent, child) ∈ ix.hierarchy then { ix with acyclic }
  else
    { ix with
      hierarchy := ix.hierarchy ++ [(parent, child)]
      incidence := addIncidents parent child ix.incidence
      acyclic }

/-- The graph with the edge of a link, its ends included. -/
def addEdge (ix : Index) (l : StoredLink) : Index :=
  let ix := (ix.addVertex l.sourceVertex).addVertex l.targetVertex
  let ix := { ix with edges := setEdge l.edge ix.edges }
  match l.arrow? with
  | some (parent, child) => ix.addArrow parent child
  | none => ix

/-- The graph without the arrows between two requirements. A fallen flag is raised again when no
cycle is left. -/
def removeArrows (ix : Index) (a b : StoredId) : Index :=
  let hierarchy := dropArrows a b ix.hierarchy
  { ix with
    hierarchy
    incidence := takeIncidents b a (takeIncidents a b ix.incidence)
    acyclic := ix.acyclic || !Graph.isCyclic hierarchy }

/-- The graph without the edges between the ends of a link, and without the arrows between them if
the link is internal. -/
def removeEdge (ix : Index) (l : StoredLink) : Index :=
  let ix := { ix with edges := dropEdges l.sourceVertex l.targetVertex ix.edges }
  match l.kind with
  | .internal => ix.removeArrows l.source l.target
  | .external => ix

/-- The graph in which a link has taken the place of an old one, if there is one. -/
def replaceEdge (ix : Index) (old : Option StoredLink) (l : StoredLink) : Index :=
  (old.elim ix ix.removeEdge).addEdge l

/-- The graph in which a link has gone again and the old one, if there is one, has come back. -/
def takeBack (ix : Index) (old : Option StoredLink) (l : StoredLink) : Index :=
  old.elim (ix.removeEdge l) (ix.removeEdge l).addEdge

def build (vertices : List Vertex) (links : List StoredLink) : Index :=
  links.foldl addEdge (vertices.foldl addVertex empty)

/-! ### Cycles -/

def requirements (ix : Index) : List StoredId :=
  ix.vertices.filterMap Vertex.requirement?

/-- The children of a requirement, in the order in which they are followed. -/
def children (ix : Index) (a : StoredId) : List StoredId :=
  ((ix.incidence.lookup a).getD []).filterMap fun i => if i.outgoing then some i.other else none

/-- The strongly connected components of the hierarchy, as a search into depth leaves them. -/
def strongComponents (ix : Index) : List (List StoredId) :=
  Graph.strongComponents ix.hierarchy (Graph.leavingOrder ix.children ix.requirements)

/-- Whether a component holds a cycle: it has several requirements, or its only one contains
itself. -/
def isCycle (ix : Index) (component : List StoredId) : Bool :=
  1 < component.length || component.head?.any fun a => (a, a) ∈ ix.hierarchy

/-- The requirements on a cycle of the hierarchy, if there is one: the first component that holds a
cycle. -/
def findCycle (ix : Index) : Option (List Vertex) :=
  if ix.acyclic then none
  else (ix.strongComponents.find? ix.isCycle).map fun component => component.map .requirement

/-- The cycle that relating one requirement to another would close, starting and ending at the
parent. What relates the two already does not count, since it would give way. -/
def closingPath? (ix : Index) (a b : StoredId) (relation : Relation) : Option (List Vertex) :=
  let ends := match relation with
    | .contains => some (a, b)
    | .partOf => some (b, a)
    | _ => none
  match ends with
  | none => none
  | some (parent, child) =>
    if parent = child then some [.requirement parent, .requirement parent]
    else if child ∈ ix.requirements ∧ parent ∈ ix.requirements then
      (Graph.shortestPath? (dropArrows a b ix.hierarchy) child parent).map fun path =>
        (parent :: path).map .requirement
    else none

/-- The cycle that relating one requirement to another would close; fails on a graph that has a
cycle already. -/
def introducesCycle (ix : Index) (a b : StoredId) (relation : Relation) :
    Except Failure (Option (List Vertex)) :=
  if ix.acyclic then .ok (ix.closingPath? a b relation)
  else .error (.fatalState (ix.findCycle.getD []))

/-! ### Looking up -/

def contains (ix : Index) (v : Vertex) : Bool :=
  ix.vertices.contains v

/-- The ends of the edges, in both directions. -/
def joined (ix : Index) : List (Vertex × Vertex) :=
  Graph.undirected (ix.edges.map fun e => (e.source, e.target))

/-- Whether two known vertices are connected when the direction of edges is ignored. -/
def hasPath (ix : Index) (a b : Vertex) : Bool :=
  ix.contains a && ix.contains b && Graph.reaches ix.joined a b

/-- A shortest path from parent to child between two requirements, both included. -/
def shortestPath? (ix : Index) (a b : StoredId) : Option (List Vertex) :=
  if a ∈ ix.requirements ∧ b ∈ ix.requirements then
    (Graph.shortestPath? ix.hierarchy a b).map fun path => path.map .requirement
  else none

/-- The vertex below the other end of an edge; loosely related ends are level. -/
def lowerEnd? (e : Edge) : Option Vertex :=
  match e.relation with
  | .related => none
  | .partOf => some e.source
  | _ => some e.target

def roots (ix : Index) : List StoredId :=
  let lower := ix.edges.filterMap lowerEnd?
  (ix.vertices.filter fun v => !lower.contains v).filterMap Vertex.requirement?

/-- The number of steps down to a requirement from the nearest root, zero if no root reaches it. -/
def depth (ix : Index) (a : StoredId) : Nat :=
  let steps := ix.roots.filterMap fun root => (ix.shortestPath? root a).map fun p => p.length - 1
  steps.min?.getD 0

/-- Every vertex with the label of its component. -/
def componentLabels (ix : Index) : List (Vertex × Nat) :=
  Graph.componentLabels (ix.edges.map fun e => (e.source, e.target)) ix.vertices

def components (ix : Index) : List (List Vertex) :=
  Graph.groups ix.componentLabels

def size (ix : Index) : Nat × Nat :=
  (ix.vertices.length, ix.edges.length)

end Index

end Crosswalk
