/-!
# Paths in finite graphs

A graph is the list of its arrows. One search finds a shortest path to every vertex that can be
reached from a given one: round by round, each path found in the round before is prolonged by the
successors of its end that have not been seen yet. As many rounds as there are arrows are enough.
A second search goes into depth and lists vertices in the order in which it leaves them.
-/

namespace Crosswalk.Graph

variable {α : Type} [DecidableEq α]

/-- The vertices to which an arrow leads from a vertex, in the order of the arrows. -/
def successors (arrows : List (α × α)) (a : α) : List α :=
  arrows.filterMap fun (s, t) => if s = a then some t else none

def undirected (arrows : List (α × α)) : List (α × α) :=
  arrows ++ arrows.map fun (s, t) => (t, s)

theorem mem_successors {arrows : List (α × α)} {a b : α} :
    b ∈ successors arrows a ↔ (a, b) ∈ arrows := by
  simp only [successors, List.mem_filterMap, Prod.exists]
  constructor
  · rintro ⟨s, t, h, hst⟩
    split at hst <;> simp_all
  · intro h
    exact ⟨a, b, h, by simp⟩

/-! ### Shortest paths -/

/-- The paths one step longer than some paths, each given by its end and the vertices before, and
the vertices seen by then. Every vertex that is new ends one path. -/
def prolong (next : α → List α) :
    List (α × List α) → List α → List (α × List α) × List α
  | [], seen => ([], seen)
  | (a, before) :: paths, seen =>
    let fresh := ((next a).filter fun b => !seen.contains b).eraseDups
    let (longer, seen) := prolong next paths (seen ++ fresh)
    (fresh.map (fun b => (b, a :: before)) ++ longer, seen)

/-- The given paths and those that some more rounds find. -/
def search (next : α → List α) : Nat → List (α × List α) → List α → List (α × List α)
  | 0, paths, _ => paths
  | rounds + 1, paths, seen =>
    if paths.isEmpty then []
    else
      let (longer, seen) := prolong next paths seen
      paths ++ search next rounds longer seen

/-- A shortest path from a vertex to each vertex that it reaches, itself included. -/
def pathsFrom (arrows : List (α × α)) (a : α) : List (α × List α) :=
  search (successors arrows) arrows.length [(a, [])] [a]

/-- A shortest path between two vertices, both ends included. -/
def shortestPath? (arrows : List (α × α)) (a b : α) : Option (List α) :=
  ((pathsFrom arrows a).find? fun path => path.1 = b).map fun (b, before) => (b :: before).reverse

/-- The vertices that can be reached from a vertex, itself included. -/
def reachable (arrows : List (α × α)) (a : α) : List α :=
  (pathsFrom arrows a).map (·.1)

/-- Whether a path leads from the first vertex to the second one. -/
def reaches (arrows : List (α × α)) (a b : α) : Bool :=
  (reachable arrows a).contains b

/-! ### Cycles -/

def isCyclic (arrows : List (α × α)) : Bool :=
  arrows.any fun (s, t) => reaches arrows t s

/-! ### Leaving order -/

/-- Goes into depth from a vertex, unless it has been seen; the state holds the vertices seen and
the vertices left, the last one first. The number bounds the depth. -/
def visit (next : α → List α) : Nat → α → List α × List α → List α × List α
  | 0, _, state => state
  | depth + 1, a, (seen, left) =>
    if seen.contains a then (seen, left)
    else
      let (seen, left) :=
        (next a).foldl (fun state b => visit next depth b state) (a :: seen, left)
      (seen, a :: left)

/-- The vertices in the order in which a search into depth leaves them. -/
def leavingOrder (next : α → List α) (vertices : List α) : List α :=
  let (_, left) :=
    vertices.foldl (fun state a => visit next (vertices.length + 1) a state) ([], [])
  left.reverse

end Crosswalk.Graph
