import Crosswalk.Graph.Path

/-!
# Strongly connected components

Vertices are in one component when paths lead from each of them to each other one. The components of
a list of vertices come in the order in which the list leaves the last vertex of each behind.
-/

namespace Crosswalk.Graph

variable {α : Type} [DecidableEq α]

/-- The vertices of a list that a vertex reaches and is reached from, itself included. -/
def strongComponent (arrows : List (α × α)) (vertices : List α) (a : α) : List α :=
  let below := reachable arrows a
  vertices.filter fun b => below.contains b && reaches arrows b a

/-- The components, among all vertices, that end within a list: those of the vertices that share
theirs with no later one. -/
def componentsEndingIn (arrows : List (α × α)) (vertices : List α) : List α → List (List α)
  | [] => []
  | a :: as =>
    if (strongComponent arrows as a).isEmpty then
      strongComponent arrows vertices a :: componentsEndingIn arrows vertices as
    else componentsEndingIn arrows vertices as

def strongComponents (arrows : List (α × α)) (vertices : List α) : List (List α) :=
  componentsEndingIn arrows vertices vertices

end Crosswalk.Graph
