/-!
# Components of finite graphs

Vertices are in one component when arrows connect them, whatever their direction. Every vertex has a
label, at first its position among the vertices. The arrows are taken one after the other, and each
of them makes one component of the two that it joins: the vertices with the label of its end get the
label of its start.
-/

namespace Crosswalk.Graph

variable {α : Type} [DecidableEq α]

/-- The labels after the components of two vertices have become one; vertices without a label join
nothing. -/
def unite (labels : List (α × Nat)) (arrow : α × α) : List (α × Nat) :=
  match labels.lookup arrow.1, labels.lookup arrow.2 with
  | some k, some l => labels.map fun (v, m) => (v, if m = l then k else m)
  | _, _ => labels

/-- The vertices with their labels; those of one component have the same. -/
def componentLabels (arrows : List (α × α)) (vertices : List α) : List (α × Nat) :=
  arrows.foldl unite vertices.zipIdx

/-- The vertices grouped by their labels. -/
def groups (labels : List (α × Nat)) : List (List α) :=
  (labels.map (·.2)).eraseDups.map fun k => (labels.filter fun (_, l) => l = k).map (·.1)

end Crosswalk.Graph
