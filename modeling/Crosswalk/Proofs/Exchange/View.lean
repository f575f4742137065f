import Crosswalk.Exchange.Column
import Crosswalk.Proofs.Entity.Bare
import Crosswalk.Proofs.Keyed
import Mathlib.Data.Set.Basic

/-!
# What documents say without identities

Documents that were read from a sheet are compared with stored ones by what a sheet can say: a
requirement at the other end of a link by its name and identifier, a node by its kind, its name and
all its attributes, and the links of a document as a set.
-/

namespace Crosswalk

variable {ι : Type}

/-- What is said of an entity at the other end of a link. -/
inductive Face where
  | requirement (name : String) (externalId : Option ExternalId)
  | node (kind : NodeKind) (name : String) (value : Attribute → String)

/-- What is said of an entity at the other end of a link. -/
def Entity.face : Entity ι → Face
  | requirement r => .requirement r.name r.externalId
  | node n => .node n.kind n.name (Attribute.valueOf n)

theorem Entity.Shows.face {e : Entity ι} {shown : Entity Unit} (h : e.Shows shown) :
    shown.face = e.face := by
  rcases h with rfl | rfl <;> cases e <;> rfl

/-- The links of a document, each as its relation and what it says of the other end. -/
def Document.linkFaces (d : Document ι) : Set (Relation × Face) :=
  {x | ∃ l ∈ d.links, (l.relation, l.peer.entity.face) = x}

/-- What the document of a requirement says. -/
structure RequirementView where
  name : String
  externalId : Option ExternalId
  description : String
  links : Set (Relation × Face)

/-- What the document of a node says. -/
structure NodeView where
  face : Face
  links : Set (Relation × Face)

/-- What the documents of requirements say. -/
def requirementViews (documents : List (Document ι)) : List RequirementView :=
  documents.filterMap fun d => d.entity.requirement?.map fun r =>
    ⟨r.name, r.externalId, r.description, d.linkFaces⟩

/-- What the documents of nodes say. -/
def nodeViews (documents : List (Document ι)) : List NodeView :=
  documents.filterMap fun d => d.entity.node?.map fun n => ⟨(Entity.node n).face, d.linkFaces⟩

/-! ### Membership -/

theorem mem_requirementViews {documents : List (Document ι)} {v : RequirementView} :
    v ∈ requirementViews documents ↔ ∃ d ∈ documents, ∃ r, d.entity = .requirement r ∧
      v = ⟨r.name, r.externalId, r.description, d.linkFaces⟩ := by
  unfold requirementViews
  rw [List.mem_filterMap]
  refine exists_congr fun d => and_congr_right fun _ => ?_
  cases d.entity <;> simp [Entity.requirement?, eq_comm]

theorem mem_nodeViews {documents : List (Document ι)} {v : NodeView} :
    v ∈ nodeViews documents ↔ ∃ d ∈ documents, ∃ n, d.entity = .node n ∧
      v = ⟨(Entity.node n).face, d.linkFaces⟩ := by
  unfold nodeViews
  rw [List.mem_filterMap]
  refine exists_congr fun d => and_congr_right fun _ => ?_
  cases d.entity <;> simp [Entity.node?, eq_comm]

/-! ### Distinct views -/

variable {documents : List (Document ι)} (h : (documents.map fun d => d.entity.face).Nodup)

include h

theorem requirementViews_nodup : (requirementViews documents).Nodup := by
  refine Keyed.nodup_filterMap (g := fun v => .requirement v.name v.externalId) h
    fun d _ v hv => ?_
  obtain ⟨r, hr, rfl⟩ := Option.map_eq_some_iff.1 hv
  cases he : d.entity with
  | requirement r' =>
    rw [he] at hr
    cases hr
    rfl
  | node n =>
    rw [he] at hr
    cases hr

theorem nodeViews_nodup : (nodeViews documents).Nodup := by
  refine Keyed.nodup_filterMap (g := NodeView.face) h fun d _ v hv => ?_
  obtain ⟨n, hn, rfl⟩ := Option.map_eq_some_iff.1 hv
  cases he : d.entity with
  | requirement r =>
    rw [he] at hn
    cases hn
  | node n' =>
    rw [he] at hn
    cases hn
    rfl

end Crosswalk
