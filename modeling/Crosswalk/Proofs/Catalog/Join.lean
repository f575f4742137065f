import Crosswalk.Proofs.Catalog.Consistent
import Crosswalk.Proofs.Store.View

/-!
# Joining stored entities

Joining two stored entities, whatever their sorts and from whichever end, settles one link between
them. The first one sees of that link what has been wanted, and the link is left as it is exactly
when the one that stands there is already seen so. Where none stands, a link that brings no cycle is created.
-/

namespace Crosswalk

variable {c : Catalog} {kind : LinkKind} {a b : StoredId} {relation : Relation}

theorem StoredLink.seenFrom_comm_iff {l : StoredLink} {v w : Vertex} :
    (w, relation) ∈ l.seenFrom v ↔ (v, relation.inverse) ∈ l.seenFrom w := by
  refine ⟨seenFrom_comm, fun h => ?_⟩
  have hback := seenFrom_comm h
  rwa [Relation.inverse_inverse] at hback

/-- A link between two requirements states what the first one sees of it. -/
theorem StoredLink.states_iff {l : StoredLink} (hkind : l.kind = .internal)
    (hjoins : l.joins a b = true) :
    Catalog.states l a b relation = true ↔
      (.requirement b, relation) ∈ l.seenFrom (.requirement a) := by
  obtain ⟨id, kind, source, target, lrelation, spelling⟩ := l
  obtain rfl : kind = .internal := hkind
  have hinverse : lrelation = relation.inverse ↔ lrelation.inverse = relation := by
    constructor
    · rintro rfl
      exact Relation.inverse_inverse _
    · rintro rfl
      exact (Relation.inverse_inverse _).symm
  simp only [joins, LinkKind.joins, Bool.or_eq_true, Bool.and_eq_true, decide_eq_true_eq] at hjoins
  simp only [Catalog.states, mem_seenFrom, sourceVertex, targetVertex, Bool.or_eq_true,
    Bool.and_eq_true, decide_eq_true_eq, Vertex.requirement.injEq, hinverse]
  rcases hjoins with ⟨rfl, rfl⟩ | ⟨rfl, rfl⟩ <;> tauto

namespace Catalog

theorem orient_seenFrom {l : StoredLink} {source target : StoredId} {oriented : Relation}
    (h : orient a b relation = (source, target, oriented)) :
    (.requirement target, oriented) ∈ l.seenFrom (.requirement source) ↔
      (.requirement b, relation) ∈ l.seenFrom (.requirement a) := by
  unfold orient at h
  split at h <;> cases h
  · exact StoredLink.seenFrom_comm_iff
  · exact .rfl

/-- What joining two entities comes to: a link between them is settled. -/
structure Joins (c : Catalog) (v w : Vertex) (relation : Relation)
    (result : Except Failure (LinkOutcome × Catalog)) (kind : LinkKind) (a b : StoredId)
    (oriented : Relation) (same : Bool) : Prop where
  eq : result = .ok (c.settle kind a b oriented same)
  /-- The link that would be written is seen as wanted. -/
  seen : (w, relation) ∈ (c.store.linkFor kind a b oriented).seenFrom v
  /-- Between requirements a part is written as contained. -/
  no_part : kind = .internal → oriented ≠ .partOf
  same_iff : same = true ↔
    ∃ l, c.store.findLink? kind a b = some l ∧ (w, relation) ∈ l.seenFrom v

theorem Joins.ends {v w : Vertex} {result : Except Failure (LinkOutcome × Catalog)}
    {oriented : Relation} {same : Bool} (h : Joins c v w relation result kind a b oriented same)
    (hv : v ∈ c.store.vertices) (hw : w ∈ c.store.vertices) :
    (c.store.linkFor kind a b oriented).sourceVertex ∈ c.store.vertices ∧
      (c.store.linkFor kind a b oriented).targetVertex ∈ c.store.vertices := by
  rcases StoredLink.mem_seenFrom.1 h.seen with ⟨hs, ht, -⟩ | ⟨ht, hs, -⟩ <;> rw [hs, ht]
  · exact ⟨hv, hw⟩
  · exact ⟨hw, hv⟩

namespace Consistent

theorem joins_oriented (h : c.Consistent) (ha : .requirement a ∈ c.store.vertices)
    (hb : .requirement b ∈ c.store.vertices) {source target : StoredId} {oriented : Relation}
    (horient : orient a b relation = (source, target, oriented)) :
    ∃ same, Joins c (.requirement a) (.requirement b) relation
      (c.joinRequirements a b relation) .internal source target oriented same := by
  refine ⟨_, h.joinRequirements_eq ha hb horient,
    (orient_seenFrom horient).1 (StoredLink.mem_seenFrom.2 (.inl ⟨rfl, rfl, rfl⟩)),
    fun _ => orient_ne_partOf horient, ?_⟩
  rw [Option.any_eq_true]
  refine exists_congr fun l => and_congr_right fun hfind => ?_
  obtain ⟨-, hkind, hjoins⟩ := Store.findLink?_some hfind
  rw [StoredLink.states_iff hkind hjoins, orient_seenFrom horient]

theorem joins_requirements (h : c.Consistent) (ha : .requirement a ∈ c.store.vertices)
    (hb : .requirement b ∈ c.store.vertices) (relation : Relation) :
    ∃ source target oriented same, Joins c (.requirement a) (.requirement b) relation
      (c.joinRequirements a b relation) .internal source target oriented same := by
  obtain ⟨⟨source, target, oriented⟩, horient⟩ : ∃ o, orient a b relation = o := ⟨_, rfl⟩
  exact ⟨source, target, oriented, h.joins_oriented ha hb horient⟩

theorem joins_node (h : c.Consistent) (ha : .requirement a ∈ c.store.vertices)
    (hb : .node b ∈ c.store.vertices) (relation : Relation) :
    ∃ same, Joins c (.requirement a) (.node b) relation (c.joinNode a b relation) .external a b
      relation same := by
  refine ⟨_, h.joinNode_eq ha hb, StoredLink.mem_seenFrom.2 (.inl ⟨rfl, rfl, rfl⟩),
    fun hkind => (by cases hkind), ?_⟩
  rw [Option.any_eq_true]
  refine exists_congr fun l => and_congr_right fun hfind => ?_
  obtain ⟨-, hkind, hjoins⟩ := Store.findLink?_some hfind
  obtain ⟨id, lkind, source, target, lrelation, spelling⟩ := l
  obtain rfl : lkind = .external := hkind
  simp only [StoredLink.joins, LinkKind.joins, Bool.and_eq_true, decide_eq_true_eq] at hjoins
  simp [StoredLink.mem_seenFrom, StoredLink.sourceVertex, StoredLink.targetVertex, hjoins]

/-- Two stored entities that are not both nodes are joined by settling a link between them. -/
theorem joins (h : c.Consistent) {e e' : Entity StoredId} (he : e.vertex ∈ c.store.vertices)
    (he' : e'.vertex ∈ c.store.vertices)
    (hsorts : e.vertex.isRequirement = true ∨ e'.vertex.isRequirement = true)
    (relation : Relation) :
    ∃ kind a b oriented same,
      Joins c e.vertex e'.vertex relation (c.joinEntities e e' relation) kind a b oriented same := by
  cases e with
  | requirement r =>
    cases e' with
    | requirement r' => exact ⟨_, h.joins_requirements he he' relation⟩
    | node n =>
      obtain ⟨same, hjoins⟩ := h.joins_node he he' relation
      exact ⟨_, _, _, _, same, hjoins⟩
  | node n =>
    cases e' with
    | requirement r =>
      -- the node sees the relation from its own end
      obtain ⟨same, hjoins⟩ := h.joins_node he' he relation.inverse
      refine ⟨_, _, _, _, same, hjoins.eq, StoredLink.seenFrom_comm_iff.2 hjoins.seen,
        hjoins.no_part, hjoins.same_iff.trans ?_⟩
      exact exists_congr fun l => and_congr_right fun _ => StoredLink.seenFrom_comm_iff.symm
    | node n' =>
      rcases hsorts with hsort | hsort <;> cases hsort

/-- Where no link stands, one is created if it brings no cycle. -/
theorem settle_new (h : c.Consistent)
    (hends : (c.store.linkFor kind a b relation).sourceVertex ∈ c.store.vertices ∧
      (c.store.linkFor kind a b relation).targetVertex ∈ c.store.vertices)
    (hpart : kind = .internal → relation ≠ .partOf) (hnone : c.store.findLink? kind a b = none)
    (hacyclic : Graph.Acyclic ((c.store.linkFor kind a b relation :: c.store.links).filterMap
      StoredLink.arrow?)) :
    c.settle kind a b relation false = (.created, c.written kind a b relation) ∧
      (c.written kind a b relation).Consistent := by
  rw [← h.sound.linksOnce.otherLinks_of_none hnone] at hacyclic
  refine ⟨?_, h.written_consistent hends hpart hacyclic⟩
  unfold settle writeOutcome
  rw [(h.closingPath?_eq_none_iff hends hpart).2 hacyclic, hnone]
  rfl

end Consistent

end Catalog

end Crosswalk
