import Crosswalk.Proofs.Store.Sound
import Mathlib

/-!
# Links as their ends see them

Each stored link is seen by both of its ends: by its source as it is stored, by its target with the
inverse relation. The links of an entity are, up to their order, what it sees of the stored links,
and in a sound store every end that is seen is stored.
-/

namespace Crosswalk

/-- What an entity sees of a link: the other end and the relation to it. A link that joins an entity
with itself is seen twice. -/
def StoredLink.seenFrom (l : StoredLink) (v : Vertex) : List (Vertex × Relation) :=
  (if l.sourceVertex = v then [(l.targetVertex, l.relation)] else []) ++
    if l.targetVertex = v then [(l.sourceVertex, l.relation.inverse)] else []

theorem StoredLink.mem_seenFrom {l : StoredLink} {v w : Vertex} {relation : Relation} :
    (w, relation) ∈ l.seenFrom v ↔
      (l.sourceVertex = v ∧ l.targetVertex = w ∧ l.relation = relation) ∨
        (l.targetVertex = v ∧ l.sourceVertex = w ∧ l.relation.inverse = relation) := by
  unfold seenFrom
  rw [List.mem_append]
  refine or_congr ?_ ?_
  · by_cases h : l.sourceVertex = v <;> simp [h, eq_comm]
  · by_cases h : l.targetVertex = v <;> simp [h, eq_comm]

theorem StoredLink.not_apart_of_seenFrom {l m : StoredLink} {v w : Vertex}
    {relation relation' : Relation} (hl : (w, relation) ∈ l.seenFrom v)
    (hm : (w, relation') ∈ m.seenFrom v) : ¬ l.Apart m := by
  unfold Apart
  rcases mem_seenFrom.1 hl with ⟨hls, hlt, -⟩ | ⟨hlt, hls, -⟩ <;>
    rcases mem_seenFrom.1 hm with ⟨hms, hmt, -⟩ | ⟨hmt, hms, -⟩ <;>
    simp [hls, hlt, hms, hmt]

theorem StoredLink.seenFrom_comm {l : StoredLink} {v w : Vertex} {relation : Relation}
    (h : (w, relation) ∈ l.seenFrom v) : (v, relation.inverse) ∈ l.seenFrom w := by
  rw [mem_seenFrom] at h ⊢
  rcases h with ⟨hs, ht, hrel⟩ | ⟨ht, hs, hrel⟩
  · exact .inr ⟨ht, hs, congrArg _ hrel⟩
  · exact .inl ⟨hs, ht, by rw [← hrel, Relation.inverse_inverse]⟩

/-- A link is seen in one way from one end and in the inverse way from the other. -/
theorem StoredLink.seenFrom_cases {l : StoredLink} {v w v' w' : Vertex} {relation relation' : Relation}
    (h : (w, relation) ∈ l.seenFrom v) (h' : (w', relation') ∈ l.seenFrom v') :
    (v' = v ∧ w' = w ∧ relation' = relation) ∨ (v' = w ∧ w' = v ∧ relation' = relation.inverse) := by
  rcases mem_seenFrom.1 h with ⟨rfl, rfl, rfl⟩ | ⟨rfl, rfl, rfl⟩ <;>
    rcases mem_seenFrom.1 h' with ⟨rfl, rfl, rfl⟩ | ⟨rfl, rfl, rfl⟩
  · exact .inl ⟨rfl, rfl, rfl⟩
  · exact .inr ⟨rfl, rfl, rfl⟩
  · exact .inr ⟨rfl, rfl, (Relation.inverse_inverse _).symm⟩
  · exact .inl ⟨rfl, rfl, rfl⟩

/-- The arrow of a link is the containment that its parent sees. -/
theorem StoredLink.arrow?_iff_seenFrom {l : StoredLink} {p c : StoredId} :
    l.arrow? = some (p, c) ↔ (.requirement c, .contains) ∈ l.seenFrom (.requirement p) := by
  have hinverse : l.relation.inverse = .contains ↔ l.relation = .partOf := by
    cases l.relation <;> simp [Relation.inverse]
  rw [arrow?_eq_some, mem_seenFrom, hinverse]
  tauto

namespace Store

/-- What an entity sees of the stored links. -/
def seen (s : Store) (v : Vertex) : List (Vertex × Relation) :=
  s.links.flatMap fun l => l.seenFrom v

/-- The link to an entity that is seen. -/
def linkTo? (s : Store) (far : Vertex × Relation) : Option (Link StoredId) :=
  (s.entity? far.1).map fun e => .mk far.2 (.ofEntity e)

/-! ### The three lists of a requirement and the one of a node -/

theorem peerRequirements_perm (s : Store) (ends : List (StoredId × Relation)) :
    ((s.peerRequirements ends).map linkToRequirement).Perm
      ((ends.map fun e => (Vertex.requirement e.1, e.2)).filterMap s.linkTo?) := by
  unfold peerRequirements
  refine ((Text.sortOn_perm _ _).map _).trans (.of_eq ?_)
  rw [List.map_filterMap, List.filterMap_map]
  refine List.filterMap_congr fun e _ => ?_
  obtain ⟨id, relation⟩ := e
  show Option.map _ (Option.map _ (s.requirement? id)) = s.linkTo? (.requirement id, relation)
  rw [linkTo?, entity?, Option.map_map, Option.map_map]
  rfl

theorem peerNodes_perm (s : Store) (ends : List (StoredId × Relation)) :
    ((s.peerNodes ends).map linkToNode).Perm
      ((ends.map fun e => (Vertex.node e.1, e.2)).filterMap s.linkTo?) := by
  unfold peerNodes
  refine ((Text.sortOn_perm _ _).map _).trans (.of_eq ?_)
  rw [List.map_filterMap, List.filterMap_map]
  refine List.filterMap_congr fun e _ => ?_
  obtain ⟨id, relation⟩ := e
  show Option.map _ (Option.map _ (s.node? id)) = s.linkTo? (.node id, relation)
  rw [linkTo?, entity?, Option.map_map, Option.map_map]
  rfl

theorem map_filter_eq_flatMap {α β : Type} (p : α → Bool) (f : α → β) (items : List α) :
    (items.filter p).map f = items.flatMap fun a => if p a then [f a] else [] := by
  induction items with
  | nil => rfl
  | cons a items ih => by_cases h : p a <;> simp [h, ih]

/-- In plain spelling the far ends of all links are found. -/
theorem outgoing_eq {s : Store} (hs : ∀ l ∈ s.links, l.spelling = .plain) (kind : LinkKind)
    (id : StoredId) : s.outgoing kind id =
      (s.links.filter fun l => l.kind = kind && l.source = id).map fun l => (l.target, l.relation) := by
  unfold outgoing
  refine congrArg (List.map _) (List.filter_congr fun l hl => ?_)
  rw [StoredLink.endsPlain, hs l hl]
  exact Bool.and_true _

theorem incoming_eq {s : Store} (hs : ∀ l ∈ s.links, l.spelling = .plain) (kind : LinkKind)
    (id : StoredId) : s.incoming kind id =
      (s.links.filter fun l => l.kind = kind && l.target = id).map
        fun l => (l.source, l.relation.inverse) := by
  unfold incoming
  refine congrArg (List.map _) (List.filter_congr fun l hl => ?_)
  rw [StoredLink.endsPlain, hs l hl]
  exact Bool.and_true _

/-- A requirement sees the links that lead to requirements, those that lead from requirements to it
and those that lead to nodes. -/
theorem seen_requirement {s : Store} (hs : ∀ l ∈ s.links, l.spelling = .plain) (id : StoredId) :
    (s.seen (.requirement id)).Perm
      ((s.outgoing .internal id).map (fun e => (Vertex.requirement e.1, e.2)) ++
        (s.incoming .internal id).map (fun e => (Vertex.requirement e.1, e.2)) ++
        (s.outgoing .external id).map fun e => (Vertex.node e.1, e.2)) := by
  rw [outgoing_eq hs, outgoing_eq hs, incoming_eq hs]
  unfold seen
  rw [List.map_map, List.map_map, List.map_map, map_filter_eq_flatMap, map_filter_eq_flatMap,
    map_filter_eq_flatMap]
  have hsplit : ∀ l : StoredLink, l.seenFrom (.requirement id) =
      ((if l.kind = .internal && l.source = id then [(.requirement l.target, l.relation)] else []) ++
        (if l.kind = .internal && l.target = id then
          [(.requirement l.source, l.relation.inverse)] else [])) ++
      if l.kind = .external && l.source = id then [(.node l.target, l.relation)] else [] := by
    rintro ⟨lid, kind, source, target, relation, spelling⟩
    cases kind <;>
      simp [StoredLink.seenFrom, StoredLink.sourceVertex, StoredLink.targetVertex]
  simp only [hsplit]
  exact (List.flatMap_append_perm _ _ _).symm.trans
    ((List.flatMap_append_perm _ _ _).symm.append_right _)

theorem seen_node {s : Store} (hs : ∀ l ∈ s.links, l.spelling = .plain) (id : StoredId) :
    s.seen (.node id) =
      (s.incoming .external id).map fun e => (Vertex.requirement e.1, e.2) := by
  rw [incoming_eq hs]
  unfold seen
  rw [List.map_map, map_filter_eq_flatMap]
  refine List.flatMap_congr fun l _ => ?_
  obtain ⟨lid, kind, source, target, relation, spelling⟩ := l
  cases kind <;> simp [StoredLink.seenFrom, StoredLink.sourceVertex, StoredLink.targetVertex]

theorem linksOf_perm {s : Store} (hs : ∀ l ∈ s.links, l.spelling = .plain) (v : Vertex) :
    (s.linksOf v).Perm ((s.seen v).filterMap s.linkTo?) := by
  cases v with
  | requirement id =>
    refine .trans ?_ ((seen_requirement hs id).filterMap _).symm
    rw [List.filterMap_append, List.filterMap_append]
    exact ((s.peerRequirements_perm _).append (s.peerRequirements_perm _)).append
      (s.peerNodes_perm _)
  | node id =>
    rw [seen_node hs]
    exact s.peerRequirements_perm _

/-! ### What is seen is stored -/

variable {s : Store} {v : Vertex}

theorem mem_seen {far : Vertex × Relation} :
    far ∈ s.seen v ↔ ∃ l ∈ s.links, far ∈ l.seenFrom v :=
  List.mem_flatMap

theorem seen_comm (s : Store) {v w : Vertex} {relation : Relation}
    (h : (w, relation) ∈ s.seen v) : (v, relation.inverse) ∈ s.seen w := by
  obtain ⟨l, hl, hseen⟩ := mem_seen.1 h
  exact mem_seen.2 ⟨l, hl, StoredLink.seenFrom_comm hseen⟩

theorem isRequirement_of_seen_node (s : Store) {id : StoredId} {far : Vertex × Relation}
    (h : far ∈ s.seen (.node id)) : far.1.isRequirement = true := by
  obtain ⟨l, -, hseen⟩ := mem_seen.1 h
  rcases StoredLink.mem_seenFrom.1 hseen with ⟨hnode, -, -⟩ | ⟨-, hfar, -⟩
  · cases hnode
  · rw [← hfar]
    rfl

namespace Sound

theorem mem_vertices_of_seen (h : s.Sound) {far : Vertex × Relation} (hfar : far ∈ s.seen v) :
    far.1 ∈ s.vertices := by
  obtain ⟨l, hl, hseen⟩ := mem_seen.1 hfar
  obtain ⟨w, relation⟩ := far
  rcases StoredLink.mem_seenFrom.1 hseen with ⟨-, rfl, -⟩ | ⟨-, rfl, -⟩
  · exact (h.ends l hl).2
  · exact (h.ends l hl).1

/-- As many links are listed as are seen. -/
theorem length_linksOf (h : s.Sound) (v : Vertex) : (s.linksOf v).length = (s.seen v).length := by
  rw [(linksOf_perm h.plain v).length_eq]
  refine List.filterMap_length_eq_length.2 fun far hfar => ?_
  rw [linkTo?, Option.isSome_map, isSome_entity?]
  exact h.mem_vertices_of_seen hfar

end Sound

/-! ### Counting what is seen -/

theorem sum_seenFrom (l : StoredLink) (vs : List Vertex) :
    (vs.map fun v => (l.seenFrom v).length).sum =
      vs.count l.sourceVertex + vs.count l.targetVertex := by
  induction vs with
  | nil => rfl
  | cons v vs ih =>
    have hv : (l.seenFrom v).length =
        (if l.sourceVertex = v then 1 else 0) + if l.targetVertex = v then 1 else 0 := by
      unfold StoredLink.seenFrom
      rw [List.length_append]
      by_cases hs : l.sourceVertex = v <;> by_cases ht : l.targetVertex = v <;> simp [hs, ht]
    simp only [List.map_cons, List.sum_cons, ih, hv, List.count_cons, beq_iff_eq,
      eq_comm (a := v)]
    omega

/-- The requirements see every link between requirements twice and every other link once. -/
theorem Sound.sum_seen (h : s.Sound) :
    (s.requirements.map fun r => (s.seen (.requirement r.id)).length).sum =
      s.links.length + (s.links.filter fun l => l.kind = .internal).length := by
  have hends := h.ends
  unfold seen
  generalize s.links = links at hends ⊢
  induction links with
  | nil => simp
  | cons l ls ih =>
    have hls := ih fun m hm => hends m (List.mem_cons_of_mem _ hm)
    obtain ⟨hsource, htarget⟩ := hends l List.mem_cons_self
    have hnodup : (s.requirements.map fun r => Vertex.requirement r.id).Nodup :=
      List.Nodup.sublist (List.sublist_append_left _ _)
        ((vertices_perm s).nodup_iff.1 h.vertices_nodup)
    have hone : ∀ id, .requirement id ∈ s.vertices →
        (s.requirements.map fun r => Vertex.requirement r.id).count (.requirement id) = 1 := by
      intro id hid
      obtain ⟨r, hr, rfl⟩ := requirement_mem_vertices.1 hid
      exact List.count_eq_one_of_mem hnodup (List.mem_map.2 ⟨r, hr, rfl⟩)
    have hl := sum_seenFrom l (s.requirements.map fun r => Vertex.requirement r.id)
    rw [List.map_map] at hl
    have hsum : (s.requirements.map fun r =>
        ((l :: ls).flatMap fun m => m.seenFrom (.requirement r.id)).length).sum =
        (s.requirements.map fun r => (l.seenFrom (.requirement r.id)).length).sum +
        (s.requirements.map fun r =>
          (ls.flatMap fun m => m.seenFrom (.requirement r.id)).length).sum := by
      rw [← List.sum_map_add]
      simp only [List.flatMap_cons, List.length_append]
    have hl' : (s.requirements.map fun r => (l.seenFrom (.requirement r.id)).length).sum =
        1 + if l.kind = .internal then 1 else 0 := by
      refine hl.trans ?_
      obtain ⟨lid, kind, source, target, relation, spelling⟩ := l
      rw [StoredLink.sourceVertex] at hsource ⊢
      rw [hone _ hsource]
      cases kind with
      | internal => rw [StoredLink.targetVertex] at htarget ⊢; rw [hone _ htarget]; rfl
      | external =>
        have hzero : (s.requirements.map fun r => Vertex.requirement r.id).count
            (.node target) = 0 := by
          rw [List.count_eq_zero]
          intro hmem
          obtain ⟨r, -, hr⟩ := List.mem_map.1 hmem
          cases hr
        rw [StoredLink.targetVertex]
        rw [hzero]
        rfl
    rw [hsum, hl', hls, List.length_cons, List.filter_cons]
    split <;> simp_all <;> omega

end Store

end Crosswalk
