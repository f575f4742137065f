import Crosswalk.Proofs.Index.Mirror
import Crosswalk.Proofs.Keyed
import Crosswalk.Proofs.Text.Order
import Crosswalk.Proofs.Text.Trim
import Crosswalk.Store

/-!
# Sound stores

What holds of every store that is filled by putting and linking: identities are drawn and used once,
names of requirements and keys of nodes occur once, links join stored entities and no two of them the
same, and the containment between requirements is free of cycles. Looking up, by identity and by
vertex, is exact in such a store.
-/

namespace Crosswalk.Store

/-- The identities of everything that is stored. -/
def ids (s : Store) : List StoredId :=
  s.requirements.map (·.id) ++ s.nodes.map (·.id) ++ s.links.map (·.id)

/-- The names of the requirements. -/
def names (s : Store) : List String :=
  s.requirements.map (·.name)

/-- The keys of the nodes. -/
def keys (s : Store) : List NodeKey :=
  s.nodes.map (·.key)

/-- The arrows of the links that order the hierarchy. -/
def arrows (s : Store) : List (StoredId × StoredId) :=
  s.links.filterMap StoredLink.arrow?

/-- Whether an entity is stored. -/
def Holds (s : Store) (e : Entity StoredId) : Prop :=
  s.entity? e.vertex = some e

/-- What holds of every store that is filled by putting and linking. -/
structure Sound (s : Store) : Prop where
  drawn : ∀ id ∈ s.ids, ∃ n < s.drawn, id = .ofSerial n
  ids_nodup : s.ids.Nodup
  names_nodup : s.names.Nodup
  keys_nodup : s.keys.Nodup
  names_trimmed : ∀ name ∈ s.names, Text.trim name = name ∧ name ≠ ""
  keys_trimmed : ∀ key ∈ s.keys, Text.trim key.name = key.name ∧ key.name ≠ ""
  /-- Every link joins two stored entities. -/
  ends : ∀ l ∈ s.links, l.sourceVertex ∈ s.vertices ∧ l.targetVertex ∈ s.vertices
  /-- No two links join the same two entities. -/
  apart : s.links.Pairwise StoredLink.Apart
  /-- Every row spells its identities as they are written. -/
  plain : ∀ l ∈ s.links, l.spelling = .plain
  /-- Between requirements a part is stored as contained. -/
  no_parts : ∀ l ∈ s.links, l.kind = .internal → l.relation ≠ .partOf
  acyclic : Graph.Acyclic s.arrows

/-- What identities and ends tell of the links of a store: no identity is used for two of them, no two
of them join the same two entities, and they are found by what they join. -/
structure LinksOnce (s : Store) : Prop where
  ids_nodup : (s.links.map (·.id)).Nodup
  apart : s.links.Pairwise StoredLink.Apart
  plain : ∀ l ∈ s.links, l.spelling = .plain

/-! ### Vertices -/

theorem vertices_perm (s : Store) :
    s.vertices.Perm (s.requirements.map (fun r => Vertex.requirement r.id) ++
      s.nodes.map fun n => Vertex.node n.id) := by
  unfold vertices allRequirements sortRequirements allNodes
  exact ((Text.sortOn_perm _ _).map _).append ((Text.sortOn_perm _ _).map _)

theorem vertices_of_sorted {s : Store} (h : s.requirements.Pairwise fun r q =>
    Text.keyLe (requirementKey r) (requirementKey q) = true) (hnodes : s.nodes = []) :
    s.vertices = s.requirements.map fun r => .requirement r.id := by
  unfold vertices allRequirements sortRequirements allNodes
  rw [Text.sortOn_of_pairwise h, hnodes, Text.sortOn_of_pairwise .nil, List.map_nil, List.append_nil]

theorem requirement_mem_vertices {s : Store} {id : StoredId} :
    .requirement id ∈ s.vertices ↔ ∃ r ∈ s.requirements, r.id = id := by
  rw [(vertices_perm s).mem_iff, List.mem_append, List.mem_map, List.mem_map]
  simp

theorem node_mem_vertices {s : Store} {id : StoredId} :
    .node id ∈ s.vertices ↔ ∃ n ∈ s.nodes, n.id = id := by
  rw [(vertices_perm s).mem_iff, List.mem_append, List.mem_map, List.mem_map]
  simp

namespace Sound

variable {s : Store}

theorem requirementIds_nodup (h : s.Sound) : (s.requirements.map (·.id)).Nodup :=
  h.ids_nodup.sublist ((List.sublist_append_left _ _).trans (List.sublist_append_left _ _))

theorem nodeIds_nodup (h : s.Sound) : (s.nodes.map (·.id)).Nodup :=
  h.ids_nodup.sublist ((List.sublist_append_right _ _).trans (List.sublist_append_left _ _))

theorem linksOnce (h : s.Sound) : s.LinksOnce :=
  ⟨h.ids_nodup.sublist (List.sublist_append_right _ _), h.apart, h.plain⟩

theorem requirement_id_ne_node_id (h : s.Sound) {r : Requirement StoredId} (hr : r ∈ s.requirements)
    {n : Node StoredId} (hn : n ∈ s.nodes) : r.id ≠ n.id := by
  have hnodup := h.ids_nodup.sublist (List.sublist_append_left _ _)
  rw [List.nodup_append] at hnodup
  exact hnodup.2.2 _ (List.mem_map_of_mem hr) _ (List.mem_map_of_mem hn)

theorem fresh_not_mem (h : s.Sound) : StoredId.ofSerial s.drawn ∉ s.ids := by
  intro hmem
  obtain ⟨n, hn, heq⟩ := h.drawn _ hmem
  have hserial := StoredId.ofSerial_inj heq
  omega

/-- One more identity may be drawn. -/
theorem draw (h : s.Sound) {t : Store} (hids : t.ids.Perm (.ofSerial s.drawn :: s.ids))
    (hdrawn : t.drawn = s.drawn + 1) :
    (∀ id ∈ t.ids, ∃ n < t.drawn, id = .ofSerial n) ∧ t.ids.Nodup := by
  constructor
  · intro id hid
    rw [hdrawn]
    rcases List.mem_cons.1 (hids.mem_iff.1 hid) with rfl | hid
    · exact ⟨s.drawn, Nat.lt_succ_self _, rfl⟩
    · obtain ⟨n, hn, heq⟩ := h.drawn id hid
      exact ⟨n, Nat.lt_succ_of_lt hn, heq⟩
  · rw [hids.nodup_iff, List.nodup_cons]
    exact ⟨h.fresh_not_mem, h.ids_nodup⟩

theorem vertices_nodup (h : s.Sound) : s.vertices.Nodup := by
  rw [(vertices_perm s).nodup_iff, List.nodup_append]
  refine ⟨?_, ?_, ?_⟩
  · have hids : (s.requirements.map (·.id)).map Vertex.requirement =
        s.requirements.map fun r => Vertex.requirement r.id := List.map_map
    rw [← hids]
    exact h.requirementIds_nodup.map fun a b hab => Vertex.requirement.inj hab
  · have hids : (s.nodes.map (·.id)).map Vertex.node = s.nodes.map fun n => Vertex.node n.id :=
      List.map_map
    rw [← hids]
    exact h.nodeIds_nodup.map fun a b hab => Vertex.node.inj hab
  · intro v hv w hw hvw
    obtain ⟨r, -, rfl⟩ := List.mem_map.1 hv
    obtain ⟨n, -, rfl⟩ := List.mem_map.1 hw
    cases hvw

theorem vertex_eq_of_id (h : s.Sound) {v w : Vertex} (hv : v ∈ s.vertices) (hw : w ∈ s.vertices)
    (hid : v.id = w.id) : v = w := by
  cases v <;> cases w
  case requirement.requirement => exact congrArg Vertex.requirement hid
  case node.node => exact congrArg Vertex.node hid
  case requirement.node =>
    obtain ⟨r, hr, rfl⟩ := requirement_mem_vertices.1 hv
    obtain ⟨n, hn, rfl⟩ := node_mem_vertices.1 hw
    exact absurd hid (h.requirement_id_ne_node_id hr hn)
  case node.requirement =>
    obtain ⟨n, hn, rfl⟩ := node_mem_vertices.1 hv
    obtain ⟨r, hr, rfl⟩ := requirement_mem_vertices.1 hw
    exact absurd hid.symm (h.requirement_id_ne_node_id hr hn)

/-! ### Looking up -/

theorem requirement?_iff (h : s.Sound) {id : StoredId} {r : Requirement StoredId} :
    s.requirement? id = some r ↔ r ∈ s.requirements ∧ r.id = id :=
  Keyed.find?_iff h.requirementIds_nodup

theorem node?_iff (h : s.Sound) {id : StoredId} {n : Node StoredId} :
    s.node? id = some n ↔ n ∈ s.nodes ∧ n.id = id :=
  Keyed.find?_iff h.nodeIds_nodup

theorem holds_requirement (h : s.Sound) {r : Requirement StoredId} :
    s.Holds (.requirement r) ↔ r ∈ s.requirements := by
  unfold Holds entity? Entity.vertex
  rw [Option.map_eq_some_iff]
  simp only [Entity.requirement.injEq, exists_eq_right, h.requirement?_iff, and_true]

theorem holds_node (h : s.Sound) {n : Node StoredId} : s.Holds (.node n) ↔ n ∈ s.nodes := by
  unfold Holds entity? Entity.vertex
  rw [Option.map_eq_some_iff]
  simp only [Entity.node.injEq, exists_eq_right, h.node?_iff, and_true]

theorem vertex_of_entity? (h : s.Sound) {v : Vertex} {e : Entity StoredId}
    (he : s.entity? v = some e) : e.vertex = v := by
  cases v with
  | requirement id =>
    obtain ⟨r, hr, rfl⟩ := Option.map_eq_some_iff.1 he
    exact congrArg Vertex.requirement (h.requirement?_iff.1 hr).2
  | node id =>
    obtain ⟨n, hn, rfl⟩ := Option.map_eq_some_iff.1 he
    exact congrArg Vertex.node (h.node?_iff.1 hn).2

end Sound

variable {s : Store}

theorem isSome_requirement? {id : StoredId} :
    (s.requirement? id).isSome = true ↔ .requirement id ∈ s.vertices := by
  rw [requirement_mem_vertices, requirement?, List.find?_isSome]
  simp only [decide_eq_true_eq]

theorem isSome_node? {id : StoredId} : (s.node? id).isSome = true ↔ .node id ∈ s.vertices := by
  rw [node_mem_vertices, node?, List.find?_isSome]
  simp only [decide_eq_true_eq]

theorem isSome_entity? {v : Vertex} : (s.entity? v).isSome = true ↔ v ∈ s.vertices := by
  cases v with
  | requirement id => rw [entity?, Option.isSome_map, isSome_requirement?]
  | node id => rw [entity?, Option.isSome_map, isSome_node?]

/-! ### Stores with the same identities and keys -/

/-- A store with one more entity is as sound when its names and keys are. -/
theorem Sound.extend (h : s.Sound) {t : Store} {v : Vertex}
    (hids : t.ids.Perm (.ofSerial s.drawn :: s.ids)) (hdrawn : t.drawn = s.drawn + 1)
    (hvertices : t.vertices.Perm (s.vertices ++ [v])) (hlinks : t.links = s.links)
    (hnames : t.names.Nodup) (hkeys : t.keys.Nodup)
    (hnamesTrimmed : ∀ name ∈ t.names, Text.trim name = name ∧ name ≠ "")
    (hkeysTrimmed : ∀ key ∈ t.keys, Text.trim key.name = key.name ∧ key.name ≠ "") : t.Sound where
  drawn := (h.draw hids hdrawn).1
  ids_nodup := (h.draw hids hdrawn).2
  names_nodup := hnames
  keys_nodup := hkeys
  names_trimmed := hnamesTrimmed
  keys_trimmed := hkeysTrimmed
  ends := by
    intro l hl
    have hends := h.ends l (hlinks ▸ hl)
    exact ⟨hvertices.mem_iff.2 (List.mem_append_left _ hends.1),
      hvertices.mem_iff.2 (List.mem_append_left _ hends.2)⟩
  apart := hlinks ▸ h.apart
  plain := hlinks ▸ h.plain
  no_parts := fun l hl => h.no_parts l (hlinks ▸ hl)
  acyclic := by
    rw [arrows, hlinks]
    exact h.acyclic

/-- A store that differs in attributes only is as sound. -/
theorem Sound.congr (h : s.Sound) {t : Store}
    (hids : t.requirements.map (·.id) = s.requirements.map (·.id)) (hnames : t.names = s.names)
    (hnodes : t.nodes.map (·.id) = s.nodes.map (·.id)) (hkeys : t.keys = s.keys)
    (hlinks : t.links = s.links) (hdrawn : t.drawn = s.drawn) : t.Sound := by
  have hall : t.ids = s.ids := by rw [ids, ids, hids, hnodes, hlinks]
  have hvertices : t.vertices.Perm s.vertices := by
    have ht := vertices_perm t
    have hr : t.requirements.map (fun r => Vertex.requirement r.id) =
        s.requirements.map fun r => Vertex.requirement r.id := by
      have := congrArg (List.map Vertex.requirement) hids
      rwa [List.map_map, List.map_map] at this
    have hn : t.nodes.map (fun n => Vertex.node n.id) = s.nodes.map fun n => Vertex.node n.id := by
      have := congrArg (List.map Vertex.node) hnodes
      rwa [List.map_map, List.map_map] at this
    rw [hr, hn] at ht
    exact ht.trans (vertices_perm s).symm
  exact {
    drawn := by rw [hall, hdrawn]; exact h.drawn
    ids_nodup := by rw [hall]; exact h.ids_nodup
    names_nodup := by rw [hnames]; exact h.names_nodup
    keys_nodup := by rw [hkeys]; exact h.keys_nodup
    names_trimmed := by rw [hnames]; exact h.names_trimmed
    keys_trimmed := by rw [hkeys]; exact h.keys_trimmed
    ends := by
      intro l hl
      rw [hlinks] at hl
      exact ⟨hvertices.mem_iff.2 (h.ends l hl).1, hvertices.mem_iff.2 (h.ends l hl).2⟩
    apart := by rw [hlinks]; exact h.apart
    plain := by rw [hlinks]; exact h.plain
    no_parts := by rw [hlinks]; exact h.no_parts
    acyclic := by rw [arrows, hlinks]; exact h.acyclic }

end Crosswalk.Store
