import Crosswalk.Proofs.Store.Link
import Crosswalk.Proofs.Store.View

/-!
# Copies of a store

Two stores may hold the same entities under different identities. Since names and keys occur once,
the entity of one store has at most one twin in the other. A link matches another one if it joins the
twins of its ends and says the same, in the same direction or in the opposite one with the inverse
relation. Once every entity has a twin and every link has its match, each entity sees in one store
what its twin sees in the other.
-/

namespace Crosswalk

/-- The vertex of the same sort with another identity. -/
def Vertex.mapId (f : StoredId → StoredId) : Vertex → Vertex
  | requirement id => requirement (f id)
  | node id => node (f id)

namespace Store

variable {s t t' : Store} {v v' w w' : Vertex} {k k' l l' : StoredLink}

/-! ### Twins -/

/-- Whether two vertices stand for one entity, which has an identity of its own in each store. -/
def Twin (s t : Store) : Vertex → Vertex → Prop
  | .requirement a, .requirement b => ∃ r ∈ s.requirements, r.id = a ∧ r.withId b ∈ t.requirements
  | .node a, .node b => ∃ n ∈ s.nodes, n.id = a ∧ n.withId b ∈ t.nodes
  | _, _ => False

namespace Twin

theorem left_mem (h : s.Twin t v w) : v ∈ s.vertices := by
  cases v <;> cases w
  case requirement.requirement =>
    obtain ⟨r, hr, hid, -⟩ := h
    exact requirement_mem_vertices.2 ⟨r, hr, hid⟩
  case node.node =>
    obtain ⟨n, hn, hid, -⟩ := h
    exact node_mem_vertices.2 ⟨n, hn, hid⟩
  all_goals exact h.elim

theorem right_mem (h : s.Twin t v w) : w ∈ t.vertices := by
  cases v <;> cases w
  case requirement.requirement =>
    obtain ⟨r, -, -, hr⟩ := h
    exact requirement_mem_vertices.2 ⟨_, hr, rfl⟩
  case node.node =>
    obtain ⟨n, -, -, hn⟩ := h
    exact node_mem_vertices.2 ⟨_, hn, rfl⟩
  all_goals exact h.elim

theorem left_unique (hs : s.Sound) (ht : t.Sound) (h : s.Twin t v w) (h' : s.Twin t v' w) :
    v = v' := by
  cases v <;> cases v' <;> cases w
  case requirement.requirement.requirement =>
    obtain ⟨r, hr, rfl, hrt⟩ := h
    obtain ⟨r', hr', rfl, hrt'⟩ := h'
    have heq := Keyed.eq_of_key ht.requirementIds_nodup hrt hrt' rfl
    have hname := congrArg Requirement.name heq
    rw [Keyed.eq_of_key hs.names_nodup hr hr' hname]
  case node.node.node =>
    obtain ⟨n, hn, rfl, hnt⟩ := h
    obtain ⟨n', hn', rfl, hnt'⟩ := h'
    have heq := Keyed.eq_of_key ht.nodeIds_nodup hnt hnt' rfl
    have hkey := congrArg Node.key heq
    rw [Keyed.eq_of_key hs.keys_nodup hn hn' hkey]
  all_goals first | exact h.elim | exact h'.elim

theorem right_unique (hs : s.Sound) (ht : t.Sound) (h : s.Twin t v w) (h' : s.Twin t v w') :
    w = w' := by
  cases v <;> cases w <;> cases w'
  case requirement.requirement.requirement =>
    obtain ⟨r, hr, hid, hrt⟩ := h
    obtain ⟨r', hr', hid', hrt'⟩ := h'
    obtain rfl := Keyed.eq_of_key hs.requirementIds_nodup hr hr' (hid.trans hid'.symm)
    have heq := Keyed.eq_of_key ht.names_nodup hrt hrt' rfl
    exact congrArg Vertex.requirement (congrArg Requirement.id heq)
  case node.node.node =>
    obtain ⟨n, hn, hid, hnt⟩ := h
    obtain ⟨n', hn', hid', hnt'⟩ := h'
    obtain rfl := Keyed.eq_of_key hs.nodeIds_nodup hn hn' (hid.trans hid'.symm)
    have heq := Keyed.eq_of_key ht.keys_nodup hnt hnt' rfl
    exact congrArg Vertex.node (congrArg Node.id heq)
  all_goals first | exact h.elim | exact h'.elim

theorem eq_requirement {id : StoredId} (h : s.Twin t v (.requirement id)) :
    ∃ id', v = .requirement id' := by
  cases v
  · exact ⟨_, rfl⟩
  · exact h.elim

theorem mono (hr : t.requirements ⊆ t'.requirements) (hn : t.nodes ⊆ t'.nodes)
    (h : s.Twin t v w) : s.Twin t' v w := by
  cases v <;> cases w
  case requirement.requirement =>
    obtain ⟨r, hmem, hid, ht⟩ := h
    exact ⟨r, hmem, hid, hr ht⟩
  case node.node =>
    obtain ⟨n, hmem, hid, ht⟩ := h
    exact ⟨n, hmem, hid, hn ht⟩
  all_goals exact h.elim

end Twin

/-! ### Matching links -/

/-- Whether a link says of the twins of two entities what another one says of these, read from
either end. -/
def Matches (s t : Store) (k l : StoredLink) : Prop :=
  (s.Twin t k.sourceVertex l.sourceVertex ∧ s.Twin t k.targetVertex l.targetVertex ∧
      l.relation = k.relation) ∨
    (s.Twin t k.sourceVertex l.targetVertex ∧ s.Twin t k.targetVertex l.sourceVertex ∧
      l.relation = k.relation.inverse)

namespace Matches

theorem mono (hr : t.requirements ⊆ t'.requirements) (hn : t.nodes ⊆ t'.nodes)
    (h : s.Matches t k l) : s.Matches t' k l := by
  rcases h with ⟨hs, ht, hrel⟩ | ⟨hs, ht, hrel⟩
  · exact .inl ⟨hs.mono hr hn, ht.mono hr hn, hrel⟩
  · exact .inr ⟨hs.mono hr hn, ht.mono hr hn, hrel⟩

theorem ends (h : s.Matches t k l) : l.sourceVertex ∈ t.vertices ∧ l.targetVertex ∈ t.vertices := by
  rcases h with ⟨hs, ht, -⟩ | ⟨hs, ht, -⟩
  · exact ⟨hs.right_mem, ht.right_mem⟩
  · exact ⟨ht.right_mem, hs.right_mem⟩

/-- Links that are seen in the same way from twins match. -/
theorem of_seenFrom {relation : Relation} (hk : (v', relation) ∈ k.seenFrom v)
    (hl : (w', relation) ∈ l.seenFrom w) (hv : s.Twin t v w) (hv' : s.Twin t v' w') :
    s.Matches t k l := by
  rw [StoredLink.mem_seenFrom] at hk hl
  rcases hk with ⟨rfl, rfl, hk⟩ | ⟨rfl, rfl, hk⟩ <;> rcases hl with ⟨rfl, rfl, hl⟩ | ⟨rfl, rfl, hl⟩
  · exact .inl ⟨hv, hv', hl.trans hk.symm⟩
  · refine .inr ⟨hv, hv', ?_⟩
    rw [hk, ← hl, Relation.inverse_inverse]
  · exact .inr ⟨hv', hv, hl.trans hk.symm⟩
  · refine .inl ⟨hv', hv, ?_⟩
    rw [← Relation.inverse_inverse l.relation, hl, ← hk, Relation.inverse_inverse]

/-- What is seen of a link from one of its ends, the twin of that end sees of a link that matches. -/
theorem seenFrom (hs : s.Sound) (ht : t.Sound) (h : s.Matches t k l) {relation : Relation}
    (hk : (v', relation) ∈ k.seenFrom v) (hv : s.Twin t v w) (hv' : s.Twin t v' w') :
    (w', relation) ∈ l.seenFrom w := by
  rw [StoredLink.mem_seenFrom] at hk ⊢
  rcases hk with ⟨rfl, rfl, hk⟩ | ⟨rfl, rfl, hk⟩ <;> rcases h with ⟨hks, hkt, hl⟩ | ⟨hks, hkt, hl⟩
  · exact .inl ⟨hks.right_unique hs ht hv, hkt.right_unique hs ht hv', hl.trans hk⟩
  · refine .inr ⟨hks.right_unique hs ht hv, hkt.right_unique hs ht hv', ?_⟩
    rw [hl, Relation.inverse_inverse, hk]
  · exact .inr ⟨hkt.right_unique hs ht hv, hks.right_unique hs ht hv', hl ▸ hk⟩
  · exact .inl ⟨hkt.right_unique hs ht hv, hks.right_unique hs ht hv', hl.trans hk⟩

theorem exists_seenFrom (h : s.Matches t k l) {relation : Relation}
    (hl : (w', relation) ∈ l.seenFrom w) :
    ∃ v v', (v', relation) ∈ k.seenFrom v ∧ s.Twin t v w ∧ s.Twin t v' w' := by
  simp only [StoredLink.mem_seenFrom] at hl ⊢
  rcases h with ⟨hks, hkt, hk⟩ | ⟨hks, hkt, hk⟩ <;> rcases hl with ⟨rfl, rfl, hl⟩ | ⟨rfl, rfl, hl⟩
  · exact ⟨_, _, .inl ⟨rfl, rfl, hk.symm.trans hl⟩, hks, hkt⟩
  · exact ⟨_, _, .inr ⟨rfl, rfl, hk ▸ hl⟩, hkt, hks⟩
  · exact ⟨_, _, .inr ⟨rfl, rfl, hk.symm.trans hl⟩, hkt, hks⟩
  · refine ⟨_, _, .inl ⟨rfl, rfl, ?_⟩, hks, hkt⟩
    rw [← hl, hk, Relation.inverse_inverse]

theorem not_apart (hs : s.Sound) (ht : t.Sound) (h : s.Matches t k l) (h' : s.Matches t k' l') :
    ¬ l.Apart l' ↔ ¬ k.Apart k' := by
  have hiff : ∀ {v v' w w'}, s.Twin t v w → s.Twin t v' w' → (w = w' ↔ v = v') := by
    intro v v' w w' hv hv'
    constructor
    · rintro rfl
      exact hv.left_unique hs ht hv'
    · rintro rfl
      exact hv.right_unique hs ht hv'
  unfold StoredLink.Apart
  rcases h with ⟨hks, hkt, -⟩ | ⟨hks, hkt, -⟩ <;> rcases h' with ⟨hks', hkt', -⟩ | ⟨hks', hkt', -⟩ <;>
    simp only [hiff hks hks', hiff hks hkt', hiff hkt hks', hiff hkt hkt'] <;> tauto

/-- What an entity sees of a link, its twin sees of a link that matches. -/
theorem seenFrom_perm (hs : s.Sound) (ht : t.Sound) (h : s.Matches t k l) {f : StoredId → StoredId}
    (hf : ∀ v w, s.Twin t v w → w = v.mapId f) (hv : s.Twin t v w) :
    (l.seenFrom w).Perm ((k.seenFrom v).map fun far => (far.1.mapId f, far.2)) := by
  have hiff : ∀ {x y}, s.Twin t x y → (y = w ↔ x = v) := by
    intro x y hx
    constructor
    · rintro rfl
      exact hx.left_unique hs ht hv
    · rintro rfl
      exact hx.right_unique hs ht hv
  unfold StoredLink.seenFrom
  rcases h with ⟨hks, hkt, hk⟩ | ⟨hks, hkt, hk⟩
  · have hsource := hiff hks
    have htarget := hiff hkt
    rw [hf _ _ hks] at hsource ⊢
    rw [hf _ _ hkt] at htarget ⊢
    simp only [hsource, htarget, hk]
    by_cases h₁ : k.sourceVertex = v <;> by_cases h₂ : k.targetVertex = v <;> simp [h₁, h₂]
  · -- the link has been turned around, and what its ends see comes in the other order
    have hsource := hiff hkt
    have htarget := hiff hks
    rw [hf _ _ hkt] at hsource ⊢
    rw [hf _ _ hks] at htarget ⊢
    rw [List.map_append]
    refine .trans (.of_eq ?_) List.perm_append_comm
    simp only [hsource, htarget, hk, Relation.inverse_inverse]
    by_cases h₁ : k.sourceVertex = v <;> by_cases h₂ : k.targetVertex = v <;> simp [h₁, h₂]

theorem arrow (h : s.Matches t k l) {p c : StoredId} (harrow : l.arrow? = some (p, c)) :
    ∃ p' c', k.arrow? = some (p', c') ∧ s.Twin t (.requirement p') (.requirement p) ∧
      s.Twin t (.requirement c') (.requirement c) := by
  obtain ⟨v, v', hk, hv, hv'⟩ := h.exists_seenFrom (StoredLink.arrow?_iff_seenFrom.1 harrow)
  obtain ⟨p', rfl⟩ := hv.eq_requirement
  obtain ⟨c', rfl⟩ := hv'.eq_requirement
  exact ⟨p', c', StoredLink.arrow?_iff_seenFrom.2 hk, hv, hv'⟩

end Matches

/-- Links that match links of a sound store bring no cycle. -/
theorem acyclic_of_matches (hs : s.Sound) (ht : t.Sound) {links : List StoredLink}
    (h : ∀ l ∈ links, ∃ k ∈ s.links, s.Matches t k l) :
    Graph.Acyclic (links.filterMap StoredLink.arrow?) := by
  have hback : ∀ b, ∃ a, ∀ a', s.Twin t (.requirement a') (.requirement b) → a' = a := by
    intro b
    by_cases hex : ∃ a, s.Twin t (.requirement a) (.requirement b)
    · obtain ⟨a, ha⟩ := hex
      exact ⟨a, fun a' ha' => Vertex.requirement.inj (ha'.left_unique hs ht ha)⟩
    · exact ⟨b, fun a' ha' => absurd ⟨a', ha'⟩ hex⟩
  choose back hback using hback
  refine hs.acyclic.of_map back fun p c hpc => ?_
  obtain ⟨l, hl, harrow⟩ := List.mem_filterMap.1 hpc
  obtain ⟨k, hk, hmatch⟩ := h l hl
  obtain ⟨p', c', hk', hp, hc⟩ := hmatch.arrow harrow
  rw [← hback p p' hp, ← hback c c' hc]
  exact List.mem_filterMap.2 ⟨k, hk, hk'⟩

/-- Links that match in both directions can be listed side by side. -/
theorem exists_forall₂_matches (hs : s.Sound) (ht : t.Sound)
    (h : ∀ l ∈ t.links, ∃ k ∈ s.links, s.Matches t k l)
    (h' : ∀ k ∈ s.links, ∃ l ∈ t.links, s.Matches t k l) :
    ∃ links, links.Perm s.links ∧ List.Forall₂ (s.Matches t) links t.links := by
  have hsource : ∀ l, ∃ k, l ∈ t.links → k ∈ s.links ∧ s.Matches t k l := by
    intro l
    by_cases hl : l ∈ t.links
    · obtain ⟨k, hk, hmatch⟩ := h l hl
      exact ⟨k, fun _ => ⟨hk, hmatch⟩⟩
    · exact ⟨l, fun hl' => absurd hl' hl⟩
  choose source hsource using hsource
  have hnodup : (t.links.map source).Nodup := by
    refine List.Nodup.map_on (fun l hl l' hl' heq => ?_) ht.linksOnce.ids_nodup.of_map
    have happart := ((hsource l hl).2.not_apart hs ht (hsource l' hl').2).2
      (heq ▸ StoredLink.not_apart_self _)
    exact ht.linksOnce.link_eq_of_not_apart hl hl' happart
  refine ⟨t.links.map source, ?_, ?_⟩
  · refine (List.perm_ext_iff_of_nodup hnodup hs.linksOnce.ids_nodup.of_map).2 fun k => ⟨fun hk => ?_,
      fun hk => ?_⟩
    · obtain ⟨l, hl, rfl⟩ := List.mem_map.1 hk
      exact (hsource l hl).1
    · obtain ⟨l, hl, hmatch⟩ := h' k hk
      have happart := (hmatch.not_apart hs ht (hsource l hl).2).1 (StoredLink.not_apart_self l)
      rw [hs.linksOnce.link_eq_of_not_apart hk (hsource l hl).1 happart]
      exact List.mem_map_of_mem hl
  · exact List.forall₂_map_left_iff.2 (List.forall₂_same.2 fun l hl => (hsource l hl).2)

/-! ### Copies -/

/-- A store that differs from another one in the identities of entities, in the order in which
entities and links are stored and in the direction of links. -/
structure IsCopy (f : StoredId → StoredId) (s t : Store) : Prop where
  requirements : t.requirements.Perm (s.requirements.map fun r => r.withId (f r.id))
  nodes : t.nodes.Perm (s.nodes.map fun n => n.withId (f n.id))
  /-- What an entity sees. -/
  links : ∀ v ∈ s.vertices,
    (t.linksOf (v.mapId f)).Perm ((s.linksOf v).map (Document.mapLink f))
  /-- Different entities have different identities. -/
  distinct : ∀ v ∈ s.vertices, ∀ w ∈ s.vertices, f v.id = f w.id → v = w

theorem exists_map_twin (hs : s.Sound) (ht : t.Sound)
    (htwin : ∀ v ∈ s.vertices, ∃ w, s.Twin t v w) :
    ∃ f : StoredId → StoredId, (∀ v ∈ s.vertices, s.Twin t v (v.mapId f)) ∧
      ∀ v w, s.Twin t v w → w = v.mapId f := by
  have hone : ∀ id, ∃ b, ∀ v ∈ s.vertices, v.id = id → s.Twin t v (v.mapId fun _ => b) := by
    intro id
    by_cases hex : ∃ v ∈ s.vertices, v.id = id
    · obtain ⟨v, hv, rfl⟩ := hex
      obtain ⟨w, hw⟩ := htwin v hv
      refine ⟨w.id, fun v' hv' hid => ?_⟩
      obtain rfl : v' = v := hs.vertex_eq_of_id hv' hv hid
      cases v' <;> cases w
      case requirement.requirement | node.node => exact hw
      all_goals exact hw.elim
    · exact ⟨id, fun v hv hid => absurd ⟨v, hv, hid⟩ hex⟩
  choose f hf using hone
  have hmap : ∀ v ∈ s.vertices, s.Twin t v (v.mapId f) := by
    intro v hv
    have := hf v.id v hv rfl
    cases v <;> exact this
  exact ⟨f, hmap, fun v w hvw => hvw.right_unique hs ht (hmap v hvw.left_mem)⟩

/-- What the links of a store show to an entity, matching links show to its twin. -/
theorem seen_perm (hs : s.Sound) (ht : t.Sound) {links : List StoredLink}
    (hperm : links.Perm s.links) (hlinks : List.Forall₂ (s.Matches t) links t.links)
    {f : StoredId → StoredId} (hf : ∀ v w, s.Twin t v w → w = v.mapId f) (hv : s.Twin t v w) :
    (t.seen w).Perm ((s.seen v).map fun far => (far.1.mapId f, far.2)) := by
  have hmatched : (t.seen w).Perm
      ((links.flatMap fun k => k.seenFrom v).map fun far => (far.1.mapId f, far.2)) := by
    unfold seen
    generalize t.links = tlinks at hlinks ⊢
    clear hperm
    induction hlinks with
    | nil => exact .nil
    | cons hkl _ ih =>
      rw [List.flatMap_cons, List.flatMap_cons, List.map_append]
      exact (hkl.seenFrom_perm hs ht hf hv).append ih
  exact hmatched.trans ((hperm.flatMap_right _).map _)

theorem withId_mem_requirements (hs : s.Sound) {f : StoredId → StoredId}
    {r : Requirement StoredId} (hr : r ∈ s.requirements)
    (htwin : s.Twin t (.requirement r.id) (.requirement (f r.id))) :
    r.withId (f r.id) ∈ t.requirements := by
  obtain ⟨r', hr', hid, hmem⟩ := htwin
  rwa [Keyed.eq_of_key hs.requirementIds_nodup hr' hr hid] at hmem

theorem withId_mem_nodes (hs : s.Sound) {f : StoredId → StoredId} {n : Node StoredId}
    (hn : n ∈ s.nodes) (htwin : s.Twin t (.node n.id) (.node (f n.id))) :
    n.withId (f n.id) ∈ t.nodes := by
  obtain ⟨n', hn', hid, hmem⟩ := htwin
  rwa [Keyed.eq_of_key hs.nodeIds_nodup hn' hn hid] at hmem

theorem linkTo?_mapId (hs : s.Sound) (ht : t.Sound) {f : StoredId → StoredId}
    {far : Vertex × Relation} (htwin : s.Twin t far.1 (far.1.mapId f)) :
    t.linkTo? (far.1.mapId f, far.2) = (s.linkTo? far).map (Document.mapLink f) := by
  have hmem := htwin.left_mem
  obtain ⟨x, relation⟩ := far
  cases x with
  | requirement id =>
    obtain ⟨r, hr, rfl⟩ := requirement_mem_vertices.1 hmem
    have hsr : s.requirement? r.id = some r := hs.requirement?_iff.2 ⟨hr, rfl⟩
    have htr : t.requirement? (f r.id) = some (r.withId (f r.id)) :=
      ht.requirement?_iff.2 ⟨withId_mem_requirements hs hr htwin, rfl⟩
    simp only [linkTo?, entity?, Vertex.mapId, hsr, htr]
    rfl
  | node id =>
    obtain ⟨n, hn, rfl⟩ := node_mem_vertices.1 hmem
    have hsn : s.node? n.id = some n := hs.node?_iff.2 ⟨hn, rfl⟩
    have htn : t.node? (f n.id) = some (n.withId (f n.id)) :=
      ht.node?_iff.2 ⟨withId_mem_nodes hs hn htwin, rfl⟩
    simp only [linkTo?, entity?, Vertex.mapId, hsn, htn]
    rfl

theorem requirements_perm (hs : s.Sound) (ht : t.Sound)
    (hrequirements : ∀ q ∈ t.requirements, ∃ r ∈ s.requirements, q = r.withId q.id)
    {f : StoredId → StoredId} (htwin : ∀ v ∈ s.vertices, s.Twin t v (v.mapId f)) :
    t.requirements.Perm (s.requirements.map fun r => r.withId (f r.id)) := by
  refine Keyed.perm_of_keys ht.names_nodup ?_ (fun q hq => ?_)
    fun q hq => ?_
  · rw [List.map_map]
    exact hs.names_nodup
  · obtain ⟨r, hr, rfl⟩ := List.mem_map.1 hq
    exact withId_mem_requirements hs hr (htwin _ (requirement_mem_vertices.2 ⟨r, hr, rfl⟩))
  · obtain ⟨r, hr, heq⟩ := hrequirements q hq
    refine ⟨_, List.mem_map_of_mem hr, ?_⟩
    rw [heq]
    rfl

theorem nodes_perm (hs : s.Sound) (ht : t.Sound)
    (hnodes : ∀ m ∈ t.nodes, ∃ n ∈ s.nodes, m = n.withId m.id)
    {f : StoredId → StoredId} (htwin : ∀ v ∈ s.vertices, s.Twin t v (v.mapId f)) :
    t.nodes.Perm (s.nodes.map fun n => n.withId (f n.id)) := by
  refine Keyed.perm_of_keys ht.keys_nodup ?_ (fun m hm => ?_) fun m hm => ?_
  · rw [List.map_map]
    exact hs.keys_nodup
  · obtain ⟨n, hn, rfl⟩ := List.mem_map.1 hm
    exact withId_mem_nodes hs hn (htwin _ (node_mem_vertices.2 ⟨n, hn, rfl⟩))
  · obtain ⟨n, hn, heq⟩ := hnodes m hm
    refine ⟨_, List.mem_map_of_mem hn, ?_⟩
    rw [heq]
    rfl

/-- A store is a copy of another one when its entities are twins of the entities there, all of them,
and its links match the links there, one by one. -/
theorem isCopy_of_twins (hs : s.Sound) (ht : t.Sound)
    (hrequirements : ∀ q ∈ t.requirements, ∃ r ∈ s.requirements, q = r.withId q.id)
    (hnodes : ∀ m ∈ t.nodes, ∃ n ∈ s.nodes, m = n.withId m.id)
    (htwin : ∀ v ∈ s.vertices, ∃ w, s.Twin t v w) {links : List StoredLink}
    (hperm : links.Perm s.links) (hlinks : List.Forall₂ (s.Matches t) links t.links) :
    ∃ f, s.IsCopy f t := by
  obtain ⟨f, htwin, hf⟩ := exists_map_twin hs ht htwin
  refine ⟨f, requirements_perm hs ht hrequirements htwin, nodes_perm hs ht hnodes htwin,
    fun v hv => ?_, fun v hv w hw hid => ?_⟩
  · have hseen := (seen_perm hs ht hperm hlinks hf (htwin v hv)).filterMap t.linkTo?
    rw [List.filterMap_map] at hseen
    have hmap : (s.seen v).filterMap (t.linkTo? ∘ fun far => (far.1.mapId f, far.2)) =
        ((s.seen v).filterMap s.linkTo?).map (Document.mapLink f) := by
      rw [List.map_filterMap]
      exact List.filterMap_congr fun far hfar =>
        linkTo?_mapId hs ht (htwin far.1 (hs.mem_vertices_of_seen hfar))
    rw [hmap] at hseen
    exact (linksOf_perm ht.plain _).trans (hseen.trans ((linksOf_perm hs.plain v).symm.map _))
  · -- the twins have one identity and are one vertex
    have hv' := htwin v hv
    have hw' := htwin w hw
    have heq : v.mapId f = w.mapId f := by
      refine ht.vertex_eq_of_id hv'.right_mem hw'.right_mem ?_
      cases v <;> cases w <;> exact hid
    rw [heq] at hv'
    exact hv'.left_unique hs ht hw'

end Store

end Crosswalk
