import Crosswalk.Catalog.Export
import Crosswalk.Proofs.Catalog.Run
import Crosswalk.Proofs.Exchange.MergeKey
import Crosswalk.Proofs.Exchange.RoundTrip
import Crosswalk.Proofs.Exchange.View
import Crosswalk.Proofs.Store.View

/-!
# Catalogues in sheets

The sheet of an exported catalogue is read as the catalogue again, as far as a sheet can hold it:
every requirement with all its links, and those nodes that no requirement is linked to or that are
contained in one.
-/

namespace Crosswalk

/-- A text that stands in a cell as it is and in a merge key as one part. -/
def Text.IsPlain (s : String) : Prop :=
  Text.trim s = s ∧ '\u001f' ∉ s.toList

instance (s : String) : Decidable (Text.IsPlain s) :=
  inferInstanceAs (Decidable (_ ∧ _))

namespace Store

/-- What a store must be like for its sheet to hold it. -/
structure Exportable (s : Store) : Prop where
  identifiers : s.requirements.Pairwise fun r q =>
    r.externalText = q.externalText → r.externalText = ""
  requirement_texts : ∀ r ∈ s.requirements,
    ∀ text ∈ [r.name, r.externalText, r.description], Text.IsPlain text
  node_texts : ∀ n ∈ s.nodes,
    ∀ text ∈ n.name :: Attribute.all.map (Attribute.valueOf n), Text.IsPlain text
  versions : ∀ n ∈ s.nodes, n.version = ""
  told : ∀ n ∈ s.nodes, s.linksOf (.node n.id) = [] →
    ∃ attr ∈ Attribute.ofKind n.kind, attr.valueOf n ≠ ""
  /-- Columns are numbered by machine words, and no list in memory is longer than these reach. -/
  bounded : ∀ r ∈ s.requirements,
    (Sheet.linkedRequirements (s.linksOf (.requirement r.id))).length < UInt64.size

/-- The nodes that no requirement is linked to. -/
def unlinkedNodes (s : Store) : List (Node StoredId) :=
  s.nodes.filter fun n => (s.linksOf (.node n.id)).isEmpty

/-- The nodes that a requirement contains. -/
def containedNodes (s : Store) : List (Node StoredId) :=
  s.nodes.filter fun n => s.links.any fun l =>
    l.kind = .external && l.relation = .contains && l.target = n.id

/-- The links from a node back to the requirements that contain it. -/
def backLinks (s : Store) (n : Node StoredId) : Set (Relation × Face) :=
  {x | ∃ l ∈ s.links, l.kind = .external ∧ l.relation = .contains ∧ l.target = n.id ∧
    ∃ r ∈ s.requirements, r.id = l.source ∧ x = (.partOf, (Entity.requirement r).face)}

theorem Exportable.eq_of_externalId {s : Store} (h : s.Exportable) {r q : Requirement StoredId}
    (hr : r ∈ s.requirements) (hq : q ∈ s.requirements) (hid : r.externalId = q.externalId)
    (hne : r.externalText ≠ "") : r = q := by
  have hsymm : Std.Symm fun a b : Requirement StoredId =>
      a.externalText = b.externalText → a.externalText = "" :=
    ⟨fun a b hsame heq => heq.trans (hsame heq.symm)⟩
  by_contra hrq
  refine hne (h.identifiers.forall hr hq hrq ?_)
  unfold Requirement.externalText
  rw [hid]

theorem Exportable.keyParts {s : Store} (h : s.Exportable) {n : Node StoredId} (hn : n ∈ s.nodes) :
    ∀ x ∈ n.keyParts, '\u001f' ∉ x.toList := by
  have hvalue : ∀ attr : Attribute, '\u001f' ∉ (attr.valueOf n).toList := fun attr =>
    (h.node_texts n hn _ (List.mem_cons_of_mem _ (List.mem_map_of_mem attr.mem_all))).2
  have hkind : '\u001f' ∉ n.kind.text.toList := by cases n.kind <;> decide
  intro x hx
  unfold Node.keyParts at hx
  simp only [List.mem_cons, List.not_mem_nil, or_false] at hx
  rcases hx with rfl | rfl | rfl | rfl | rfl | rfl
  · exact hkind
  · exact (h.node_texts n hn _ List.mem_cons_self).2
  · exact hvalue .sectionTitle
  · exact hvalue .subsection
  · exact hvalue .description
  · rw [h.versions n hn]
    decide

/-! ### Entities and their links -/

namespace Sound

variable {s : Store}

theorem mem_linksOf (h : s.Sound) {v : Vertex} {k : Link StoredId} :
    k ∈ s.linksOf v ↔ ∃ e relation, s.Holds e ∧ (e.vertex, relation) ∈ s.seen v ∧
      k = .mk relation (.ofEntity e) := by
  rw [Store.linksOf_perm h.plain v |>.mem_iff, List.mem_filterMap]
  constructor
  · rintro ⟨⟨w, relation⟩, hseen, hk⟩
    obtain ⟨e, he, rfl⟩ := Option.map_eq_some_iff.1 hk
    have hvertex : e.vertex = w := h.vertex_of_entity? he
    subst hvertex
    exact ⟨e, relation, he, hseen, rfl⟩
  · rintro ⟨e, relation, he, hseen, rfl⟩
    refine ⟨_, hseen, ?_⟩
    unfold linkTo?
    rw [he]
    rfl

theorem eq_of_face (h : s.Sound) (hx : s.Exportable) {e e' : Entity StoredId} (he : s.Holds e)
    (he' : s.Holds e') (hface : e.face = e'.face) : e = e' := by
  cases e with
  | requirement r =>
    cases e' with
    | requirement q =>
      have hname : r.name = q.name := (Face.requirement.inj hface).1
      have hr := h.holds_requirement.1 he
      have hq := h.holds_requirement.1 he'
      rw [Keyed.eq_of_key h.names_nodup hr hq hname]
    | node m => cases hface
  | node n =>
    cases e' with
    | requirement q => cases hface
    | node m =>
      have hn := h.holds_node.1 he
      have hm := h.holds_node.1 he'
      obtain ⟨hkind, hname, hvalue⟩ := Face.node.inj hface
      have hsection : n.sectionTitle = m.sectionTitle := congrFun hvalue .sectionTitle
      have hsubsection : n.subsection = m.subsection := congrFun hvalue .subsection
      have hdescription : n.description = m.description := congrFun hvalue .description
      have hversion : n.version = m.version := (hx.versions n hn).trans (hx.versions m hm).symm
      have hkey : n.key = m.key := by
        unfold Node.key
        rw [hname, hsection, hsubsection, hkind, hdescription, hversion]
      rw [Keyed.eq_of_key h.keys_nodup hn hm hkey]

theorem eq_of_mergeKey (h : s.Sound) (hx : s.Exportable) {e e' : Entity StoredId} (he : s.Holds e)
    (he' : s.Holds e') (hkey : mergeKey e = mergeKey e') : e = e' := by
  cases e with
  | requirement r =>
    cases e' with
    | requirement q =>
      obtain ⟨hid, hname⟩ := eq_of_mergeKey_requirement hkey
      have hr := h.holds_requirement.1 he
      have hq := h.holds_requirement.1 he'
      cases hrid : r.externalId with
      | none => rw [Keyed.eq_of_key h.names_nodup hr hq (hname hrid)]
      | some id =>
        have htext : r.externalText ≠ "" := by
          unfold Requirement.externalText
          rw [hrid]
          exact id.text_ne_empty
        rw [hx.eq_of_externalId hr hq hid htext]
    | node m => exact absurd hkey (mergeKey_requirement_ne_node r m)
  | node n =>
    cases e' with
    | requirement q => exact absurd hkey.symm (mergeKey_requirement_ne_node q n)
    | node m =>
      have hn := h.holds_node.1 he
      have hm := h.holds_node.1 he'
      have hnodes := key_eq_of_undivided (.inl (hx.keyParts hn)) hkey
      rw [Keyed.eq_of_key h.keys_nodup hn hm hnodes]

theorem requirement_plain (h : s.Sound) (hx : s.Exportable) {r : Requirement StoredId}
    (hr : r ∈ s.requirements) : r.Plain where
  externalId := (hx.requirement_texts r hr r.externalText (by simp)).1
  name := (hx.requirement_texts r hr r.name (by simp)).1
  name_ne := (h.names_trimmed r.name (List.mem_map_of_mem hr)).2
  description := (hx.requirement_texts r hr r.description (by simp)).1

theorem node_plain (h : s.Sound) (hx : s.Exportable) {n : Node StoredId} (hn : n ∈ s.nodes) :
    n.Plain where
  name := (hx.node_texts n hn _ List.mem_cons_self).1
  name_ne := (h.keys_trimmed n.key (List.mem_map_of_mem hn)).2
  values := fun attr =>
    (hx.node_texts n hn _ (List.mem_cons_of_mem _ (List.mem_map_of_mem attr.mem_all))).1
  version := hx.versions n hn

end Sound

end Store

/-! ### The export of a catalogue -/

namespace Catalog

variable {c : Catalog}

theorem mem_exported {d : Document StoredId} :
    d ∈ c.exported ↔
      (∃ r ∈ c.store.requirements, d = c.store.hydrate (.requirement r)) ∨
        ∃ n ∈ c.store.nodes, c.store.linksOf (.node n.id) = [] ∧ d = .ofNode n := by
  unfold exported Store.allRequirements Store.sortRequirements Store.allNodes
  rw [List.mem_append, List.mem_map, List.mem_map]
  simp only [List.mem_filter, Text.mem_sortOn, List.isEmpty_iff, and_assoc, eq_comm (b := d)]

theorem mem_requirementsOf_exported {p : Requirement StoredId × List (Link StoredId)} :
    p ∈ Sheet.requirementsOf c.exported ↔
      p.1 ∈ c.store.requirements ∧ p.2 = c.store.linksOf (.requirement p.1.id) := by
  unfold Sheet.requirementsOf
  rw [List.mem_filterMap]
  constructor
  · rintro ⟨d, hd, hp⟩
    rcases mem_exported.1 hd with ⟨r, hr, rfl⟩ | ⟨n, -, -, rfl⟩
    · cases hp
      exact ⟨hr, rfl⟩
    · cases hp
  · rintro ⟨hr, hlinks⟩
    refine ⟨_, mem_exported.2 (.inl ⟨p.1, hr, rfl⟩), ?_⟩
    exact congrArg (fun links => some (p.1, links)) hlinks.symm

theorem requirement_exported {r : Requirement StoredId} (hr : r ∈ c.store.requirements) :
    (r, c.store.linksOf (.requirement r.id)) ∈ Sheet.requirementsOf c.exported :=
  mem_requirementsOf_exported.2 ⟨hr, rfl⟩

theorem mem_standaloneNodes_exported {n : Node StoredId} :
    n ∈ Sheet.standaloneNodes c.exported ↔
      n ∈ c.store.nodes ∧ c.store.linksOf (.node n.id) = [] := by
  unfold Sheet.standaloneNodes
  rw [List.mem_filterMap]
  constructor
  · rintro ⟨d, hd, hn⟩
    rcases mem_exported.1 hd with ⟨r, -, rfl⟩ | ⟨m, hm, hnone, rfl⟩
    · split at hn <;> cases hn
    · cases hn
      exact ⟨hm, hnone⟩
  · rintro ⟨hn, hnone⟩
    exact ⟨_, mem_exported.2 (.inr ⟨n, hn, hnone, rfl⟩), rfl⟩

theorem writable_exported (h : c.store.Sound) (hx : c.store.Exportable) :
    Sheet.Writable c.exported where
  requirement := by
    intro p hp
    exact h.requirement_plain hx (mem_requirementsOf_exported.1 hp).1
  peer := by
    intro p hp q hq
    obtain ⟨k, hk, -, hpeer⟩ := Sheet.mem_linkedRequirements.1 hq
    rw [(mem_requirementsOf_exported.1 hp).2] at hk
    obtain ⟨e, relation, he, -, rfl⟩ := h.mem_linksOf.1 hk
    have hq : e = .requirement q.2 := hpeer
    subst hq
    exact h.requirement_plain hx (h.holds_requirement.1 he)
  node := by
    intro p hp q hq
    obtain ⟨k, hk, -, hpeer⟩ := Sheet.mem_linkedNodes.1 hq
    rw [(mem_requirementsOf_exported.1 hp).2] at hk
    obtain ⟨e, relation, he, -, rfl⟩ := h.mem_linksOf.1 hk
    have hq : e = .node q.2 := hpeer
    subst hq
    exact h.node_plain hx (h.holds_node.1 he)
  standalone := by
    intro n hn
    obtain ⟨hmem, hnone⟩ := mem_standaloneNodes_exported.1 hn
    obtain ⟨attr, hattr, hvalue⟩ := hx.told n hmem hnone
    refine ⟨h.node_plain hx hmem, attr, hattr, ?_, hvalue⟩
    rintro rfl
    exact hvalue rfl
  bounded := by
    intro p hp
    obtain ⟨hr, hlinks⟩ := mem_requirementsOf_exported.1 hp
    rw [hlinks]
    exact hx.bounded p.1 hr

/-! ### What is read of the export -/

/-- What a stored entity is told to be linked to in the sheet: all that a requirement sees, and the
requirements of which a node is a part. -/
def Told (s : Store) (e : Entity StoredId) (relation : Relation) (e' : Entity StoredId) : Prop :=
  s.Holds e' ∧ (e'.vertex, relation) ∈ s.seen e.vertex ∧
    (e.vertex.isRequirement = true ∨ relation = .partOf)

/-- What is told of the links of an entity, without identities. -/
def toldFaces (s : Store) (e : Entity StoredId) : Set (Relation × Face) :=
  {x | ∃ relation e', Told s e relation e' ∧ x = (relation, e'.face)}

section Reading

variable (h : c.store.Sound) {read : List (Document Unit)} (hread : Sheet.Reads c.exported read)

include h hread

theorem peer_shows {d : Document Unit} (hd : d ∈ read) {l : Link Unit} (hl : l ∈ d.links) :
    ∃ e, c.store.Holds e ∧ e.Shows l.peer.entity := by
  rcases hread.sort d hd with ⟨p, hp, -, hlinks⟩ | ⟨p, hp, k, -, -, rfl⟩ | ⟨n, -, rfl⟩
  · obtain ⟨k, hk, rfl⟩ := hlinks l hl
    rw [(mem_requirementsOf_exported.1 hp).2] at hk
    obtain ⟨e, relation, he, -, rfl⟩ := h.mem_linksOf.1 hk
    exact ⟨e, he, .inr rfl⟩
  · obtain rfl := List.mem_singleton.1 hl
    exact ⟨_, h.holds_requirement.2 (mem_requirementsOf_exported.1 hp).1, .inl rfl⟩
  · exact absurd hl List.not_mem_nil

theorem contained_read {r : Requirement StoredId} (hr : r ∈ c.store.requirements)
    {n : Node StoredId} (hn : n ∈ c.store.nodes)
    (hseen : (Vertex.requirement r.id, .partOf) ∈ c.store.seen (.node n.id)) :
    .mk (.node n.bare) [.mk .partOf (.ofRequirement r.bare)] ∈ read := by
  have hk : Link.mk .contains (.ofEntity (.node n)) ∈ c.store.linksOf (.requirement r.id) :=
    h.mem_linksOf.2 ⟨.node n, .contains, h.holds_node.2 hn, c.store.seen_comm hseen, rfl⟩
  exact hread.contained _ (requirement_exported hr) _ hk rfl

variable (hx : c.store.Exportable)

include hx

omit hread in
/-- What a requirement contains sees the requirement as the whole. -/
theorem seen_of_contained {p : Requirement StoredId × List (Link StoredId)}
    (hp : p ∈ Sheet.requirementsOf c.exported) {k : Link StoredId} (hk : k ∈ p.2)
    (hcontains : k.relation = .contains) {e : Entity StoredId} (he : c.store.Holds e)
    (hkey : mergeKey k.peer.entity.stub = mergeKey e) :
    (Vertex.requirement p.1.id, .partOf) ∈ c.store.seen e.vertex := by
  rw [(mem_requirementsOf_exported.1 hp).2] at hk
  obtain ⟨e', relation, he', hseen, rfl⟩ := h.mem_linksOf.1 hk
  have hstub : mergeKey e'.stub = mergeKey e' := Entity.Shows.mergeKey (.inr rfl)
  obtain rfl := h.eq_of_mergeKey hx he' he (hstub.symm.trans hkey)
  obtain rfl : relation = .contains := hcontains
  exact c.store.seen_comm hseen

/-- The links that are read of a stored entity are those that are told. -/
theorem tells_iff {e : Entity StoredId} (he : c.store.Holds e) {x : Relation × String} :
    (∃ d ∈ read, mergeKey d.entity = mergeKey e ∧ d.Tells x) ↔
      ∃ relation e', Told c.store e relation e' ∧ x = (relation, mergeKey e') := by
  have hstub : ∀ e' : Entity StoredId, mergeKey e'.stub = mergeKey e' := fun e' =>
    Entity.Shows.mergeKey (.inr rfl)
  constructor
  · rintro ⟨d, hd, hkey, l, hl, rfl⟩
    rcases hread.sort d hd with ⟨p, hp, hentity, hlinks⟩ | ⟨p, hp, k, hk, hcontains, rfl⟩ |
      ⟨n, -, rfl⟩
    · -- a row of a requirement
      obtain ⟨hr, hall⟩ := mem_requirementsOf_exported.1 hp
      obtain ⟨k, hk, rfl⟩ := hlinks l hl
      rw [hall] at hk
      obtain ⟨e', relation, he', hseen, rfl⟩ := h.mem_linksOf.1 hk
      rw [hentity] at hkey
      obtain rfl := h.eq_of_mergeKey hx (h.holds_requirement.2 hr) he hkey
      exact ⟨relation, e', ⟨he', hseen, .inl rfl⟩, congrArg _ (hstub e')⟩
    · -- what a requirement contains
      have hseen := seen_of_contained h hx hp hk hcontains he hkey
      obtain rfl := List.mem_singleton.1 hl
      have hr := h.holds_requirement.2 (mem_requirementsOf_exported.1 hp).1
      exact ⟨.partOf, .requirement p.1, ⟨hr, hseen, .inr rfl⟩, rfl⟩
    · exact absurd hl List.not_mem_nil
  · rintro ⟨relation, e', ⟨he', hseen, hor⟩, rfl⟩
    cases e with
    | requirement r =>
      have hp := requirement_exported (h.holds_requirement.1 he)
      have hk : Link.mk relation (.ofEntity e') ∈ c.store.linksOf (.requirement r.id) :=
        h.mem_linksOf.2 ⟨e', relation, he', hseen, rfl⟩
      obtain ⟨d, hd, hentity, hl⟩ := hread.link _ hp _ hk
      refine ⟨d, hd, ?_, _, hl, congrArg _ (hstub e')⟩
      rw [hentity]
      rfl
    | node n =>
      have hnode : ¬ (Entity.node n).vertex.isRequirement = true := Bool.false_ne_true
      obtain rfl := hor.resolve_left hnode
      cases e' with
      | requirement r =>
        have hr := h.holds_requirement.1 he'
        exact ⟨_, contained_read h hread hr (h.holds_node.1 he) hseen, rfl, _,
          List.mem_singleton_self _, rfl⟩
      | node m => exact absurd (c.store.isRequirement_of_seen_node hseen) Bool.false_ne_true

/-- A node is read when no requirement is linked to it or one contains it. -/
theorem node_read_iff {n : Node StoredId} (hn : n ∈ c.store.nodes) :
    (∃ d ∈ read, mergeKey d.entity = mergeKey (.node n)) ↔
      c.store.linksOf (.node n.id) = [] ∨
        ∃ r ∈ c.store.requirements,
          (Vertex.requirement r.id, .partOf) ∈ c.store.seen (.node n.id) := by
  have he := h.holds_node.2 hn
  constructor
  · rintro ⟨d, hd, hkey⟩
    rcases hread.sort d hd with ⟨p, hp, hentity, -⟩ | ⟨p, hp, k, hk, hcontains, rfl⟩ |
      ⟨m, hm, rfl⟩
    · rw [hentity] at hkey
      exact absurd hkey (mergeKey_requirement_ne_node p.1.bare n.bare)
    · exact .inr ⟨p.1, (mem_requirementsOf_exported.1 hp).1,
        seen_of_contained h hx hp hk hcontains he hkey⟩
    · obtain ⟨hmem, hnone⟩ := mem_standaloneNodes_exported.1 hm
      have hnode := h.eq_of_mergeKey hx (h.holds_node.2 hmem) he hkey
      rw [Entity.node.inj hnode] at hnone
      exact .inl hnone
  · rintro (hnone | ⟨r, hr, hseen⟩)
    · exact ⟨_, hread.standalone n (mem_standaloneNodes_exported.2 ⟨hn, hnone⟩), rfl⟩
    · exact ⟨_, contained_read h hread hr hn hseen, rfl⟩

variable {entries : List (String × Document Unit)}
  (hmerges : Merged.Merges c.store.Holds read entries)

include hmerges

theorem linkFaces_entry {p : String × Document Unit} (hp : p ∈ entries) {e : Entity StoredId}
    (he : c.store.Holds e) (hkey : mergeKey e = p.1) : p.2.linkFaces = toldFaces c.store e := by
  have hsums := hmerges.sums p hp
  have htells : ∀ x, p.2.Tells x ↔
      ∃ relation e', Told c.store e relation e' ∧ x = (relation, mergeKey e') := by
    intro x
    rw [hsums.tells x, ← hkey]
    exact tells_iff h hread hx he
  have hface : ∀ l ∈ p.2.links, ∀ e', c.store.Holds e' →
      mergeKey l.peer.entity = mergeKey e' → l.peer.entity.face = e'.face := by
    intro l hl e' he' hkey'
    obtain ⟨d, hd, hmem⟩ := hsums.links l hl
    obtain ⟨e'', he'', hshows⟩ := peer_shows h hread hd hmem
    obtain rfl := h.eq_of_mergeKey hx he'' he' (hshows.mergeKey.symm.trans hkey')
    exact hshows.face
  ext x
  constructor
  · rintro ⟨l, hl, rfl⟩
    obtain ⟨relation, e', htold, heq⟩ := (htells _).1 ⟨l, hl, rfl⟩
    obtain ⟨hrelation, hkey'⟩ := Prod.mk.inj heq
    exact ⟨relation, e', htold, by rw [hrelation, hface l hl e' htold.1 hkey']⟩
  · rintro ⟨relation, e', htold, rfl⟩
    obtain ⟨l, hl, heq⟩ := (htells _).2 ⟨relation, e', htold, rfl⟩
    obtain ⟨hrelation, hkey'⟩ := Prod.mk.inj heq
    exact ⟨l, hl, by rw [hrelation, hface l hl e' htold.1 hkey']⟩

/-- What is kept under a key is a stored entity, complete, with the links that are told. -/
theorem entry {p : String × Document Unit} (hp : p ∈ entries) :
    ∃ e, c.store.Holds e ∧ mergeKey e = p.1 ∧ p.2.entity = e.bare ∧
      p.2.linkFaces = toldFaces c.store e := by
  obtain ⟨e, he, hkey, hshows, hbare⟩ := (hmerges.sums p hp).entity
  refine ⟨e, he, hkey, ?_, linkFaces_entry h hread hx hmerges hp he hkey⟩
  cases e with
  | requirement r =>
    have hr := requirement_exported (h.holds_requirement.1 he)
    exact hbare.2 (hread.requirement _ hr)
  | node n => exact hshows.elim id id

theorem exists_entry {e : Entity StoredId} (he : c.store.Holds e)
    (hd : ∃ d ∈ read, mergeKey d.entity = mergeKey e) :
    ∃ p ∈ entries, p.2.entity = e.bare ∧ p.2.linkFaces = toldFaces c.store e := by
  obtain ⟨p, hp, hkey⟩ := List.mem_map.1 ((hmerges.covered _).2 hd)
  obtain ⟨e', he', hkey', hentity, hlinks⟩ := entry h hread hx hmerges hp
  obtain rfl := h.eq_of_mergeKey hx he' he (hkey'.trans hkey)
  exact ⟨p, hp, hentity, hlinks⟩

/-- No two of the documents that are kept say the same of their entities. -/
theorem faces_nodup : ((entries.map (·.2)).map fun d => d.entity.face).Nodup := by
  rw [List.map_map]
  refine List.Nodup.map_on (fun p hp q hq hface => ?_) hmerges.keys_nodup.of_map
  obtain ⟨e, he, hkey, hentity, -⟩ := entry h hread hx hmerges hp
  obtain ⟨e', he', hkey', hentity', -⟩ := entry h hread hx hmerges hq
  have hshown : e.bare.face = e'.bare.face := by
    rw [← hentity, ← hentity']
    exact hface
  have hboth : e.face = e'.face :=
    (Entity.Shows.face (.inl rfl)).symm.trans (hshown.trans (Entity.Shows.face (.inl rfl)))
  obtain rfl := h.eq_of_face hx he he' hboth
  exact Keyed.eq_of_key hmerges.keys_nodup hp hq (hkey.symm.trans hkey')

end Reading

/-! ### What is stored -/

theorem linkFaces_hydrate (h : c.store.Sound) (r : Requirement StoredId) :
    (c.store.hydrate (.requirement r)).linkFaces = toldFaces c.store (.requirement r) := by
  ext x
  constructor
  · rintro ⟨l, hl, rfl⟩
    change l ∈ c.store.linksOf (.requirement r.id) at hl
    obtain ⟨e, relation, he, hseen, rfl⟩ := h.mem_linksOf.1 hl
    exact ⟨relation, e, ⟨he, hseen, .inl rfl⟩, rfl⟩
  · rintro ⟨relation, e, ⟨he, hseen, -⟩, rfl⟩
    exact ⟨_, h.mem_linksOf.2 ⟨e, relation, he, hseen, rfl⟩, rfl⟩

theorem partOf_mem_seen_node {s : Store} (hs : s.Sound) {id target : StoredId} :
    (Vertex.requirement id, .partOf) ∈ s.seen (.node target) ↔
      ∃ l ∈ s.links, l.kind = .external ∧ l.relation = .contains ∧ l.target = target ∧
        l.source = id := by
  have hinverse : ∀ relation : Relation, relation.inverse = .partOf ↔ relation = .contains := by
    intro relation
    cases relation <;> decide
  rw [Store.seen_node hs.plain, Store.incoming_eq hs.plain]
  simp only [List.mem_map, List.mem_filter, Bool.and_eq_true, decide_eq_true_eq]
  constructor
  · rintro ⟨e, ⟨l, ⟨hl, hkind, htarget⟩, rfl⟩, heq⟩
    obtain ⟨hsource, hrelation⟩ := Prod.mk.inj heq
    exact ⟨l, hl, hkind, (hinverse _).1 hrelation, htarget, Vertex.requirement.inj hsource⟩
  · rintro ⟨l, hl, hkind, hrelation, htarget, rfl⟩
    exact ⟨_, ⟨l, ⟨hl, hkind, htarget⟩, rfl⟩, by rw [(hinverse _).2 hrelation]⟩

theorem mem_containedNodes (h : c.store.Sound) {n : Node StoredId} :
    n ∈ c.store.containedNodes ↔ n ∈ c.store.nodes ∧ ∃ r ∈ c.store.requirements,
      (Vertex.requirement r.id, .partOf) ∈ c.store.seen (.node n.id) := by
  unfold Store.containedNodes
  simp only [List.mem_filter, List.any_eq_true, Bool.and_eq_true, decide_eq_true_eq,
    partOf_mem_seen_node h]
  refine and_congr_right fun _ => ?_
  constructor
  · rintro ⟨l, hl, ⟨hkind, hrelation⟩, htarget⟩
    obtain ⟨r, hr, hid⟩ := Store.requirement_mem_vertices.1 (h.ends l hl).1
    exact ⟨r, hr, l, hl, hkind, hrelation, htarget, hid.symm⟩
  · rintro ⟨r, -, l, hl, hkind, hrelation, htarget, -⟩
    exact ⟨l, hl, ⟨hkind, hrelation⟩, htarget⟩

theorem toldFaces_node (h : c.store.Sound) (n : Node StoredId) :
    toldFaces c.store (.node n) = c.store.backLinks n := by
  ext x
  constructor
  · rintro ⟨relation, e, ⟨he, hseen, hor⟩, rfl⟩
    obtain rfl := hor.resolve_left Bool.false_ne_true
    cases e with
    | requirement r =>
      obtain ⟨l, hl, hkind, hrelation, htarget, hsource⟩ := (partOf_mem_seen_node h).1 hseen
      exact ⟨l, hl, hkind, hrelation, htarget, r, h.holds_requirement.1 he, hsource.symm, rfl⟩
    | node m => exact absurd (c.store.isRequirement_of_seen_node hseen) Bool.false_ne_true
  · rintro ⟨l, hl, hkind, hrelation, htarget, r, hr, hsource, rfl⟩
    have hseen : (Vertex.requirement r.id, .partOf) ∈ c.store.seen (.node n.id) :=
      (partOf_mem_seen_node h).2 ⟨l, hl, hkind, hrelation, htarget, hsource.symm⟩
    exact ⟨.partOf, .requirement r, ⟨h.holds_requirement.2 hr, hseen, .inr rfl⟩, rfl⟩

theorem mem_unlinkedNodes {n : Node StoredId} :
    n ∈ c.store.unlinkedNodes ↔ n ∈ c.store.nodes ∧ c.store.linksOf (.node n.id) = [] := by
  unfold Store.unlinkedNodes
  rw [List.mem_filter, List.isEmpty_iff]

theorem seen_eq_nil_of_unlinked (h : c.store.Sound) {n : Node StoredId}
    (hn : n ∈ c.store.unlinkedNodes) : c.store.seen (.node n.id) = [] := by
  have hlength := h.length_linksOf (.node n.id)
  rw [(mem_unlinkedNodes.1 hn).2] at hlength
  exact List.eq_nil_of_length_eq_zero hlength.symm

theorem toldFaces_unlinked (h : c.store.Sound) {n : Node StoredId}
    (hn : n ∈ c.store.unlinkedNodes) : toldFaces c.store (.node n) = ∅ := by
  rw [Set.eq_empty_iff_forall_notMem]
  rintro x ⟨relation, e, ⟨-, hseen, -⟩, -⟩
  have hnil : c.store.seen (Entity.node n).vertex = [] := seen_eq_nil_of_unlinked h hn
  rw [hnil] at hseen
  exact List.not_mem_nil hseen

/-- What documents of nodes are read of the sheet of a store. -/
def restoredNodes (s : Store) : List NodeView :=
  s.unlinkedNodes.map (fun n => ⟨(Entity.node n).face, ∅⟩) ++
    s.containedNodes.map fun n => ⟨(Entity.node n).face, s.backLinks n⟩

theorem mem_restoredNodes (h : c.store.Sound) {v : NodeView} :
    v ∈ restoredNodes c.store ↔ ∃ n ∈ c.store.nodes,
      (c.store.linksOf (.node n.id) = [] ∨ ∃ r ∈ c.store.requirements,
        (Vertex.requirement r.id, .partOf) ∈ c.store.seen (.node n.id)) ∧
      v = ⟨(Entity.node n).face, toldFaces c.store (.node n)⟩ := by
  unfold restoredNodes
  rw [List.mem_append, List.mem_map, List.mem_map]
  constructor
  · rintro (⟨n, hn, rfl⟩ | ⟨n, hn, rfl⟩)
    · obtain ⟨hmem, hnone⟩ := mem_unlinkedNodes.1 hn
      exact ⟨n, hmem, .inl hnone, by rw [toldFaces_unlinked h hn]⟩
    · obtain ⟨hmem, hcontained⟩ := (mem_containedNodes h).1 hn
      exact ⟨n, hmem, .inr hcontained, by rw [toldFaces_node h]⟩
  · rintro ⟨n, hn, hnone | hcontained, rfl⟩
    · have hunlinked := mem_unlinkedNodes.2 ⟨hn, hnone⟩
      exact .inl ⟨n, hunlinked, by rw [toldFaces_unlinked h hunlinked]⟩
    · exact .inr ⟨n, (mem_containedNodes h).2 ⟨hn, hcontained⟩, by rw [toldFaces_node h]⟩

theorem restoredNodes_nodup (h : c.store.Sound) (hx : c.store.Exportable) :
    (restoredNodes c.store).Nodup := by
  have hnodes : (c.store.unlinkedNodes ++ c.store.containedNodes).Nodup := by
    have hall : c.store.nodes.Nodup := h.nodeIds_nodup.of_map
    rw [List.nodup_append]
    refine ⟨hall.filter _, hall.filter _, fun n hn m hm hnm => ?_⟩
    subst hnm
    obtain ⟨-, r, -, hseen⟩ := (mem_containedNodes h).1 hm
    rw [seen_eq_nil_of_unlinked h hn] at hseen
    exact List.not_mem_nil hseen
  have hmem : ∀ n ∈ c.store.unlinkedNodes ++ c.store.containedNodes, n ∈ c.store.nodes := by
    intro n hn
    rcases List.mem_append.1 hn with hn | hn
    · exact (mem_unlinkedNodes.1 hn).1
    · exact ((mem_containedNodes h).1 hn).1
  have hfaces : ((restoredNodes c.store).map NodeView.face).Nodup := by
    have hmap : (restoredNodes c.store).map NodeView.face =
        (c.store.unlinkedNodes ++ c.store.containedNodes).map fun n => (Entity.node n).face := by
      unfold restoredNodes
      rw [List.map_append, List.map_append, List.map_map, List.map_map]
      rfl
    rw [hmap]
    refine hnodes.map_on fun n hn m hm hface => ?_
    exact Entity.node.inj (h.eq_of_face hx (h.holds_node.2 (hmem n hn))
      (h.holds_node.2 (hmem m hm)) hface)
  exact hfaces.of_map

/-! ### The round trip -/

section RoundTrip

variable (h : c.store.Sound) (hx : c.store.Exportable) {read : List (Document Unit)}
  (hread : Sheet.Reads c.exported read) {entries : List (String × Document Unit)}
  (hmerges : Merged.Merges c.store.Holds read entries)

include h hx hread hmerges

theorem requirementViews_perm :
    (requirementViews (entries.map (·.2))).Perm
      (requirementViews (c.store.requirements.map fun r => c.store.hydrate (.requirement r))) := by
  have hstored : ((c.store.requirements.map fun r => c.store.hydrate (.requirement r)).map
      fun d => d.entity.face).Nodup := by
    rw [List.map_map]
    refine List.Nodup.map_on (fun r hr q hq hface => ?_) h.requirementIds_nodup.of_map
    exact Entity.requirement.inj (h.eq_of_face hx (h.holds_requirement.2 hr)
      (h.holds_requirement.2 hq) hface)
  refine (List.perm_ext_iff_of_nodup (requirementViews_nodup (faces_nodup h hread hx hmerges))
    (requirementViews_nodup hstored)).2 fun v => ?_
  rw [mem_requirementViews, mem_requirementViews]
  constructor
  · rintro ⟨d, hd, r', hr', rfl⟩
    obtain ⟨p, hp, rfl⟩ := List.mem_map.1 hd
    obtain ⟨e, he, -, hentity, hlinks⟩ := entry h hread hx hmerges hp
    cases e with
    | requirement r =>
      have hr := h.holds_requirement.1 he
      obtain rfl := Entity.requirement.inj (hentity.symm.trans hr')
      refine ⟨_, List.mem_map_of_mem hr, r, rfl, ?_⟩
      rw [hlinks, linkFaces_hydrate h]
      rfl
    | node n => cases hentity.symm.trans hr'
  · rintro ⟨d, hd, r', hr', rfl⟩
    obtain ⟨r, hr, rfl⟩ := List.mem_map.1 hd
    obtain rfl : r = r' := Entity.requirement.inj hr'
    have hp := requirement_exported hr
    have hd : ∃ d ∈ read, mergeKey d.entity = mergeKey (.requirement r) := by
      obtain ⟨d, hd, hentity⟩ := hread.requirement _ hp
      exact ⟨d, hd, by rw [hentity]; rfl⟩
    obtain ⟨p, hmem, hentity, hlinks⟩ :=
      exists_entry h hread hx hmerges (h.holds_requirement.2 hr) hd
    refine ⟨_, List.mem_map_of_mem hmem, r.bare, hentity, ?_⟩
    rw [hlinks, linkFaces_hydrate h]
    rfl

theorem nodeViews_perm :
    (nodeViews (entries.map (·.2))).Perm (restoredNodes c.store) := by
  refine (List.perm_ext_iff_of_nodup (nodeViews_nodup (faces_nodup h hread hx hmerges))
    (restoredNodes_nodup h hx)).2 fun v => ?_
  rw [mem_nodeViews, mem_restoredNodes h]
  constructor
  · rintro ⟨d, hd, n', hn', rfl⟩
    obtain ⟨p, hp, rfl⟩ := List.mem_map.1 hd
    obtain ⟨e, he, hkey, hentity, hlinks⟩ := entry h hread hx hmerges hp
    cases e with
    | requirement r => cases hentity.symm.trans hn'
    | node n =>
      have hn := h.holds_node.1 he
      obtain rfl := Entity.node.inj (hentity.symm.trans hn')
      have hd : ∃ d ∈ read, mergeKey d.entity = mergeKey (.node n) := by
        rw [hkey]
        exact (hmerges.covered _).1 (List.mem_map_of_mem hp)
      refine ⟨n, hn, (node_read_iff h hread hx hn).1 hd, ?_⟩
      rw [hlinks]
      rfl
  · rintro ⟨n, hn, hor, rfl⟩
    obtain ⟨p, hp, hentity, hlinks⟩ := exists_entry h hread hx hmerges (h.holds_node.2 hn)
      ((node_read_iff h hread hx hn).2 hor)
    refine ⟨_, List.mem_map_of_mem hp, n.bare, hentity, ?_⟩
    rw [hlinks]
    rfl

end RoundTrip

/-- The sheet of a catalogue is read without a failure: every stored requirement comes back once, with
the links it has, and of the nodes those that no requirement is linked to come back without links and
those that requirements contain come back with their links to these requirements. -/
theorem decode_encode_exported {ι : Type} (serial itemsPerPage : Nat) (ops : List (Operation ι))
    (hx : ((fresh serial itemsPerPage).run ops).store.Exportable) :
    let c := (fresh serial itemsPerPage).run ops
    ∃ d, Sheet.decode (Sheet.encode c.exported) = .ok d ∧ d.failures = [] ∧
      (requirementViews d.documents).Perm
        (requirementViews (c.store.requirements.map fun r => c.store.hydrate (.requirement r))) ∧
      (nodeViews d.documents).Perm (restoredNodes c.store) := by
  intro c
  have h : c.store.Sound := ((consistent_fresh serial itemsPerPage).run ops).sound
  have hrequirements : ∀ p ∈ Sheet.requirementsOf c.exported, c.store.Holds (.requirement p.1) ∧
      ∀ k ∈ p.2, c.store.Holds k.peer.entity := by
    intro p hp
    obtain ⟨hr, hlinks⟩ := mem_requirementsOf_exported.1 hp
    refine ⟨h.holds_requirement.2 hr, fun k hk => ?_⟩
    rw [hlinks] at hk
    obtain ⟨e, relation, he, -, rfl⟩ := h.mem_linksOf.1 hk
    exact he
  have hnodes : ∀ n ∈ Sheet.standaloneNodes c.exported, c.store.Holds (.node n) := fun n hn =>
    h.holds_node.2 (mem_standaloneNodes_exported.1 hn).1
  obtain ⟨read, entries, hdecode, hmerges, hread⟩ :=
    Sheet.decode_encode_reads (writable_exported h hx)
      (fun e e' he he' hkey => h.eq_of_mergeKey hx he he' hkey) hrequirements hnodes
  exact ⟨_, hdecode, rfl, requirementViews_perm h hx hread hmerges,
    nodeViews_perm h hx hread hmerges⟩

/-- A requirement that contains another one, which contains an entry of a standard and is related to
a second entry, and a piece of code by itself. -/
def sample : List (Operation Unit) :=
  [.putRequirement ⟨(), ExternalId.ofText? "111-111", "Access", "Who may do what", .empty⟩,
    .putRequirement ⟨(), none, "Sessions", "", .empty⟩,
    .putNode ⟨(), "ASVS", "https://asvs", .empty, .standard "V3" "" "3.1" ""⟩,
    .putNode ⟨(), "ASVS", "", .empty, .standard "V3" "Tokens" "" ""⟩,
    .putNode ⟨(), "CWE", "", .empty, .code "Fixation"⟩,
    .linkRequirements (.ofSerial 0) (.ofSerial 1) .contains,
    .linkNode (.ofSerial 1) (.ofSerial 2) .contains,
    .linkNode (.ofSerial 1) (.ofSerial 3) .related]

theorem decode_encode_exported_sample :
    let c := (fresh 0 20).run sample
    c.store.counts = (2, 3, 3) ∧ c.store.Exportable ∧
      ∃ d, Sheet.decode (Sheet.encode c.exported) = .ok d ∧ d.failures = [] ∧
        (requirementViews d.documents).Perm
          (requirementViews (c.store.requirements.map fun r => c.store.hydrate (.requirement r))) ∧
        (nodeViews d.documents).Perm (restoredNodes c.store) := by
  have h : ((fresh 0 20).run sample).store.Sound := ((consistent_fresh 0 20).run sample).sound
  have hx : ((fresh 0 20).run sample).store.Exportable := {
    identifiers := by decide +kernel
    requirement_texts := by decide +kernel
    node_texts := by decide +kernel
    versions := by decide +kernel
    told := by
      have htold : ∀ n ∈ ((fresh 0 20).run sample).store.nodes,
          ∃ attr ∈ Attribute.ofKind n.kind, attr.valueOf n ≠ "" := by decide +kernel
      exact fun n hn _ => htold n hn
    bounded := by
      intro r hr
      have hseen : ∀ r ∈ ((fresh 0 20).run sample).store.requirements,
          (((fresh 0 20).run sample).store.seen (.requirement r.id)).length < UInt64.size := by
        decide +kernel
      have hlinks := h.length_linksOf (.requirement r.id)
      exact (List.length_filterMap_le ..).trans_lt (hlinks ▸ hseen r hr) }
  exact ⟨by decide +kernel, hx, decode_encode_exported 0 20 sample hx⟩

end Catalog

end Crosswalk
