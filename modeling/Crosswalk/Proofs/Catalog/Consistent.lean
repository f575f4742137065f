import Crosswalk.Catalog.Export
import Crosswalk.Catalog.Import
import Crosswalk.Proofs.Index.Closing
import Crosswalk.Proofs.Store.Link
import Crosswalk.Proofs.Store.Put

/-!
# Consistent catalogues

A catalogue is consistent when its store is sound and its graph mirrors the store. Its hierarchy has
no cycle then, so that every change is let through. Putting, linking and importing keep a catalogue
consistent; they fail for a blank name, a conflict, an end that is not stored or a link between nodes,
but never because of a cycle in what is stored.
-/

namespace Crosswalk.Catalog

variable {ι : Type} {c : Catalog}

/-- The store is sound and the graph mirrors it. -/
structure Consistent (c : Catalog) : Prop where
  sound : c.store.Sound
  mirrors : c.index.Mirrors c.store.vertices c.store.links

/-! ### Opening -/

theorem consistent_ofStore {s : Store} (h : s.Sound) (itemsPerPage : Nat) :
    (ofStore s itemsPerPage).Consistent :=
  ⟨h, Index.mirrors_build h.vertices_nodup h.ends h.apart⟩

/-- A catalogue without entities whose next identity has the given serial number. -/
def fresh (serial itemsPerPage : Nat) : Catalog :=
  ofStore (.startingAt serial) itemsPerPage

theorem sound_startingAt (serial : Nat) : (Store.startingAt serial).Sound where
  drawn := fun _ h => absurd h List.not_mem_nil
  ids_nodup := .nil
  names_nodup := .nil
  keys_nodup := .nil
  names_trimmed := fun _ h => absurd h List.not_mem_nil
  keys_trimmed := fun _ h => absurd h List.not_mem_nil
  ends := fun _ h => absurd h List.not_mem_nil
  apart := .nil
  plain := fun _ h => absurd h List.not_mem_nil
  no_parts := fun _ h => absurd h List.not_mem_nil
  acyclic := Graph.acyclic_nil

theorem consistent_fresh (serial itemsPerPage : Nat) : (fresh serial itemsPerPage).Consistent :=
  consistent_ofStore (sound_startingAt serial) itemsPerPage

namespace Consistent

theorem reopen (h : c.Consistent) : c.reopen.Consistent :=
  consistent_ofStore h.sound c.itemsPerPage

/-! ### The hierarchy -/

theorem index_acyclic (h : c.Consistent) : c.index.acyclic = true :=
  h.mirrors.acyclic_iff.2 h.sound.acyclic

theorem findCycle_eq_none (h : c.Consistent) : c.index.findCycle = none := by
  unfold Index.findCycle
  rw [if_pos h.index_acyclic]

theorem guardWrite_eq_ok (h : c.Consistent) : c.guardWrite = .ok () := by
  unfold guardWrite
  rw [h.findCycle_eq_none]

theorem introducesCycle_eq (h : c.Consistent) (a b : StoredId) (relation : Relation) :
    c.index.introducesCycle a b relation = .ok (c.index.closingPath? a b relation) := by
  unfold Index.introducesCycle
  rw [if_pos h.index_acyclic]

/-! ### Entities -/

theorem storeRequirement (h : c.Consistent) {r : Requirement ι} {stored : Requirement StoredId}
    {c' : Catalog} (hput : c.storeRequirement r = .ok (stored, c')) : c'.Consistent := by
  obtain ⟨⟨r', store⟩, hstore, hmap⟩ := map_eq_ok.1 hput
  cases hmap
  rcases Store.putRequirement_ok h.sound hstore with
    ⟨old, hold, -, ⟨changed, hfill⟩, rfl⟩ | ⟨hname, hnew, rfl, rfl⟩
  · have hid := Requirement.enrich_id hfill
    obtain ⟨hsound, hvertices⟩ :=
      h.sound.replaceRequirement hold hid (Requirement.enrich_name hfill)
    have hknown : .requirement stored.id ∈ c.store.vertices :=
      Store.requirement_mem_vertices.2 ⟨old, hold, hid.symm⟩
    exact ⟨hsound, (h.mirrors.addVertex_known hknown).congr hvertices.symm (.refl _)⟩
  · obtain ⟨hsound, hvertices⟩ := h.sound.withRequirement hname hnew
    have hunknown : .requirement (StoredId.ofSerial c.store.drawn) ∉ c.store.vertices := by
      intro hmem
      obtain ⟨o, ho, hid⟩ := Store.requirement_mem_vertices.1 hmem
      refine h.sound.fresh_not_mem (hid ▸ ?_)
      exact List.mem_append_left _ (List.mem_append_left _ (List.mem_map_of_mem ho))
    exact ⟨hsound, (h.mirrors.addVertex_new hunknown).congr hvertices.symm (.refl _)⟩

theorem storeNode (h : c.Consistent) {n : Node ι} {stored : Node StoredId} {c' : Catalog}
    (hput : c.storeNode n = .ok (stored, c')) : c'.Consistent := by
  obtain ⟨⟨n', store⟩, hstore, hmap⟩ := map_eq_ok.1 hput
  cases hmap
  rcases Store.putNode_ok h.sound hstore with
    ⟨old, hold, -, ⟨changed, hfill⟩, rfl⟩ | ⟨hname, hnew, rfl, rfl⟩
  · have hid := Node.enrich_id hfill
    obtain ⟨hsound, hvertices⟩ := h.sound.replaceNode hold hid (Node.enrich_key hfill)
    have hknown : .node stored.id ∈ c.store.vertices :=
      Store.node_mem_vertices.2 ⟨old, hold, hid.symm⟩
    exact ⟨hsound, (h.mirrors.addVertex_known hknown).congr hvertices.symm (.refl _)⟩
  · obtain ⟨hsound, hvertices⟩ := h.sound.withNode hname hnew
    have hunknown : .node (StoredId.ofSerial c.store.drawn) ∉ c.store.vertices := by
      intro hmem
      obtain ⟨o, ho, hid⟩ := Store.node_mem_vertices.1 hmem
      refine h.sound.fresh_not_mem (hid ▸ ?_)
      exact List.mem_append_left _ (List.mem_append_right _ (List.mem_map_of_mem ho))
    exact ⟨hsound, (h.mirrors.addVertex_new hunknown).congr hvertices.symm (.refl _)⟩

theorem storeEntity (h : c.Consistent) {e : Entity ι} {stored : Entity StoredId} {c' : Catalog}
    (hput : c.storeEntity e = .ok (stored, c')) : c'.Consistent := by
  cases e with
  | requirement r =>
    obtain ⟨⟨r', c''⟩, hstore, hmap⟩ := map_eq_ok.1 hput
    cases hmap
    exact h.storeRequirement hstore
  | node n =>
    obtain ⟨⟨n', c''⟩, hstore, hmap⟩ := map_eq_ok.1 hput
    cases hmap
    exact h.storeNode hstore

/-- Storing what is stored already, whatever its identity, changes nothing. -/
theorem storeRequirement_self (h : c.Consistent) {q : Requirement StoredId}
    (hq : q ∈ c.store.requirements) {r : Requirement ι} (hr : q = r.withId q.id) :
    c.storeRequirement r = .ok (q, c) := by
  have hname : q.name = r.name := by rw [hr]; rfl
  have htrim := (h.sound.names_trimmed q.name (List.mem_map_of_mem hq)).1
  rw [hname] at htrim
  have henrich : q.enrich r = .ok (q, false) :=
    Requirement.enrich_self (by rw [hr]; rfl) (by rw [hr]; rfl) (by rw [hr]; rfl)
  have hreplace := Store.replaceRequirement_of_mem h.sound hq
  have hvertex : c.index.addVertex (.requirement q.id) = c.index :=
    Index.addVertex_of_mem (h.mirrors.vertices.mem_iff.2
      (Store.requirement_mem_vertices.2 ⟨q, hq, rfl⟩))
  unfold Catalog.storeRequirement
  rw [Store.putRequirement_known h.sound hq (hname.trans htrim.symm), henrich]
  simp only [Except.map, hreplace, hvertex]

theorem storeNode_self (h : c.Consistent) {m : Node StoredId} (hm : m ∈ c.store.nodes) {n : Node ι}
    (hn : m = n.withId m.id) : c.storeNode n = .ok (m, c) := by
  have hkey : m.key = n.key := by rw [hn]; rfl
  have hname : m.key.name = n.name := by rw [hkey]; rfl
  have htrim := (h.sound.keys_trimmed m.key (List.mem_map_of_mem hm)).1
  have hincoming : m.key = Store.incomingKey n := by
    rw [hname] at htrim
    rw [hkey, Store.incomingKey, htrim]
    rfl
  have henrich : m.enrich n = .ok (m, false) :=
    Node.enrich_self (by rw [hn]; rfl) (by rw [hn]; rfl) (by rw [hn]; rfl)
  have hreplace : c.store.replaceNode m = c.store := by
    have hsame := Keyed.replace_of_mem h.sound.nodeIds_nodup hm
    unfold Store.replaceNode
    exact congrArg (fun nodes => { c.store with nodes }) hsame
  have hvertex : c.index.addVertex (.node m.id) = c.index :=
    Index.addVertex_of_mem (h.mirrors.vertices.mem_iff.2
      (Store.node_mem_vertices.2 ⟨m, hm, rfl⟩))
  unfold Catalog.storeNode
  rw [Store.putNode_known h.sound hm hincoming, henrich]
  simp only [Except.map, hreplace, hvertex]

theorem storeRequirement_error (h : c.Consistent) {r : Requirement ι} {failure : Failure}
    (hput : c.storeRequirement r = .error failure) :
    failure = .emptyName ∨ ∃ conflict, failure = .conflict conflict :=
  Store.putRequirement_error h.sound (map_eq_error.1 hput)

theorem storeNode_error (h : c.Consistent) {n : Node ι} {failure : Failure}
    (hput : c.storeNode n = .error failure) :
    failure = .emptyName ∨ ∃ conflict, failure = .conflict conflict :=
  Store.putNode_error h.sound (map_eq_error.1 hput)

end Consistent

/-! ### Writing a link -/

/-- A link is written into both when the store lets it in. -/
theorem writeLink_eq (c : Catalog) (existing : Option StoredLink) (l : StoredLink) :
    c.writeLink existing l = (c.store.writeLink existing l).map fun store =>
      (if existing.isSome then .updated else .created,
        { c with store, index := c.index.replaceEdge existing l }) := by
  unfold writeLink transactLink
  cases c.store.writeLink existing l <;> rfl

/-- What is said about a link that has been written between two entities. -/
def writeOutcome (c : Catalog) (kind : LinkKind) (a b : StoredId) : LinkOutcome :=
  if (c.store.findLink? kind a b).isSome then .updated else .created

/-- The catalogue in which a link between two entities has been written. -/
def written (c : Catalog) (kind : LinkKind) (a b : StoredId) (relation : Relation) : Catalog :=
  { c with
    store := c.store.withLink kind a b relation
    index := c.index.replaceEdge (c.store.findLink? kind a b) (c.store.linkFor kind a b relation) }

/-- What linking two stored entities comes to: nothing if they are linked as wanted already,
nothing if a cycle would arise, and writing the link otherwise. -/
def settle (c : Catalog) (kind : LinkKind) (a b : StoredId) (relation : Relation) (same : Bool) :
    LinkOutcome × Catalog :=
  if same then (.unchanged, c)
  else
    match c.index.closingPath? a b relation with
    | some cycle => (.cycleDropped cycle, c)
    | none => (c.writeOutcome kind a b, c.written kind a b relation)

namespace Consistent

variable {kind : LinkKind} {a b : StoredId} {relation : Relation}

theorem writeBetween_eq (h : c.Consistent) (ha : .requirement a ∈ c.store.vertices) :
    c.writeBetween (c.store.findLink? kind a b) kind a b relation =
      .ok (c.writeOutcome kind a b, c.written kind a b relation) := by
  unfold writeBetween writeOutcome written
  cases hfind : c.store.findLink? kind a b with
  | some old =>
    have hstore : c.store.writeLink (some old) (c.store.linkFor kind a b relation) =
        .ok (c.store.withLink kind a b relation) := Store.updateLink_linkFor h.sound hfind ha
    dsimp only
    rw [← Store.linkFor_of_some hfind, writeLink_eq, hstore]
    rfl
  | none =>
    have hstore : Store.writeLink { c.store with drawn := c.store.drawn + 1 } none
        (c.store.linkFor kind a b relation) = .ok (c.store.withLink kind a b relation) :=
      Store.insertLink_linkFor h.sound hfind ha
    dsimp only [Store.draw]
    rw [← Store.linkFor_of_none hfind, writeLink_eq, hstore]
    rfl

theorem written_consistent (h : c.Consistent)
    (hends : (c.store.linkFor kind a b relation).sourceVertex ∈ c.store.vertices ∧
      (c.store.linkFor kind a b relation).targetVertex ∈ c.store.vertices)
    (hpart : kind = .internal → relation ≠ .partOf)
    (hacyclic : Graph.Acyclic ((c.store.linkFor kind a b relation ::
      c.store.otherLinks kind a b).filterMap StoredLink.arrow?)) :
    (c.written kind a b relation).Consistent := by
  refine ⟨h.sound.withLink hends hpart hacyclic, ?_⟩
  have hvertices : (c.store.withLink kind a b relation).vertices = c.store.vertices :=
    Store.withLink_vertices
  have hperm : (c.store.withLink kind a b relation).links.Perm
      (c.store.linkFor kind a b relation :: c.store.otherLinks kind a b) :=
    Store.withLink_links_perm h.sound.linksOnce
  have hlinks : c.store.links.Perm
      ((c.store.findLink? kind a b).toList ++ c.store.otherLinks kind a b) :=
    Store.links_perm h.sound.linksOnce
  have hapart : ∀ m ∈ c.store.otherLinks kind a b,
      (c.store.linkFor kind a b relation).Apart m := fun m hm => ((Store.mem_otherLinks _).1 hm).2
  show Index.Mirrors
    (c.index.replaceEdge (c.store.findLink? kind a b) (c.store.linkFor kind a b relation))
    (c.store.withLink kind a b relation).vertices (c.store.withLink kind a b relation).links
  rw [hvertices]
  cases hfind : c.store.findLink? kind a b with
  | none =>
    rw [hfind] at hlinks
    have hmirrors := h.mirrors.congr (.refl _) hlinks
    exact (hmirrors.addEdge hends.1 hends.2 hapart).congr (.refl _) hperm.symm
  | some old =>
    rw [hfind] at hlinks
    have hmirrors := h.mirrors.congr (.refl _) hlinks
    have hold : ∀ m ∈ c.store.otherLinks kind a b, old.Apart m := by
      intro m hm
      have hnot : ¬ old.Apart (c.store.linkFor kind a b relation) := fun hapart' =>
        Store.not_apart_of_findLink? hfind hapart'.symm
      exact .of_not_apart hnot (hapart m hm)
    exact ((hmirrors.removeEdge hold).addEdge hends.1 hends.2 hapart).congr (.refl _) hperm.symm

/-- The arrows that do not lead between two requirements are those of the other links. -/
theorem mem_dropArrows (h : c.Consistent) {p d : StoredId} :
    (p, d) ∈ Index.dropArrows a b c.index.hierarchy ↔
      (p, d) ∈ (c.store.otherLinks .internal a b).filterMap StoredLink.arrow? := by
  rw [List.mem_filterMap]
  exact Store.mem_dropArrows fun p d => by rw [h.mirrors.hierarchy.mem_iff, List.mem_filterMap]

theorem mem_requirements (h : c.Consistent) {id : StoredId} :
    id ∈ c.index.requirements ↔ .requirement id ∈ c.store.vertices :=
  Index.mem_requirements_iff.trans h.mirrors.vertices.mem_iff

/-- The identity of a node is not that of a requirement, and so no path to it is sought. -/
theorem closingPath?_node (h : c.Consistent) (ha : .requirement a ∈ c.store.vertices)
    (hb : .node b ∈ c.store.vertices) : c.index.closingPath? a b relation = none := by
  have hne : ¬ Vertex.requirement b ∈ c.store.vertices := fun hb' => by
    cases h.sound.vertex_eq_of_id hb' hb rfl
  have hab : a ≠ b := fun hab => hne (hab ▸ ha)
  unfold Index.closingPath?
  cases relation <;> simp [h.mem_requirements, hne, hab, hab.symm]

theorem closingPath?_contains (h : c.Consistent) (ha : .requirement a ∈ c.store.vertices)
    (hb : .requirement b ∈ c.store.vertices) :
    c.index.closingPath? a b .contains = none ↔
      ¬ Relation.ReflTransGen
        (Graph.Arrow ((c.store.otherLinks .internal a b).filterMap StoredLink.arrow?)) b a := by
  have hpath : Relation.ReflTransGen
      (Graph.Arrow (Index.dropArrows a b c.index.hierarchy)) b a ↔
      Relation.ReflTransGen
        (Graph.Arrow ((c.store.otherLinks .internal a b).filterMap StoredLink.arrow?)) b a :=
    ⟨Relation.ReflTransGen.mono (Graph.arrow_le fun _ hx => h.mem_dropArrows.1 hx) b a,
      Relation.ReflTransGen.mono (Graph.arrow_le fun _ hx => h.mem_dropArrows.2 hx) b a⟩
  have hfound : (c.index.closingPath? a b .contains).isSome = true ↔ _ :=
    Index.isSome_closingPath? rfl fun _ _ => ⟨h.mem_requirements.2 hb, h.mem_requirements.2 ha⟩
  rw [← hpath, ← hfound, Option.not_isSome_iff_eq_none]

/-- A link closes a path back exactly when the hierarchy would have a cycle with it. -/
theorem closingPath?_eq_none_iff (h : c.Consistent)
    (hends : (c.store.linkFor kind a b relation).sourceVertex ∈ c.store.vertices ∧
      (c.store.linkFor kind a b relation).targetVertex ∈ c.store.vertices)
    (hpart : kind = .internal → relation ≠ .partOf) :
    c.index.closingPath? a b relation = none ↔
      Graph.Acyclic ((c.store.linkFor kind a b relation ::
        c.store.otherLinks kind a b).filterMap StoredLink.arrow?) := by
  have hothers : Graph.Acyclic
      ((c.store.otherLinks kind a b).filterMap StoredLink.arrow?) :=
    h.sound.acyclic.anti (Store.otherLinks_sublist.filterMap _).subset
  cases kind with
  | external =>
    have harrow : (c.store.linkFor .external a b relation).arrow? = none := rfl
    rw [List.filterMap_cons_none harrow]
    exact iff_of_true (h.closingPath?_node hends.1 hends.2) hothers
  | internal =>
    by_cases hrelation : relation = .contains
    · subst hrelation
      have harrow : (c.store.linkFor .internal a b .contains).arrow? = some (a, b) := rfl
      have hpath : c.index.closingPath? a b .contains = none ↔ _ :=
        h.closingPath?_contains hends.1 hends.2
      rw [List.filterMap_cons_some harrow, Graph.acyclic_cons, hpath]
      exact ⟨fun hpath => ⟨hothers, hpath⟩, fun hboth => hboth.2⟩
    · have harrow : (c.store.linkFor .internal a b relation).arrow? = none := by
        cases relation <;> simp_all [StoredLink.arrow?, Store.linkFor]
      rw [List.filterMap_cons_none harrow]
      refine iff_of_true ?_ hothers
      unfold Index.closingPath?
      cases relation <;> simp_all

theorem settle_consistent (h : c.Consistent) (same : Bool)
    (hends : (c.store.linkFor kind a b relation).sourceVertex ∈ c.store.vertices ∧
      (c.store.linkFor kind a b relation).targetVertex ∈ c.store.vertices)
    (hpart : kind = .internal → relation ≠ .partOf) :
    (c.settle kind a b relation same).2.Consistent := by
  unfold settle
  split
  · exact h
  · split
    · exact h
    · rename_i hpath
      exact h.written_consistent hends hpart ((h.closingPath?_eq_none_iff hends hpart).1 hpath)

end Consistent

/-! ### Linking -/

theorem orient_ne_partOf {a b source target : StoredId} {relation oriented : Relation}
    (h : orient a b relation = (source, target, oriented)) : oriented ≠ .partOf := by
  unfold orient at h
  split at h
  · cases h
    decide
  · rename_i hne
    cases h
    exact hne

theorem orient_ends {a b source target : StoredId} {relation oriented : Relation}
    (h : orient a b relation = (source, target, oriented)) :
    (source = a ∧ target = b) ∨ (source = b ∧ target = a) := by
  unfold orient at h
  split at h <;> cases h
  · exact .inr ⟨rfl, rfl⟩
  · exact .inl ⟨rfl, rfl⟩

namespace Consistent

variable {a b : StoredId} {relation : Relation}

theorem joinRequirements_eq (h : c.Consistent) (ha : .requirement a ∈ c.store.vertices)
    (hb : .requirement b ∈ c.store.vertices) {source target : StoredId} {oriented : Relation}
    (horient : orient a b relation = (source, target, oriented)) :
    c.joinRequirements a b relation =
      .ok (c.settle .internal source target oriented
        ((c.store.findLink? .internal source target).any fun l =>
          states l source target oriented)) := by
  have ha' : (c.store.requirement? a).isNone = false :=
    Option.isNone_eq_false_iff.2 (Store.isSome_requirement?.2 ha)
  have hb' : (c.store.requirement? b).isNone = false :=
    Option.isNone_eq_false_iff.2 (Store.isSome_requirement?.2 hb)
  have hsource : .requirement source ∈ c.store.vertices := by
    rcases orient_ends horient with ⟨rfl, -⟩ | ⟨rfl, -⟩
    · exact ha
    · exact hb
  unfold joinRequirements settle
  simp only [ha', hb', Bool.false_eq_true, if_false, horient, h.introducesCycle_eq]
  split
  · rfl
  · split
    · rename_i hpath
      cases hpath
    · rename_i hpath
      rw [Except.ok.injEq] at hpath
      rw [hpath]
    · rename_i hpath
      rw [Except.ok.injEq] at hpath
      rw [hpath, h.writeBetween_eq hsource]

theorem joinRequirements_missing (ha : .requirement a ∉ c.store.vertices ∨
    .requirement b ∉ c.store.vertices) :
    ∃ v, c.joinRequirements a b relation = .error (.notFound v) := by
  unfold joinRequirements
  rw [← Store.isSome_requirement?, ← Store.isSome_requirement?, Option.not_isSome_iff_eq_none,
    Option.not_isSome_iff_eq_none, ← Option.isNone_iff_eq_none, ← Option.isNone_iff_eq_none] at ha
  split
  · exact ⟨_, rfl⟩
  · rename_i hsome
    rcases ha with ha | hb
    · exact absurd ha hsome
    · rw [if_pos hb]
      exact ⟨_, rfl⟩

theorem joinNode_eq (h : c.Consistent) (ha : .requirement a ∈ c.store.vertices)
    (hb : .node b ∈ c.store.vertices) :
    c.joinNode a b relation =
      .ok (c.settle .external a b relation
        ((c.store.findLink? .external a b).any fun l => l.relation = relation)) := by
  have ha' : (c.store.requirement? a).isNone = false :=
    Option.isNone_eq_false_iff.2 (Store.isSome_requirement?.2 ha)
  have hb' : (c.store.node? b).isNone = false :=
    Option.isNone_eq_false_iff.2 (Store.isSome_node?.2 hb)
  unfold joinNode settle
  simp only [ha', hb', Bool.false_eq_true, if_false, h.introducesCycle_eq]
  split
  · rfl
  · split
    · rename_i hpath
      cases hpath
    · rename_i hpath
      rw [Except.ok.injEq] at hpath
      rw [hpath]
    · rename_i hpath
      rw [Except.ok.injEq] at hpath
      rw [hpath, h.writeBetween_eq ha]

theorem joinNode_missing (ha : .requirement a ∉ c.store.vertices ∨ .node b ∉ c.store.vertices) :
    ∃ v, c.joinNode a b relation = .error (.notFound v) := by
  unfold joinNode
  rw [← Store.isSome_requirement?, ← Store.isSome_node?, Option.not_isSome_iff_eq_none,
    Option.not_isSome_iff_eq_none, ← Option.isNone_iff_eq_none, ← Option.isNone_iff_eq_none] at ha
  split
  · exact ⟨_, rfl⟩
  · rename_i hsome
    rcases ha with ha | hb
    · exact absurd ha hsome
    · rw [if_pos hb]
      exact ⟨_, rfl⟩

theorem joinRequirements (h : c.Consistent) (a b : StoredId) (relation : Relation) :
    (∃ v, c.joinRequirements a b relation = .error (.notFound v)) ∨
      ∃ outcome c', c.joinRequirements a b relation = .ok (outcome, c') ∧ c'.Consistent := by
  by_cases hends : .requirement a ∈ c.store.vertices ∧ .requirement b ∈ c.store.vertices
  · obtain ⟨ha, hb⟩ := hends
    obtain ⟨⟨source, target, oriented⟩, horient⟩ : ∃ o, orient a b relation = o := ⟨_, rfl⟩
    refine .inr ⟨_, _, h.joinRequirements_eq ha hb horient, ?_⟩
    refine h.settle_consistent _ ?_ fun _ => orient_ne_partOf horient
    rcases orient_ends horient with ⟨rfl, rfl⟩ | ⟨rfl, rfl⟩
    · exact ⟨ha, hb⟩
    · exact ⟨hb, ha⟩
  · exact .inl (joinRequirements_missing (not_and_or.1 hends))

theorem joinNode (h : c.Consistent) (a b : StoredId) (relation : Relation) :
    (∃ v, c.joinNode a b relation = .error (.notFound v)) ∨
      ∃ outcome c', c.joinNode a b relation = .ok (outcome, c') ∧ c'.Consistent := by
  by_cases hends : .requirement a ∈ c.store.vertices ∧ .node b ∈ c.store.vertices
  · exact .inr ⟨_, _, h.joinNode_eq hends.1 hends.2,
      h.settle_consistent _ hends fun hkind => by cases hkind⟩
  · exact .inl (joinNode_missing (not_and_or.1 hends))

end Consistent

end Crosswalk.Catalog
