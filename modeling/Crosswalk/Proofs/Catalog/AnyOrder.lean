import Crosswalk.Proofs.Catalog.Growth
import Crosswalk.Proofs.Catalog.Join
import Crosswalk.Proofs.Store.Assertion

/-!
# Importing in any order

Documents agree when the attributes that they set do not differ, what they assert of two entities is
one thing, and the containment that they assert has no cycle. Importing agreeing documents gathers
one entity after another and says one assertion after another; on the way nothing fails, nothing is
overwritten and no link is dropped, since every part of agreeing documents agrees as well. What
arises in the end is determined by the entities and assertions alone, so the order in which the
documents are imported does not matter.
-/

namespace Crosswalk

variable {ι : Type}

/-! ### Agreeing documents -/

/-- What a document asserts by one of its links. -/
def Link.assertion (e : Entity ι) (link : Link ι) : Assertion :=
  ⟨e.key, link.peer.entity.key, link.relation⟩

namespace Document

/-- The entity of a document and those at the other ends of its links. Links that these hold
themselves do not count. -/
def entities (d : Document ι) : List (Entity ι) :=
  d.entity :: d.links.map fun link => link.peer.entity

def assertions (d : Document ι) : List Assertion :=
  d.links.map (Link.assertion d.entity)

end Document

def entitiesOf (ds : List (Document ι)) : List (Entity ι) :=
  ds.flatMap Document.entities

def assertionsOf (ds : List (Document ι)) : List Assertion :=
  ds.flatMap Document.assertions

/-- The pairs of entities that are linked by some document. -/
def linkedPairs (ds : List (Document ι)) : Finset (Sym2 EntityKey) :=
  ((assertionsOf ds).map Assertion.ends).toFinset

/-- Documents that can be imported together. -/
structure Agreeing (ds : List (Document ι)) : Prop where
  named : ∀ e ∈ entitiesOf ds, Text.trim e.name ≠ ""
  agree : ∀ e ∈ entitiesOf ds, ∀ e' ∈ entitiesOf ds, e.key = e'.key → e.Agrees e'
  /-- No link joins two nodes. -/
  joinable : ∀ a ∈ assertionsOf ds, a.near.isRequirement = true ∨ a.far.isRequirement = true
  /-- What is asserted of two entities is one thing, read from one end or from the other. -/
  same : ∀ a ∈ assertionsOf ds, ∀ b ∈ assertionsOf ds, a.ends = b.ends → a.Same b
  acyclic : Graph.Acyclic ((assertionsOf ds).filterMap Assertion.arrow?)

instance (ds : List (Document ι)) : Decidable (Agreeing ds) :=
  decidable_of_iff
    ((∀ e ∈ entitiesOf ds, Text.trim e.name ≠ "") ∧
      (∀ e ∈ entitiesOf ds, ∀ e' ∈ entitiesOf ds, e.key = e'.key → e.Agrees e') ∧
      (∀ a ∈ assertionsOf ds, a.near.isRequirement = true ∨ a.far.isRequirement = true) ∧
      (∀ a ∈ assertionsOf ds, ∀ b ∈ assertionsOf ds, a.ends = b.ends → a.Same b) ∧
      Graph.Acyclic ((assertionsOf ds).filterMap Assertion.arrow?))
    ⟨fun ⟨hnamed, hagree, hjoinable, hsame, hacyclic⟩ =>
      ⟨hnamed, hagree, hjoinable, hsame, hacyclic⟩,
      fun h => ⟨h.named, h.agree, h.joinable, h.same, h.acyclic⟩⟩

theorem Agreeing.perm {ds ds' : List (Document ι)} (h : Agreeing ds) (hperm : ds.Perm ds') :
    Agreeing ds' := by
  have hentities : (entitiesOf ds).Perm (entitiesOf ds') := hperm.flatMap_right _
  have hassertions : (assertionsOf ds).Perm (assertionsOf ds') := hperm.flatMap_right _
  exact {
    named := fun e he => h.named e (hentities.mem_iff.2 he)
    agree := fun e he e' he' => h.agree e (hentities.mem_iff.2 he) e' (hentities.mem_iff.2 he')
    joinable := fun a ha => h.joinable a (hassertions.mem_iff.2 ha)
    same := fun a ha b hb => h.same a (hassertions.mem_iff.2 ha) b (hassertions.mem_iff.2 hb)
    acyclic := (Graph.Acyclic.congr (hassertions.filterMap _)).1 h.acyclic }

namespace Catalog

variable {c : Catalog} {ds : List (Document ι)} {es : List (Entity ι)} {as : List Assertion}
  {count : Nat} {state : Catalog × ImportReport}

/-! ### Entities -/

/-- An entity that agrees with those of its key is put and gathered. -/
theorem Consistent.storeEntity_gathers (h : c.Consistent) (hes : c.store.Gathers es) {e : Entity ι}
    (hname : Text.trim e.name ≠ "") (hagree : ∀ x ∈ es, x.key = e.key → x.Agrees e) :
    ∃ stored c', c.storeEntity e = .ok (stored, c') ∧ c'.Consistent ∧
      c'.store.Gathers (es ++ [e]) ∧ c'.store.KeyAt stored.vertex e.key ∧
      c'.store.links = c.store.links ∧ c.store.Grows c'.store := by
  cases e with
  | requirement r =>
    obtain ⟨q, t, hput, hgathers, hq, hqname, hlinks⟩ := hes.putRequirement h.sound hname hagree
    have hstore : c.storeEntity (.requirement r) = .ok (.requirement q,
        { c with store := t, index := c.index.addVertex (.requirement q.id) }) :=
      map_eq_ok.2 ⟨_, map_eq_ok.2 ⟨_, hput, rfl⟩, rfl⟩
    have h' := h.storeEntity hstore
    refine ⟨_, _, hstore, h', hgathers, ?_, hlinks, h.grows_storeEntity hstore⟩
    refine ⟨.requirement q, h'.sound.holds_requirement.2 hq, rfl, ?_⟩
    rw [h'.sound.key_requirement hq, hqname]
    rfl
  | node n =>
    obtain ⟨m, t, hput, hgathers, hm, hmkey, hlinks⟩ := hes.putNode h.sound hname hagree
    have hstore : c.storeEntity (.node n) = .ok (.node m,
        { c with store := t, index := c.index.addVertex (.node m.id) }) :=
      map_eq_ok.2 ⟨_, map_eq_ok.2 ⟨_, hput, rfl⟩, rfl⟩
    have h' := h.storeEntity hstore
    refine ⟨_, _, hstore, h', hgathers, ?_, hlinks, h.grows_storeEntity hstore⟩
    refine ⟨.node m, h'.sound.holds_node.2 hm, rfl, ?_⟩
    rw [h'.sound.key_node hm, hmkey]
    rfl

/-! ### Links -/

section Joining

variable {a : Assertion} {v w : Vertex} {result : Except Failure (LinkOutcome × Catalog)}
  {kind : LinkKind} {x y : StoredId} {oriented : Relation} {same : Bool}

theorem Joins.told (hjoins : Joins c v w a.relation result kind x y oriented same)
    (hv : c.store.KeyAt v a.near) (hw : c.store.KeyAt w a.far) :
    c.store.Says (c.store.linkFor kind x y oriented) a :=
  ⟨v, w, hv, hw, hjoins.seen⟩

/-- What is said of two entities that are linked already agrees with what is asserted of them, and
so their link says this as well. -/
theorem Joins.found (hjoins : Joins c v w a.relation result kind x y oriented same)
    (h : c.Consistent) (has : c.store.Asserts as) (hv : c.store.KeyAt v a.near)
    (hw : c.store.KeyAt w a.far) (hsame : ∀ b ∈ as, b.ends = a.ends → b.Same a) {l : StoredLink}
    (hfind : c.store.findLink? kind x y = some l) :
    result = .ok (.unchanged, c) ∧ c.store.Asserts (as ++ [a]) := by
  obtain ⟨hl, -, -⟩ := Store.findLink?_some hfind
  obtain ⟨b, hb, htold⟩ := has.said l hl
  have hends : a.ends = b.ends :=
    ((hjoins.told hv hw).not_apart_iff h.sound htold).1 (Store.not_apart_of_findLink? hfind)
  have hagrees : c.store.Says l a := htold.same (hsame b hb hends.symm)
  have hfound : same = true := hjoins.same_iff.2 ⟨l, hfind, hagrees.seen h.sound hv hw⟩
  refine ⟨?_, has.append_said hl hagrees⟩
  rw [hjoins.eq, settle, if_pos hfound]

/-- Two entities that are not linked yet get a link that says what is asserted of them. -/
theorem Joins.created (hjoins : Joins c v w a.relation result kind x y oriented same)
    (h : c.Consistent) (has : c.store.Asserts as) (hv : c.store.KeyAt v a.near)
    (hw : c.store.KeyAt w a.far)
    (hacyclic : Graph.Acyclic ((as ++ [a]).filterMap Assertion.arrow?))
    (hnone : c.store.findLink? kind x y = none) :
    ∃ c', result = .ok (.created, c') ∧ c'.Consistent ∧ c'.store.Asserts (as ++ [a]) ∧
      c'.store.requirements = c.store.requirements ∧ c'.store.nodes = c.store.nodes ∧
      c'.store.links.length = c.store.links.length + 1 := by
  obtain rfl : same = false := Bool.eq_false_iff.2 fun hs => by
    obtain ⟨l, hl, -⟩ := hjoins.same_iff.1 hs
    cases hnone.symm.trans hl
  have htold := hjoins.told hv hw
  have hlinks : Graph.Acyclic ((c.store.linkFor kind x y oriented :: c.store.links).filterMap
      StoredLink.arrow?) := by
    refine Store.acyclic_of_told h.sound hacyclic fun l hl => ?_
    rcases List.mem_cons.1 hl with rfl | hl
    · exact ⟨a, List.mem_append_right _ (List.mem_singleton_self a), htold⟩
    · obtain ⟨b, hb, htold'⟩ := has.said l hl
      exact ⟨b, List.mem_append_left _ hb, htold'⟩
  obtain ⟨hsettle, hconsistent⟩ := h.settle_new
    (hjoins.ends (hv.mem_vertices h.sound) (hw.mem_vertices h.sound)) hjoins.no_part hnone hlinks
  have hnew : (c.store.withLink kind x y oriented).links =
      c.store.links ++ [c.store.linkFor kind x y oriented] := Store.withLink_links_of_none hnone
  have hrequirements : (c.store.withLink kind x y oriented).requirements =
      c.store.requirements := Store.withLink_requirements
  have hnodes : (c.store.withLink kind x y oriented).nodes = c.store.nodes := Store.withLink_nodes
  have hgrows : c.store.Grows (c.store.withLink kind x y oriented) :=
    .of_entities hrequirements hnodes
  refine ⟨_, hjoins.eq.trans (congrArg _ hsettle), hconsistent,
    has.append_link h.sound hgrows hnew htold, hrequirements, hnodes, ?_⟩
  show (c.store.withLink kind x y oriented).links.length = _
  rw [hnew, List.length_append, List.length_singleton]

end Joining

/-- Joining two entities as agrees with all that is said finds their link or creates it. -/
theorem Consistent.joinEntities_asserts (h : c.Consistent) (has : c.store.Asserts as)
    {stored peer : Entity StoredId} {a : Assertion} (hnear : c.store.KeyAt stored.vertex a.near)
    (hfar : c.store.KeyAt peer.vertex a.far)
    (hjoinable : a.near.isRequirement = true ∨ a.far.isRequirement = true)
    (hsame : ∀ b ∈ as, b.ends = a.ends → b.Same a)
    (hacyclic : Graph.Acyclic ((as ++ [a]).filterMap Assertion.arrow?)) :
    (c.joinEntities stored peer a.relation = .ok (.unchanged, c) ∧ c.store.Asserts (as ++ [a])) ∨
      ∃ c', c.joinEntities stored peer a.relation = .ok (.created, c') ∧ c'.Consistent ∧
        c'.store.Asserts (as ++ [a]) ∧ c'.store.requirements = c.store.requirements ∧
        c'.store.nodes = c.store.nodes ∧
        c'.store.links.length = c.store.links.length + 1 := by
  obtain ⟨kind, x, y, oriented, same, hjoins⟩ :=
    h.joins (hnear.mem_vertices h.sound) (hfar.mem_vertices h.sound)
      (hnear.isRequirement ▸ hfar.isRequirement ▸ hjoinable) a.relation
  cases hfind : c.store.findLink? kind x y with
  | some l => exact .inl (hjoins.found h has hnear hfar hsame hfind)
  | none => exact .inr (hjoins.created h has hnear hfar hacyclic hfind)

/-! ### Importing -/

/-- Where an import of agreeing documents stands: some of the entities have been gathered, some of
the assertions are said by links, and the report tells of links that were created or found and of
nothing else. -/
structure Gathering (ds : List (Document ι)) (es : List (Entity ι)) (as : List Assertion)
    (count : Nat) (state : Catalog × ImportReport) : Prop where
  consistent : state.1.Consistent
  entities_sub : es ⊆ entitiesOf ds
  assertions_sub : as ⊆ assertionsOf ds
  gathers : state.1.store.Gathers es
  asserts : state.1.store.Asserts as
  documents : state.2.documents = count
  created : state.2.created = state.1.store.links.length
  met : state.2.created + state.2.unchanged = as.length
  updated : state.2.updated = 0
  cyclesDropped : state.2.cyclesDropped = 0
  failures : state.2.failures = []

namespace Gathering

theorem start (ds : List (Document ι)) (serial itemsPerPage : Nat) :
    Gathering ds [] [] 0 (fresh serial itemsPerPage, {}) where
  consistent := consistent_fresh serial itemsPerPage
  entities_sub := List.nil_subset _
  assertions_sub := List.nil_subset _
  gathers := .startingAt serial
  asserts := ⟨fun _ hl => absurd hl List.not_mem_nil, fun _ ha => absurd ha List.not_mem_nil⟩
  documents := rfl
  created := rfl
  met := rfl
  updated := rfl
  cyclesDropped := rfl
  failures := rfl

theorem storeEntity (hds : Agreeing ds) (h : Gathering ds es as count state) {e : Entity ι}
    (he : e ∈ entitiesOf ds) :
    ∃ stored c', state.1.storeEntity e = .ok (stored, c') ∧
      Gathering ds (es ++ [e]) as count (c', state.2) ∧ c'.store.KeyAt stored.vertex e.key ∧
      state.1.store.Grows c'.store := by
  obtain ⟨stored, c', hput, hconsistent, hgathers, hkey, hlinks, hgrows⟩ :=
    h.consistent.storeEntity_gathers h.gathers (hds.named e he) fun x hx =>
      hds.agree x (h.entities_sub hx) e he
  refine ⟨stored, c', hput, ?_, hkey, hgrows⟩
  exact {
    consistent := hconsistent
    entities_sub := List.append_subset.2 ⟨h.entities_sub, by simpa using he⟩
    assertions_sub := h.assertions_sub
    gathers := hgathers
    asserts := h.asserts.mono h.consistent.sound hgrows hlinks
    documents := h.documents
    created := hlinks ▸ h.created
    met := h.met
    updated := h.updated
    cyclesDropped := h.cyclesDropped
    failures := h.failures }

theorem joinEntities (hds : Agreeing ds) (h : Gathering ds es as count state)
    {stored peer : Entity StoredId} {a : Assertion} (ha : a ∈ assertionsOf ds)
    (hnear : state.1.store.KeyAt stored.vertex a.near)
    (hfar : state.1.store.KeyAt peer.vertex a.far) :
    ∃ outcome c', state.1.joinEntities stored peer a.relation = .ok (outcome, c') ∧
      Gathering ds es (as ++ [a]) count (c', state.2.record outcome) ∧
      state.1.store.Grows c'.store := by
  have hsub : as ++ [a] ⊆ assertionsOf ds :=
    List.append_subset.2 ⟨h.assertions_sub, by simpa using ha⟩
  have hmet : state.2.created + state.2.unchanged + 1 = (as ++ [a]).length := by
    rw [h.met, List.length_append, List.length_singleton]
  rcases h.consistent.joinEntities_asserts h.asserts hnear hfar (hds.joinable a ha)
      (fun b hb => hds.same b (h.assertions_sub hb) a ha)
      (hds.acyclic.anti (List.filterMap_subset _ hsub)) with
    ⟨hjoin, hasserts⟩ |
    ⟨c', hjoin, hconsistent, hasserts, hrequirements, hnodes, hlength⟩
  · refine ⟨_, _, hjoin, ?_, .refl _⟩
    exact { h with
      assertions_sub := hsub
      asserts := hasserts
      met := hmet }
  · refine ⟨_, c', hjoin, ?_, .of_entities hrequirements hnodes⟩
    exact { h with
      consistent := hconsistent
      assertions_sub := hsub
      gathers := h.gathers.congr hrequirements hnodes
      asserts := hasserts
      created := (congrArg (· + 1) h.created).trans hlength.symm
      met := (Nat.add_right_comm _ _ _).trans hmet }

theorem importLink (hds : Agreeing ds) (h : Gathering ds es as count state) (e : Entity ι)
    {stored : Entity StoredId} (hstored : state.1.store.KeyAt stored.vertex e.key) {link : Link ι}
    (hpeer : link.peer.entity ∈ entitiesOf ds) (ha : link.assertion e ∈ assertionsOf ds) :
    ∃ outcome c', state.1.importLink stored link = (.ok outcome, c') ∧
      Gathering ds (es ++ [link.peer.entity]) (as ++ [link.assertion e]) count
        (c', state.2.record outcome) ∧ state.1.store.Grows c'.store := by
  obtain ⟨peer, c₁, hput, h₁, hfar, hgrows⟩ := h.storeEntity hds hpeer
  have hnear := hstored.mono h.consistent.sound hgrows
  obtain ⟨outcome, c₂, hjoin, h₂, hgrows₂⟩ := h₁.joinEntities hds ha hnear hfar
  refine ⟨outcome, c₂, ?_, h₂, hgrows.trans hgrows₂⟩
  unfold Catalog.importLink
  have hjoin' : c₁.joinEntities stored peer link.relation = .ok (outcome, c₂) := hjoin
  simp only [hput, hjoin']

theorem importLinks (hds : Agreeing ds) (h : Gathering ds es as count state) (e : Entity ι)
    {stored : Entity StoredId} (hstored : state.1.store.KeyAt stored.vertex e.key)
    {links : List (Link ι)} (hpeers : ∀ link ∈ links, link.peer.entity ∈ entitiesOf ds)
    (has : ∀ link ∈ links, link.assertion e ∈ assertionsOf ds) :
    ∃ state', Catalog.importLinks e stored state links = .ok state' ∧
      Gathering ds (es ++ links.map fun link => link.peer.entity)
        (as ++ links.map (Link.assertion e)) count state' := by
  induction links generalizing state es as with
  | nil =>
    refine ⟨state, rfl, ?_⟩
    simpa using h
  | cons link links ih =>
    obtain ⟨outcome, c₁, himport, h₁, hgrows⟩ := h.importLink hds e hstored
      (hpeers link List.mem_cons_self) (has link List.mem_cons_self)
    obtain ⟨state', hrest, h'⟩ := ih h₁ (hstored.mono h.consistent.sound hgrows)
      (fun l hl => hpeers l (List.mem_cons_of_mem _ hl))
      fun l hl => has l (List.mem_cons_of_mem _ hl)
    refine ⟨state', ?_, ?_⟩
    · rw [Catalog.importLinks, himport]
      exact hrest
    · rw [List.append_assoc, List.append_assoc] at h'
      exact h'

theorem importDocument (hds : Agreeing ds) (h : Gathering ds es as count state) {d : Document ι}
    (hd : d ∈ ds) :
    ∃ state', Catalog.importDocument state d = .ok state' ∧
      Gathering ds (es ++ d.entities) (as ++ d.assertions) (count + 1) state' := by
  have hentities : d.entities ⊆ entitiesOf ds := fun e he => List.mem_flatMap.2 ⟨d, hd, he⟩
  have hassertions : d.assertions ⊆ assertionsOf ds := fun a ha => List.mem_flatMap.2 ⟨d, hd, ha⟩
  obtain ⟨stored, c₁, hput, h₁, hkey, -⟩ := h.storeEntity hds (hentities List.mem_cons_self)
  obtain ⟨⟨c₂, report⟩, hlinks, h₂⟩ := h₁.importLinks hds d.entity hkey
    (fun l hl => hentities (List.mem_cons_of_mem _ (List.mem_map_of_mem hl)))
    fun l hl => hassertions (List.mem_map_of_mem hl)
  refine ⟨(c₂, report.countDocument), ?_, ?_⟩
  · unfold Catalog.importDocument
    simp only [hput, hlinks]
    rfl
  · rw [List.append_assoc] at h₂
    exact { h₂ with documents := congrArg (· + 1) h₂.documents }

theorem importDocuments (hds : Agreeing ds) (h : Gathering ds es as count state)
    {documents : List (Document ι)} (hdocuments : documents ⊆ ds) :
    ∃ state', documents.foldlM Catalog.importDocument state = .ok state' ∧
      Gathering ds (es ++ entitiesOf documents) (as ++ assertionsOf documents)
        (count + documents.length) state' := by
  induction documents generalizing state es as count with
  | nil =>
    refine ⟨state, rfl, ?_⟩
    simpa [entitiesOf, assertionsOf] using h
  | cons d documents ih =>
    obtain ⟨state₁, hd, h₁⟩ := h.importDocument hds (hdocuments List.mem_cons_self)
    obtain ⟨state', hrest, h'⟩ := ih h₁ fun x hx => hdocuments (List.mem_cons_of_mem _ hx)
    refine ⟨state', ?_, ?_⟩
    · rw [List.foldlM_cons, hd]
      exact hrest
    · rw [List.append_assoc, List.append_assoc, Nat.add_assoc, Nat.add_comm 1] at h'
      exact h'

end Gathering

/-- The report on documents that have been gathered: no link was created twice. -/
theorem Gathering.report_eq {c : Catalog} {report : ImportReport}
    (h : Gathering ds es as count (c, report)) :
    report = {
      documents := count
      created := (as.map Assertion.ends).toFinset.card
      unchanged := as.length - (as.map Assertion.ends).toFinset.card } := by
  have hlength := h.asserts.length_links h.consistent.sound
  have hcreated := h.created
  have hmet := h.met
  obtain ⟨documents, created, updated, unchanged, cyclesDropped, failures⟩ := report
  dsimp only at hlength hcreated hmet
  simp only [ImportReport.mk.injEq]
  exact ⟨h.documents, by omega, h.updated, by omega, h.cyclesDropped, h.failures⟩

/-- Agreeing documents are imported completely: everything is gathered and said, and each pair of
entities is linked once. -/
theorem importAll_of_agreeing (hds : Agreeing ds) (serial itemsPerPage : Nat) :
    ∃ c, (fresh serial itemsPerPage).importAll ds = .ok (c, {
        documents := ds.length
        created := (linkedPairs ds).card
        unchanged := (assertionsOf ds).length - (linkedPairs ds).card }) ∧
      c.Consistent ∧ c.store.Gathers (entitiesOf ds) ∧ c.store.Asserts (assertionsOf ds) := by
  obtain ⟨⟨c, report⟩, himport, h⟩ :=
    (Gathering.start ds serial itemsPerPage).importDocuments hds (List.Subset.refl ds)
  rw [List.nil_append, List.nil_append, Nat.zero_add] at h
  refine ⟨c, ?_, h.consistent, h.gathers, h.asserts⟩
  rw [importAll_eq_ok (consistent_fresh serial itemsPerPage).guardWrite_eq_ok, himport, h.report_eq]
  rfl

/-- Agreeing documents may be imported in any order. Every document is imported and nothing fails, is
overwritten or dropped; one link is created for each linked pair of entities. All that the documents
set is gathered, all that they assert is said, and what arises in one order is a copy of what arises
in another one. -/
theorem importAll_perm {ds₁ ds₂ : List (Document ι)} (hds : Agreeing ds) (h₁ : ds₁.Perm ds)
    (h₂ : ds₂.Perm ds) (serial₁ itemsPerPage₁ serial₂ itemsPerPage₂ : Nat) :
    let report : ImportReport := {
      documents := ds.length
      created := (linkedPairs ds).card
      updated := 0
      unchanged := (assertionsOf ds).length - (linkedPairs ds).card
      cyclesDropped := 0
      failures := [] }
    ∃ c₁ c₂, (fresh serial₁ itemsPerPage₁).importAll ds₁ = .ok (c₁, report) ∧
      (fresh serial₂ itemsPerPage₂).importAll ds₂ = .ok (c₂, report) ∧
      c₁.store.Gathers (entitiesOf ds) ∧ c₁.store.Asserts (assertionsOf ds) ∧
      ∃ f, c₁.store.IsCopy f c₂.store := by
  have hentities : ∀ {ds'}, ds'.Perm ds → (entitiesOf ds').Perm (entitiesOf ds) := fun h =>
    h.flatMap_right _
  have hassertions : ∀ {ds'}, ds'.Perm ds → (assertionsOf ds').Perm (assertionsOf ds) := fun h =>
    h.flatMap_right _
  have hpairs : ∀ {ds'}, ds'.Perm ds → linkedPairs ds' = linkedPairs ds := fun h =>
    List.toFinset_eq_of_perm _ _ ((hassertions h).map _)
  obtain ⟨c₁, himport₁, hconsistent₁, hgathers₁, hasserts₁⟩ :=
    importAll_of_agreeing (hds.perm h₁.symm) serial₁ itemsPerPage₁
  obtain ⟨c₂, himport₂, hconsistent₂, hgathers₂, hasserts₂⟩ :=
    importAll_of_agreeing (hds.perm h₂.symm) serial₂ itemsPerPage₂
  rw [h₁.length_eq, hpairs h₁, (hassertions h₁).length_eq] at himport₁
  rw [h₂.length_eq, hpairs h₂, (hassertions h₂).length_eq] at himport₂
  have hgathers := hgathers₁.perm (hentities h₁)
  have hasserts := hasserts₁.perm (hassertions h₁)
  refine ⟨c₁, c₂, himport₁, himport₂, hgathers, hasserts, ?_⟩
  exact hasserts.isCopy hconsistent₁.sound hconsistent₂.sound hgathers
    (hgathers₂.perm (hentities h₂)) (hasserts₂.perm (hassertions h₂))

/-- Two requirements and a node, each told from more than one side and never in full; the containment
is asserted from both ends, and what the last peer says about itself does not count. -/
def tellings : List (Document Unit) :=
  [.mk (.requirement ⟨(), none, " Access ", "", .ofList ["login"]⟩)
      [.mk .contains (.ofRequirement ⟨(), none, "Sessions", "", .empty⟩),
        .mk .related (.ofNode ⟨(), "ASVS", "", .empty, .standard "V3" "" "3.1" ""⟩)],
    .mk (.requirement ⟨(), ExternalId.ofText? "111-111", "Sessions", "How long a login lasts", .empty⟩)
      [.mk .partOf (.ofRequirement ⟨(), none, "Access", "", .empty⟩)],
    .mk (.node ⟨(), "ASVS", "https://asvs", .empty, .standard "V3" "" "" ""⟩)
      [.mk .related (.mk (.requirement ⟨(), none, "Access", "Who may do what", .empty⟩)
        [.mk .partOf (.ofRequirement ⟨(), none, "Sessions", "", .empty⟩)])]]

theorem importAll_perm_tellings :
    let report : ImportReport := {
      documents := 3
      created := 2
      updated := 0
      unchanged := 2
      cyclesDropped := 0
      failures := [] }
    Agreeing tellings ∧ tellings.Perm tellings ∧ tellings.reverse.Perm tellings ∧
      ∃ c₁ c₂, (fresh 0 20).importAll tellings = .ok (c₁, report) ∧
        (fresh 7 20).importAll tellings.reverse = .ok (c₂, report) ∧
        c₁.store.Gathers (entitiesOf tellings) ∧ c₁.store.Asserts (assertionsOf tellings) ∧
        ∃ f, c₁.store.IsCopy f c₂.store := by
  have hagreeing : Agreeing tellings := by decide +kernel
  have hpairs : (linkedPairs tellings).card = 2 := by decide +kernel
  have hunchanged : (assertionsOf tellings).length - 2 = 2 := rfl
  have h := importAll_perm hagreeing (.refl _) (List.reverse_perm tellings) 0 20 7 20
  rw [hpairs, hunchanged] at h
  exact ⟨hagreeing, .refl _, List.reverse_perm tellings, h⟩

end Catalog

end Crosswalk
