import Crosswalk.Proofs.Catalog.Join
import Crosswalk.Proofs.Catalog.Run
import Crosswalk.Proofs.Store.Copy

/-!
# Importing what has been exported

An export shows every requirement with its links, so that a link between requirements is shown from
both ends, and a node only through the requirements that are linked to it. Imported into a catalogue
without entities, each entity is stored when it is first met and found by its name or key from then
on, and each link is written when it is first met and found unchanged from the other end. What arises
is a copy, at every moment of a part of what has been exported.
-/

namespace Crosswalk.Catalog

variable {s : Store} {done : List StoredLink} {c : Catalog} {k : StoredLink}

/-- A part of a sound store has been copied into a catalogue: its entities are twins of entities
there, and its links match some of the links there, one by one. -/
structure Copying (s : Store) (done : List StoredLink) (c : Catalog) : Prop where
  source : s.Sound
  consistent : c.Consistent
  requirements : ∀ q ∈ c.store.requirements, ∃ r ∈ s.requirements, q = r.withId q.id
  nodes : ∀ m ∈ c.store.nodes, ∃ n ∈ s.nodes, m = n.withId m.id
  done_nodup : done.Nodup
  done_sub : done ⊆ s.links
  links : List.Forall₂ (s.Matches c.store) done c.store.links

/-- Every entity and every link that was stored still is, as it was. -/
structure Keeps (c c' : Catalog) : Prop where
  requirements : c.store.requirements ⊆ c'.store.requirements
  nodes : c.store.nodes ⊆ c'.store.nodes
  links : c.store.links ⊆ c'.store.links

theorem Keeps.refl (c : Catalog) : c.Keeps c :=
  ⟨fun _ h => h, fun _ h => h, fun _ h => h⟩

theorem Keeps.trans {c' c'' : Catalog} (h : c.Keeps c') (h' : c'.Keeps c'') : c.Keeps c'' :=
  ⟨fun _ hr => h'.requirements (h.requirements hr), fun _ hn => h'.nodes (h.nodes hn),
    fun _ hl => h'.links (h.links hl)⟩

theorem Keeps.twin {c' : Catalog} (h : c.Keeps c') {v w : Vertex} (hvw : s.Twin c.store v w) :
    s.Twin c'.store v w :=
  hvw.mono h.requirements h.nodes

namespace Copying

/-! ### Entities -/

/-- Entities of the source may be added to a copy. -/
theorem extend (h : Copying s done c) {c' : Catalog} (hc' : c'.Consistent) (hkeeps : c.Keeps c')
    (hrequirements : ∀ q ∈ c'.store.requirements,
      q ∈ c.store.requirements ∨ ∃ r ∈ s.requirements, q = r.withId q.id)
    (hnodes : ∀ m ∈ c'.store.nodes, m ∈ c.store.nodes ∨ ∃ n ∈ s.nodes, m = n.withId m.id)
    (hlinks : c'.store.links = c.store.links) : Copying s done c' where
  source := h.source
  consistent := hc'
  requirements := fun q hq => (hrequirements q hq).elim (h.requirements q) id
  nodes := fun m hm => (hnodes m hm).elim (h.nodes m) id
  done_nodup := h.done_nodup
  done_sub := h.done_sub
  links := by
    rw [hlinks]
    exact h.links.imp fun _ _ hm => hm.mono hkeeps.1 hkeeps.2

theorem storeRequirement (h : Copying s done c) {r : Requirement StoredId}
    (hr : r ∈ s.requirements) :
    ∃ q c', c.storeRequirement r = .ok (q, c') ∧ Copying s done c' ∧ c.Keeps c' ∧
      s.Twin c'.store (.requirement r.id) (.requirement q.id) := by
  have htrim : Text.trim r.name = r.name ∧ r.name ≠ "" :=
    h.source.names_trimmed r.name (List.mem_map_of_mem hr)
  by_cases hex : ∃ q ∈ c.store.requirements, q.name = r.name
  · obtain ⟨q, hq, hname⟩ := hex
    obtain ⟨r', hr', heq⟩ := h.requirements q hq
    have hname' : r'.name = r.name := by
      rw [← hname, heq]
      rfl
    obtain rfl := Keyed.eq_of_key h.source.names_nodup hr' hr hname'
    have htwin : r'.withId q.id ∈ c.store.requirements := heq ▸ hq
    exact ⟨q, c, h.consistent.storeRequirement_self hq heq, h, .refl c, r', hr, rfl, htwin⟩
  · have hnew : ∀ q ∈ c.store.requirements, q.name ≠ Text.trim r.name := by
      intro q hq hname
      exact hex ⟨q, hq, hname.trans htrim.1⟩
    have hblank : Text.trim r.name ≠ "" := by
      rw [htrim.1]
      exact htrim.2
    have hfresh : c.store.freshRequirement r = r.withId (c.store.freshRequirement r).id := by
      simp only [Store.freshRequirement, htrim.1]
      rfl
    have hput := Store.putRequirement_new h.consistent.sound hblank hnew
    have hstore : c.storeRequirement r = .ok (c.store.freshRequirement r,
        { c with
          store := c.store.withRequirement r
          index := c.index.addVertex (.requirement (c.store.freshRequirement r).id) }) :=
      map_eq_ok.2 ⟨_, hput, rfl⟩
    have hkeeps : c.store.requirements ⊆ (c.store.withRequirement r).requirements :=
      List.subset_append_left _ _
    have hmem : c.store.freshRequirement r ∈ (c.store.withRequirement r).requirements :=
      List.mem_append_right _ (List.mem_singleton_self _)
    refine ⟨_, _, hstore, ?_, ⟨hkeeps, fun _ hn => hn, fun _ hl => hl⟩, r, hr, rfl, ?_⟩
    · refine h.extend (h.consistent.storeRequirement hstore) ⟨hkeeps, fun _ hn => hn, fun _ hl => hl⟩
        (fun q hq => ?_) (fun _ hm => .inl hm) rfl
      refine (List.mem_append.1 hq).imp_right fun hq => ?_
      rw [List.mem_singleton.1 hq]
      exact ⟨r, hr, hfresh⟩
    · rw [hfresh] at hmem
      exact hmem

theorem storeNode (h : Copying s done c) {n : Node StoredId} (hn : n ∈ s.nodes) :
    ∃ m c', c.storeNode n = .ok (m, c') ∧ Copying s done c' ∧ c.Keeps c' ∧
      s.Twin c'.store (.node n.id) (.node m.id) := by
  have htrim : Text.trim n.name = n.name ∧ n.name ≠ "" :=
    h.source.keys_trimmed n.key (List.mem_map_of_mem hn)
  have hkey : Store.incomingKey n = n.key := by
    unfold Store.incomingKey
    rw [htrim.1]
    rfl
  by_cases hex : ∃ m ∈ c.store.nodes, m.key = n.key
  · obtain ⟨m, hm, hmkey⟩ := hex
    obtain ⟨n', hn', heq⟩ := h.nodes m hm
    have hkey' : n'.key = n.key := by
      rw [← hmkey, heq]
      rfl
    obtain rfl := Keyed.eq_of_key h.source.keys_nodup hn' hn hkey'
    have htwin : n'.withId m.id ∈ c.store.nodes := heq ▸ hm
    exact ⟨m, c, h.consistent.storeNode_self hm heq, h, .refl c, n', hn, rfl, htwin⟩
  · have hnew : ∀ m ∈ c.store.nodes, m.key ≠ Store.incomingKey n := by
      intro m hm hmkey
      exact hex ⟨m, hm, hmkey.trans hkey⟩
    have hblank : Text.trim n.name ≠ "" := by
      rw [htrim.1]
      exact htrim.2
    have hfresh : c.store.freshNode n = n.withId (c.store.freshNode n).id := by
      simp only [Store.freshNode, htrim.1]
      rfl
    have hput := Store.putNode_new h.consistent.sound hblank hnew
    have hstore : c.storeNode n = .ok (c.store.freshNode n,
        { c with
          store := c.store.withNode n
          index := c.index.addVertex (.node (c.store.freshNode n).id) }) :=
      map_eq_ok.2 ⟨_, hput, rfl⟩
    have hkeeps : c.store.nodes ⊆ (c.store.withNode n).nodes := List.subset_append_left _ _
    have hmem : c.store.freshNode n ∈ (c.store.withNode n).nodes :=
      List.mem_append_right _ (List.mem_singleton_self _)
    refine ⟨_, _, hstore, ?_, ⟨fun _ hr => hr, hkeeps, fun _ hl => hl⟩, n, hn, rfl, ?_⟩
    · refine h.extend (h.consistent.storeNode hstore) ⟨fun _ hr => hr, hkeeps, fun _ hl => hl⟩
        (fun _ hq => .inl hq) (fun m hm => ?_) rfl
      refine (List.mem_append.1 hm).imp_right fun hm => ?_
      rw [List.mem_singleton.1 hm]
      exact ⟨n, hn, hfresh⟩
    · rw [hfresh] at hmem
      exact hmem

theorem storeEntity (h : Copying s done c) {v : Vertex} {e : Entity StoredId}
    (he : s.entity? v = some e) :
    ∃ e' c', c.storeEntity e = .ok (e', c') ∧ Copying s done c' ∧ c.Keeps c' ∧
      s.Twin c'.store v e'.vertex := by
  cases v with
  | requirement id =>
    obtain ⟨r, hfind, rfl⟩ := Option.map_eq_some_iff.1 he
    obtain ⟨hr, rfl⟩ := h.source.requirement?_iff.1 hfind
    obtain ⟨q, c', hput, h', hkeeps, htwin⟩ := h.storeRequirement hr
    exact ⟨.requirement q, c', map_eq_ok.2 ⟨_, hput, rfl⟩, h', hkeeps, htwin⟩
  | node id =>
    obtain ⟨n, hfind, rfl⟩ := Option.map_eq_some_iff.1 he
    obtain ⟨hn, rfl⟩ := h.source.node?_iff.1 hfind
    obtain ⟨m, c', hput, h', hkeeps, htwin⟩ := h.storeNode hn
    exact ⟨.node m, c', map_eq_ok.2 ⟨_, hput, rfl⟩, h', hkeeps, htwin⟩

/-! ### Links -/

variable {kind : LinkKind} {a b : StoredId} {relation : Relation}

theorem exists_done (h : Copying s done c) {l : StoredLink} (hl : l ∈ c.store.links) :
    ∃ k ∈ done, s.Matches c.store k l := by
  obtain ⟨i, hi, rfl⟩ := List.getElem_of_mem hl
  have hi' : i < done.length := h.links.length_eq ▸ hi
  exact ⟨done[i], List.getElem_mem hi', h.links.get hi' hi⟩

theorem exists_match (h : Copying s done c) (hk : k ∈ done) :
    ∃ l ∈ c.store.links, s.Matches c.store k l := by
  obtain ⟨i, hi, rfl⟩ := List.getElem_of_mem hk
  have hi' : i < c.store.links.length := h.links.length_eq ▸ hi
  exact ⟨c.store.links[i], List.getElem_mem hi', h.links.get hi hi'⟩

theorem findLink? (h : Copying s done c) (hk : k ∈ s.links)
    (hmatch : s.Matches c.store k (c.store.linkFor kind a b relation)) :
    (k ∈ done ∧ ∃ l, c.store.findLink? kind a b = some l ∧ s.Matches c.store k l) ∨
      (k ∉ done ∧ c.store.findLink? kind a b = none) := by
  cases hfind : c.store.findLink? kind a b with
  | some l =>
    -- what is found matches a link that joins the ends of the one that is sought
    obtain ⟨hl, -, -⟩ := Store.findLink?_some hfind
    have hnot : ¬ (c.store.linkFor kind a b relation).Apart l := Store.not_apart_of_findLink? hfind
    obtain ⟨k', hk', hmatch'⟩ := h.exists_done hl
    have happart := (hmatch.not_apart h.source h.consistent.sound hmatch').1 hnot
    obtain rfl := h.source.linksOnce.link_eq_of_not_apart hk (h.done_sub hk') happart
    exact .inl ⟨hk', l, rfl, hmatch'⟩
  | none =>
    refine .inr ⟨fun hdone => ?_, rfl⟩
    obtain ⟨l, hl, hmatch'⟩ := h.exists_match hdone
    have hnot := (hmatch.not_apart h.source h.consistent.sound hmatch').2
      (StoredLink.not_apart_self k)
    cases (h.consistent.sound.linksOnce.findLink?_eq hl hnot).symm.trans hfind

/-- A link that matches one of the source closes no cycle in a copy. -/
theorem acyclic_linkFor (h : Copying s done c) (hk : k ∈ s.links)
    (hmatch : s.Matches c.store k (c.store.linkFor kind a b relation)) :
    Graph.Acyclic ((c.store.linkFor kind a b relation :: c.store.links).filterMap
      StoredLink.arrow?) := by
  refine Store.acyclic_of_matches h.source h.consistent.sound fun l hl => ?_
  rcases List.mem_cons.1 hl with rfl | hl
  · exact ⟨k, hk, hmatch⟩
  · obtain ⟨k', hk', hmatch'⟩ := h.exists_done hl
    exact ⟨k', h.done_sub hk', hmatch'⟩

/-- A link of the source is copied by writing one that matches it. -/
theorem written (h : Copying s done c) (hk : k ∈ s.links) (hdone : k ∉ done)
    (hmatch : s.Matches c.store k (c.store.linkFor kind a b relation))
    (hconsistent : (c.written kind a b relation).Consistent)
    (hnone : c.store.findLink? kind a b = none) :
    Copying s (done ++ [k]) (c.written kind a b relation) ∧
      c.Keeps (c.written kind a b relation) := by
  have hlinks : (c.store.withLink kind a b relation).links =
      c.store.links ++ [c.store.linkFor kind a b relation] := Store.withLink_links_of_none hnone
  have hrequirements : (c.store.withLink kind a b relation).requirements =
      c.store.requirements := Store.withLink_requirements
  have hnodes : (c.store.withLink kind a b relation).nodes = c.store.nodes :=
    Store.withLink_nodes
  have hkeeps : c.Keeps (c.written kind a b relation) :=
    ⟨fun _ hr => hrequirements ▸ hr, fun _ hn => hnodes ▸ hn,
      fun _ hl => hlinks ▸ List.mem_append_left _ hl⟩
  refine ⟨?_, hkeeps⟩
  exact {
    source := h.source
    consistent := hconsistent
    requirements := fun q hq => h.requirements q (hrequirements ▸ hq)
    nodes := fun m hm => h.nodes m (hnodes ▸ hm)
    done_nodup := by
      rw [List.nodup_append]
      refine ⟨h.done_nodup, List.nodup_singleton k, fun x hx y hy => ?_⟩
      rw [List.mem_singleton.1 hy]
      exact fun hxk => hdone (hxk ▸ hx)
    done_sub := by
      intro x hx
      rcases List.mem_append.1 hx with hx | hx
      · exact h.done_sub hx
      · exact List.mem_singleton.1 hx ▸ hk
    links := by
      show List.Forall₂ _ _ (c.store.withLink kind a b relation).links
      rw [hlinks]
      refine List.rel_append (h.links.imp fun _ _ hm => hm.mono hkeeps.1 hkeeps.2) ?_
      exact .cons (hmatch.mono hkeeps.1 hkeeps.2) .nil }

/-- Settling a link of the source finds its match unchanged or writes it. -/
theorem settle (h : Copying s done c) (hk : k ∈ s.links)
    (hmatch : s.Matches c.store k (c.store.linkFor kind a b relation))
    (hpart : kind = .internal → relation ≠ .partOf) {same : Bool}
    (hsame : same = true ↔ k ∈ done) :
    (k ∈ done ∧ c.settle kind a b relation same = (.unchanged, c)) ∨
      (k ∉ done ∧ ∃ c', c.settle kind a b relation same = (.created, c') ∧
        Copying s (done ++ [k]) c' ∧ c.Keeps c') := by
  by_cases hdone : k ∈ done
  · refine .inl ⟨hdone, ?_⟩
    unfold Catalog.settle
    rw [if_pos (hsame.2 hdone)]
  · have hnone : c.store.findLink? kind a b = none := by
      rcases h.findLink? hk hmatch with ⟨hdone', -⟩ | ⟨-, hnone⟩
      · exact absurd hdone' hdone
      · exact hnone
    obtain rfl : same = false := Bool.eq_false_iff.2 fun hs => hdone (hsame.1 hs)
    obtain ⟨hsettle, hconsistent⟩ :=
      h.consistent.settle_new hmatch.ends hpart hnone (h.acyclic_linkFor hk hmatch)
    exact .inr ⟨hdone, _, hsettle, h.written hk hdone hmatch hconsistent hnone⟩

/-- Joining the twins of the ends of a link of the source settles the link that matches it. -/
theorem joinEntities_eq (h : Copying s done c) (hk : k ∈ s.links) {v w : Vertex}
    (hseen : (w, relation) ∈ k.seenFrom v) {e e' : Entity StoredId}
    (he : s.Twin c.store v e.vertex) (he' : s.Twin c.store w e'.vertex) :
    ∃ kind a b oriented same,
      c.joinEntities e e' relation = .ok (c.settle kind a b oriented same) ∧
      s.Matches c.store k (c.store.linkFor kind a b oriented) ∧
      (kind = .internal → oriented ≠ .partOf) ∧ (same = true ↔ k ∈ done) := by
  have hsorts : e.vertex.isRequirement = true ∨ e'.vertex.isRequirement = true := by
    have hsource : ∀ {x}, s.Twin c.store k.sourceVertex x → x.isRequirement = true := by
      intro x hx
      cases x with
      | requirement id => rfl
      | node id => exact hx.elim
    rcases StoredLink.mem_seenFrom.1 hseen with ⟨rfl, -, -⟩ | ⟨-, rfl, -⟩
    · exact .inl (hsource he)
    · exact .inr (hsource he')
  obtain ⟨kind, a, b, oriented, same, hjoins⟩ :=
    h.consistent.joins he.right_mem he'.right_mem hsorts relation
  have hmatch : s.Matches c.store k (c.store.linkFor kind a b oriented) :=
    .of_seenFrom hseen hjoins.seen he he'
  refine ⟨kind, a, b, oriented, same, hjoins.eq, hmatch, hjoins.no_part, hjoins.same_iff.trans ?_⟩
  rcases h.findLink? hk hmatch with ⟨hdone, l, hfind, hl⟩ | ⟨hdone, hfind⟩
  · exact iff_of_true ⟨l, hfind, hl.seenFrom h.source h.consistent.sound hseen he he'⟩ hdone
  · rw [hfind]
    exact iff_of_false (by simp) hdone

end Copying

/-! ### Importing -/

/-- What importing a number of documents and links of the source comes to: nothing fails, nothing is
overwritten or dropped, and each link has been created or found. -/
structure Progress (s : Store) (documents links : Nat) (done done' : List StoredLink)
    (state state' : Catalog × ImportReport) : Prop where
  copying : Copying s done' state'.1
  keeps : state.1.Keeps state'.1
  grows : done ⊆ done'
  documents : state'.2.documents = state.2.documents + documents
  created : state'.2.created + done.length = state.2.created + done'.length
  met : state'.2.created + state'.2.unchanged = state.2.created + state.2.unchanged + links
  updated : state'.2.updated = state.2.updated
  cyclesDropped : state'.2.cyclesDropped = state.2.cyclesDropped
  failures : state'.2.failures = state.2.failures

namespace Progress

variable {done' done'' : List StoredLink} {state state' state'' : Catalog × ImportReport}
  {documents documents' links links' : Nat}

theorem refl (h : Copying s done state.1) : Progress s 0 0 done done state state :=
  ⟨h, .refl _, fun _ hk => hk, rfl, rfl, rfl, rfl, rfl, rfl⟩

theorem trans (h : Progress s documents links done done' state state')
    (h' : Progress s documents' links' done' done'' state' state'') :
    Progress s (documents + documents') (links + links') done done'' state state'' where
  copying := h'.copying
  keeps := h.keeps.trans h'.keeps
  grows := fun _ hk => h'.grows (h.grows hk)
  documents := by
    have h₁ := h.documents
    have h₂ := h'.documents
    omega
  created := by
    have h₁ := h.created
    have h₂ := h'.created
    omega
  met := by
    have h₁ := h.met
    have h₂ := h'.met
    omega
  updated := h'.updated.trans h.updated
  cyclesDropped := h'.cyclesDropped.trans h.cyclesDropped
  failures := h'.failures.trans h.failures

end Progress

namespace Copying

theorem importLink (h : Copying s done c) {v : Vertex} {stored : Entity StoredId}
    (hstored : s.Twin c.store v stored.vertex) {far : Vertex × Relation} (hfar : far ∈ s.seen v)
    {link : Link StoredId} (hlink : s.linkTo? far = some link) (report : ImportReport) :
    ∃ outcome c' done', c.importLink stored link = (.ok outcome, c') ∧
      Progress s 0 1 done done' (c, report) (c', report.record outcome) ∧
      ∀ k ∈ s.links, ∀ far' ∈ k.seenFrom v, s.linkTo? far' = some link → k ∈ done' := by
  obtain ⟨k, hk, hseen⟩ := Store.mem_seen.1 hfar
  obtain ⟨w, relation⟩ := far
  obtain ⟨e, he, rfl⟩ := Option.map_eq_some_iff.1 hlink
  obtain ⟨peer, c₁, hput, h₁, hkeeps, hpeer⟩ := h.storeEntity he
  obtain ⟨kind, a, b, oriented, same, hjoin, hmatch, hpart, hsame⟩ :=
    h₁.joinEntities_eq hk hseen (hkeeps.twin hstored) hpeer
  -- the link determines which stored link is behind it
  have honly : ∀ k' ∈ s.links, ∀ far' ∈ k'.seenFrom v,
      s.linkTo? far' = some (.mk relation (.ofEntity e)) → k' = k := by
    rintro k' hk' ⟨w', relation'⟩ hseen' hlink'
    obtain ⟨e', he', heq⟩ := Option.map_eq_some_iff.1 hlink'
    obtain rfl : e' = e := congrArg Document.entity (congrArg Link.peer heq)
    obtain rfl := (h.source.vertex_of_entity? he').symm.trans (h.source.vertex_of_entity? he)
    exact h.source.linksOnce.link_eq_of_not_apart hk' hk (StoredLink.not_apart_of_seenFrom hseen' hseen)
  have himport : c.importLink stored (.mk relation (.ofEntity e)) =
      (.ok (c₁.settle kind a b oriented same).1, (c₁.settle kind a b oriented same).2) := by
    unfold Catalog.importLink
    simp only [Link.peer, Document.ofEntity, Document.entity, hput, Link.relation, hjoin]
  rcases h₁.settle hk hmatch hpart hsame with ⟨hdone, hsettle⟩ | ⟨hdone, c₂, hsettle, h₂, hkeeps₂⟩
  · rw [hsettle] at himport
    refine ⟨_, _, done, himport, ?_, fun k' hk' far' hfar' hlink' =>
      honly k' hk' far' hfar' hlink' ▸ hdone⟩
    exact ⟨h₁, hkeeps, fun _ hx => hx, rfl, rfl, rfl, rfl, rfl, rfl⟩
  · rw [hsettle] at himport
    refine ⟨_, _, done ++ [k], himport, ?_, fun k' hk' far' hfar' hlink' => ?_⟩
    · refine ⟨h₂, hkeeps.trans hkeeps₂, List.subset_append_left _ _, rfl, ?_, ?_, rfl, rfl, rfl⟩
      · simp only [ImportReport.record, List.length_append, List.length_singleton]
        omega
      · simp only [ImportReport.record]
        omega
    · rw [honly k' hk' far' hfar' hlink']
      exact List.mem_append_right _ (List.mem_singleton_self k)

theorem importLinks {state : Catalog × ImportReport} (h : Copying s done state.1) {v : Vertex}
    (e : Entity StoredId) {stored : Entity StoredId} (hstored : s.Twin state.1.store v stored.vertex)
    {links : List (Link StoredId)}
    (hlinks : ∀ link ∈ links, ∃ far ∈ s.seen v, s.linkTo? far = some link) :
    ∃ done' state', Catalog.importLinks e stored state links = .ok state' ∧
      Progress s 0 links.length done done' state state' ∧
      ∀ k ∈ s.links, ∀ far ∈ k.seenFrom v, ∀ link ∈ links, s.linkTo? far = some link →
        k ∈ done' := by
  induction links generalizing state done with
  | nil =>
    exact ⟨done, state, rfl, .refl h, fun _ _ _ _ _ hlink => absurd hlink List.not_mem_nil⟩
  | cons link links ih =>
    obtain ⟨c, report⟩ := state
    obtain ⟨far, hfar, hlink⟩ := hlinks link List.mem_cons_self
    obtain ⟨outcome, c₁, done₁, himport, hprogress, hcopied⟩ := h.importLink hstored hfar hlink report
    have hnext : Copying s done₁ ((c₁, report.record outcome) : Catalog × ImportReport).1 :=
      hprogress.copying
    obtain ⟨done₂, state₂, hrest, hprogress₂, hcopied₂⟩ :=
      ih hnext (hprogress.keeps.twin hstored) fun l hl => hlinks l (List.mem_cons_of_mem _ hl)
    refine ⟨done₂, state₂, ?_, ?_, ?_⟩
    · rw [Catalog.importLinks, himport]
      exact hrest
    · have hboth := hprogress.trans hprogress₂
      rw [Nat.add_comm 1] at hboth
      exact hboth
    · intro k hk far' hfar' l hl hto
      rcases List.mem_cons.1 hl with rfl | hl
      · exact hprogress₂.grows (hcopied k hk far' hfar' hto)
      · exact hcopied₂ k hk far' hfar' l hl hto

theorem importDocument {state : Catalog × ImportReport} (h : Copying s done state.1)
    {e : Entity StoredId} (he : s.entity? e.vertex = some e) :
    ∃ done' state', Catalog.importDocument state (s.hydrate e) = .ok state' ∧
      Progress s 1 (s.linksOf e.vertex).length done done' state state' ∧
      (∃ w, s.Twin state'.1.store e.vertex w) ∧
      ∀ k ∈ s.links, ∀ far ∈ k.seenFrom e.vertex, k ∈ done' := by
  obtain ⟨stored, c₁, hput, h₁, hkeeps, hstored⟩ := h.storeEntity he
  have hlisted : ∀ {link}, link ∈ s.linksOf e.vertex ↔
      ∃ far ∈ s.seen e.vertex, s.linkTo? far = some link := by
    intro link
    rw [(Store.linksOf_perm h.source.plain e.vertex).mem_iff, List.mem_filterMap]
  have hnext : Copying s done ((c₁, state.2) : Catalog × ImportReport).1 := h₁
  obtain ⟨done₂, ⟨c₂, report₂⟩, hlinks, hprogress, hcopied⟩ :=
    hnext.importLinks e hstored fun link hlink => hlisted.1 hlink
  refine ⟨done₂, (c₂, report₂.countDocument), ?_, ?_, ?_, ?_⟩
  · unfold Catalog.importDocument Store.hydrate
    simp only [Document.entity, Document.links, hput, hlinks]
    rfl
  · have hstart : Progress s 0 0 done done state (c₁, state.2) :=
      ⟨h₁, hkeeps, fun _ hk => hk, rfl, rfl, rfl, rfl, rfl, rfl⟩
    have hcount : Progress s 1 0 done₂ done₂ (c₂, report₂) (c₂, report₂.countDocument) :=
      ⟨hprogress.copying, .refl _, fun _ hk => hk, rfl, rfl, rfl, rfl, rfl, rfl⟩
    have hall := (hstart.trans hprogress).trans hcount
    rw [Nat.zero_add, Nat.zero_add, Nat.add_zero] at hall
    exact hall
  · exact ⟨_, hprogress.keeps.twin hstored⟩
  · intro k hk far hfar
    have hseen : far ∈ s.seen e.vertex := Store.mem_seen.2 ⟨k, hk, hfar⟩
    have hfound := Store.isSome_entity?.2 (h.source.mem_vertices_of_seen hseen)
    obtain ⟨peer, hpeer⟩ := Option.isSome_iff_exists.1 hfound
    have hlink : s.linkTo? far = some (.mk far.2 (.ofEntity peer)) := by
      rw [Store.linkTo?, hpeer]
      rfl
    exact hcopied k hk far hfar _ (hlisted.2 ⟨far, hseen, hlink⟩) hlink

/-- Importing entities of the source with their links copies every link that one of them sees. -/
theorem importDocuments {state : Catalog × ImportReport} (h : Copying s done state.1)
    {es : List (Entity StoredId)} (hes : ∀ e ∈ es, s.entity? e.vertex = some e) :
    ∃ done' state', (es.map s.hydrate).foldlM Catalog.importDocument state = .ok state' ∧
      Progress s es.length (es.map fun e => (s.linksOf e.vertex).length).sum done done' state state' ∧
      ∀ e ∈ es, (∃ w, s.Twin state'.1.store e.vertex w) ∧
        ∀ k ∈ s.links, ∀ far ∈ k.seenFrom e.vertex, k ∈ done' := by
  induction es generalizing state done with
  | nil => exact ⟨done, state, rfl, .refl h, fun _ he => absurd he List.not_mem_nil⟩
  | cons e es ih =>
    obtain ⟨done₁, state₁, hd, hprogress, hstored, hcopied⟩ :=
      h.importDocument (hes e List.mem_cons_self)
    obtain ⟨done₂, state₂, hrest, hprogress₂, hall⟩ :=
      ih hprogress.copying fun e' he' => hes e' (List.mem_cons_of_mem _ he')
    refine ⟨done₂, state₂, ?_, ?_, fun e' he' => ?_⟩
    · rw [List.map_cons, List.foldlM_cons, hd]
      exact hrest
    · have hboth := hprogress.trans hprogress₂
      rw [Nat.add_comm 1] at hboth
      exact hboth
    · rcases List.mem_cons.1 he' with rfl | he'
      · obtain ⟨w, hw⟩ := hstored
        exact ⟨⟨w, hprogress₂.keeps.twin hw⟩, fun k hk far hfar =>
          hprogress₂.grows (hcopied k hk far hfar)⟩
      · exact hall e' he'

end Copying

/-! ### The export -/

/-- The entities whose documents are exported: every requirement and every node without links. -/
def exportedEntities (c : Catalog) : List (Entity StoredId) :=
  c.store.allRequirements.map .requirement ++
    (c.store.allNodes.filter fun n => (c.store.linksOf (.node n.id)).isEmpty).map .node

theorem exported_eq (c : Catalog) : c.exported = c.exportedEntities.map c.store.hydrate := by
  unfold exported exportedEntities
  rw [List.map_append, List.map_map, List.map_map]
  refine congrArg _ (List.map_congr_left fun n hn => ?_)
  have hnone : c.store.linksOf (.node n.id) = [] :=
    List.isEmpty_iff.1 (List.mem_filter.1 hn).2
  show Document.ofNode n = .mk (.node n) (c.store.linksOf (.node n.id))
  rw [hnone]
  rfl

theorem Consistent.entity?_exported (h : c.Consistent) {e : Entity StoredId}
    (he : e ∈ c.exportedEntities) : c.store.entity? e.vertex = some e := by
  rcases List.mem_append.1 he with he | he
  · obtain ⟨r, hr, rfl⟩ := List.mem_map.1 he
    have hfind := h.sound.requirement?_iff.2 ⟨Text.mem_sortOn.1 hr, rfl⟩
    show Option.map _ (c.store.requirement? r.id) = _
    rw [hfind]
    rfl
  · obtain ⟨n, hn, rfl⟩ := List.mem_map.1 he
    have hfind := h.sound.node?_iff.2 ⟨Text.mem_sortOn.1 (List.mem_filter.1 hn).1, rfl⟩
    show Option.map _ (c.store.node? n.id) = _
    rw [hfind]
    rfl

/-- As many links are exported as there are links, and those between requirements once more. -/
theorem Consistent.sum_exported (h : c.Consistent) :
    (c.exportedEntities.map fun e => (c.store.linksOf e.vertex).length).sum =
      c.store.links.length + (c.store.links.filter fun l => l.kind = .internal).length := by
  rw [← h.sound.sum_seen]
  unfold exportedEntities
  rw [List.map_append, List.sum_append, List.map_map, List.map_map]
  have hnodes : ((c.store.allNodes.filter fun n => (c.store.linksOf (.node n.id)).isEmpty).map
      ((fun e => (c.store.linksOf e.vertex).length) ∘ Entity.node)).sum = 0 := by
    refine List.sum_eq_zero fun x hx => ?_
    obtain ⟨n, hn, rfl⟩ := List.mem_map.1 hx
    have hnone : c.store.linksOf (.node n.id) = [] := List.isEmpty_iff.1 (List.mem_filter.1 hn).2
    show (c.store.linksOf (.node n.id)).length = 0
    rw [hnone]
    rfl
  have hrequirements : (c.store.allRequirements.map
      ((fun e => (c.store.linksOf e.vertex).length) ∘ Entity.requirement)).Perm
      (c.store.requirements.map fun r => (c.store.seen (.requirement r.id)).length) := by
    refine ((Text.sortOn_perm _ _).map _).trans (.of_eq (List.map_congr_left fun r _ => ?_))
    exact h.sound.length_linksOf _
  rw [hnodes, Nat.add_zero]
  exact hrequirements.sum_eq

/-- An import into a catalogue without entities starts a copy of any sound store. -/
theorem Copying.start (hs : s.Sound) (serial itemsPerPage : Nat) :
    Copying s [] (fresh serial itemsPerPage) where
  source := hs
  consistent := consistent_fresh serial itemsPerPage
  requirements := fun _ hq => absurd hq List.not_mem_nil
  nodes := fun _ hm => absurd hm List.not_mem_nil
  done_nodup := .nil
  done_sub := List.nil_subset _
  links := .nil

theorem mem_exportedEntities_requirement {id : StoredId} (h : .requirement id ∈ c.store.vertices) :
    ∃ e ∈ c.exportedEntities, e.vertex = .requirement id := by
  obtain ⟨r, hr, rfl⟩ := Store.requirement_mem_vertices.1 h
  exact ⟨.requirement r, List.mem_append_left _ (List.mem_map_of_mem (Text.mem_sortOn.2 hr)), rfl⟩

/-- An entity that sees a link comes as an end of it. -/
theorem Copying.exists_twin_of_seen {c' : Catalog} (h : Copying s done c')
    (hall : ∀ k ∈ s.links, k ∈ done) {v : Vertex} {far : Vertex × Relation}
    (hfar : far ∈ s.seen v) : ∃ w, s.Twin c'.store v w := by
  obtain ⟨k, hk, hseen⟩ := Store.mem_seen.1 hfar
  obtain ⟨l, -, hmatch⟩ := h.exists_match (hall k hk)
  rcases StoredLink.mem_seenFrom.1 hseen with ⟨hv, -, -⟩ | ⟨hv, -, -⟩ <;> rw [← hv] <;>
    rcases hmatch with ⟨hs, ht, -⟩ | ⟨hs, ht, -⟩
  · exact ⟨_, hs⟩
  · exact ⟨_, hs⟩
  · exact ⟨_, ht⟩
  · exact ⟨_, ht⟩

theorem Consistent.report_eq (h : c.Consistent) {start c' : Catalog} {report : ImportReport}
    (hprogress : Progress c.store c.exportedEntities.length
      (c.exportedEntities.map fun e => (c.store.linksOf e.vertex).length).sum [] done (start, {})
      (c', report)) (hdone : done.Perm c.store.links) :
    report = {
      documents := c.exported.length
      created := c.store.links.length
      unchanged := (c.store.links.filter fun l => l.kind = .internal).length } := by
  have hdocuments := hprogress.documents
  have hcreated := hprogress.created
  have hmet := hprogress.met
  have hupdated := hprogress.updated
  have hdropped := hprogress.cyclesDropped
  have hfailures := hprogress.failures
  have hlength := hdone.length_eq
  have hsum := h.sum_exported
  have hcount : c.exported.length = c.exportedEntities.length := by
    rw [exported_eq, List.length_map]
  obtain ⟨documents, created, updated, unchanged, cyclesDropped, failures⟩ := report
  simp only [List.length_nil, Nat.zero_add, Nat.add_zero] at *
  simp only [ImportReport.mk.injEq]
  exact ⟨by omega, by omega, by omega, by omega, by omega, hfailures⟩

/-- The export of a consistent catalogue, imported into a catalogue without entities, is copied
completely: no document fails, every entity gets its twin and every link its match. -/
theorem Consistent.importAll_exported (h : c.Consistent) (serial itemsPerPage : Nat) :
    ∃ done c', (fresh serial itemsPerPage).importAll c.exported =
        .ok (c', {
          documents := c.exported.length
          created := c.store.links.length
          unchanged := (c.store.links.filter fun l => l.kind = .internal).length }) ∧
      Copying c.store done c' ∧ done.Perm c.store.links ∧
      ∀ v ∈ c.store.vertices, ∃ w, c.store.Twin c'.store v w := by
  have hstart : Copying c.store [] ((fresh serial itemsPerPage, {}) : Catalog × ImportReport).1 :=
    .start h.sound serial itemsPerPage
  obtain ⟨done, ⟨c', report⟩, himport, hprogress, hall⟩ :=
    hstart.importDocuments fun e he => h.entity?_exported he
  -- every link is seen by the requirement from which it leads
  have hcopied : ∀ k ∈ c.store.links, k ∈ done := by
    intro k hk
    obtain ⟨e, he, hvertex⟩ := mem_exportedEntities_requirement (h.sound.ends k hk).1
    refine (hall e he).2 k hk (k.targetVertex, k.relation) ?_
    exact StoredLink.mem_seenFrom.2 (.inl ⟨hvertex.symm, rfl, rfl⟩)
  have hdone : done.Perm c.store.links :=
    (List.perm_ext_iff_of_nodup hprogress.copying.done_nodup h.sound.linksOnce.ids_nodup.of_map).2
      fun k => ⟨fun hk => hprogress.copying.done_sub hk, hcopied k⟩
  have htwin : ∀ v ∈ c.store.vertices, ∃ w, c.store.Twin c'.store v w := by
    intro v hv
    cases v with
    | requirement id =>
      obtain ⟨e, he, hvertex⟩ := mem_exportedEntities_requirement hv
      rw [← hvertex]
      exact (hall e he).1
    | node id =>
      obtain ⟨n, hn, rfl⟩ := Store.node_mem_vertices.1 hv
      by_cases hnone : c.store.linksOf (.node n.id) = []
      · refine (hall (.node n) (List.mem_append_right _ (List.mem_map_of_mem ?_))).1
        exact List.mem_filter.2 ⟨Text.mem_sortOn.2 hn, List.isEmpty_iff.2 hnone⟩
      · have hlength := h.sound.length_linksOf (.node n.id)
        obtain ⟨far, hfar⟩ := List.exists_mem_of_length_pos
          (hlength ▸ List.length_pos_of_ne_nil hnone)
        exact hprogress.copying.exists_twin_of_seen hcopied hfar
  refine ⟨done, c', ?_, hprogress.copying, hdone, htwin⟩
  rw [importAll_eq_ok (consistent_fresh serial itemsPerPage).guardWrite_eq_ok, ← h.report_eq hprogress hdone,
    exported_eq]
  exact himport

/-- What a run has stored is restored from its export: every document is imported, every link is
created once, those between requirements are found unchanged from the other end, and a copy arises
that has fresh identities. -/
theorem importAll_exported_isCopy {ι : Type} (serial itemsPerPage : Nat) (ops : List (Operation ι))
    (serial' itemsPerPage' : Nat) :
    let c := (fresh serial itemsPerPage).run ops
    ∃ c', (fresh serial' itemsPerPage').importAll c.exported =
        .ok (c', {
          documents := c.exported.length
          created := c.store.links.length
          updated := 0
          unchanged := (c.store.links.filter fun l => l.kind = .internal).length
          cyclesDropped := 0
          failures := [] }) ∧
      ∃ f, c.store.IsCopy f c'.store := by
  have h : ((fresh serial itemsPerPage).run ops).Consistent :=
    (consistent_fresh serial itemsPerPage).run ops
  obtain ⟨done, c', himport, hcopying, hdone, htwin⟩ :=
    h.importAll_exported serial' itemsPerPage'
  exact ⟨c', himport, Store.isCopy_of_twins h.sound hcopying.consistent.sound
    hcopying.requirements hcopying.nodes htwin hdone hcopying.links⟩

end Crosswalk.Catalog
