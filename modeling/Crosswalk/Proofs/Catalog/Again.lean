import Crosswalk.Proofs.Catalog.Copy

/-!
# Importing an export again

A catalogue is a complete copy of itself. Imported where it came from, an export meets every entity
with all its attributes and every link as it is stored or as it looks from the other end. So each
entity is left as it is, each link is found unchanged, and the catalogue stays the same.
-/

namespace Crosswalk

/-! ### A store and itself -/

namespace Store

variable {s : Store}

theorem Twin.self {v : Vertex} (h : v ∈ s.vertices) : s.Twin s v v := by
  cases v with
  | requirement id =>
    obtain ⟨r, hr, rfl⟩ := requirement_mem_vertices.1 h
    exact ⟨r, hr, rfl, hr⟩
  | node id =>
    obtain ⟨n, hn, rfl⟩ := node_mem_vertices.1 h
    exact ⟨n, hn, rfl, hn⟩

theorem Sound.matches_self (h : s.Sound) {l : StoredLink} (hl : l ∈ s.links) : s.Matches s l l :=
  .inl ⟨.self (h.ends l hl).1, .self (h.ends l hl).2, rfl⟩

theorem length_links (s : Store) :
    s.links.length = (s.links.filter fun l => l.kind = .internal).length +
      (s.links.filter fun l => l.kind = .external).length := by
  rw [← List.countP_eq_length_filter, ← List.countP_eq_length_filter,
    s.links.length_eq_countP_add_countP fun l => l.kind = .internal]
  refine congrArg _ (List.countP_congr fun l _ => ?_)
  cases l.kind <;> simp

end Store

namespace Catalog

variable {c : Catalog}

/-- A catalogue is copied completely into itself. -/
theorem Copying.self (h : c.Consistent) : Copying c.store c.store.links c where
  source := h.sound
  consistent := h
  requirements := fun q hq => ⟨q, hq, rfl⟩
  nodes := fun m hm => ⟨m, hm, rfl⟩
  done_nodup := h.sound.linksOnce.ids_nodup.of_map
  done_sub := fun _ hk => hk
  links := List.forall₂_same.2 fun _ hl => h.sound.matches_self hl

namespace Consistent

/-! ### Entities and links that are stored -/

theorem storeEntity_self (h : c.Consistent) {v : Vertex} {e : Entity StoredId}
    (he : c.store.entity? v = some e) : c.storeEntity e = .ok (e, c) := by
  cases v with
  | requirement id =>
    obtain ⟨r, hr, rfl⟩ := Option.map_eq_some_iff.1 he
    exact map_eq_ok.2 ⟨_, h.storeRequirement_self (h.sound.requirement?_iff.1 hr).1 rfl, rfl⟩
  | node id =>
    obtain ⟨n, hn, rfl⟩ := Option.map_eq_some_iff.1 he
    exact map_eq_ok.2 ⟨_, h.storeNode_self (h.sound.node?_iff.1 hn).1 rfl, rfl⟩

/-- Joining two entities as a stored link says, from either end, finds that link. -/
theorem joinEntities_self (h : c.Consistent) {k : StoredLink} (hk : k ∈ c.store.links)
    {e e' : Entity StoredId} {relation : Relation}
    (hseen : (e'.vertex, relation) ∈ k.seenFrom e.vertex) :
    c.joinEntities e e' relation = .ok (.unchanged, c) := by
  have hends : e.vertex ∈ c.store.vertices ∧ e'.vertex ∈ c.store.vertices := by
    obtain ⟨hs, ht⟩ := h.sound.ends k hk
    rcases StoredLink.mem_seenFrom.1 hseen with ⟨hv, hw, -⟩ | ⟨hv, hw, -⟩ <;> rw [← hv, ← hw]
    · exact ⟨hs, ht⟩
    · exact ⟨ht, hs⟩
  obtain ⟨kind, a, b, oriented, same, hjoin, -, -, hsame⟩ :=
    (Copying.self h).joinEntities_eq hk hseen (.self hends.1) (.self hends.2)
  rw [hjoin, hsame.2 hk]
  rfl

theorem importLink_self (h : c.Consistent) {e : Entity StoredId} {far : Vertex × Relation}
    (hfar : far ∈ c.store.seen e.vertex) {link : Link StoredId}
    (hlink : c.store.linkTo? far = some link) : c.importLink e link = (.ok .unchanged, c) := by
  obtain ⟨k, hk, hseen⟩ := Store.mem_seen.1 hfar
  obtain ⟨w, relation⟩ := far
  obtain ⟨peer, hpeer, rfl⟩ := Option.map_eq_some_iff.1 hlink
  obtain rfl : peer.vertex = w := h.sound.vertex_of_entity? hpeer
  unfold Catalog.importLink
  simp only [Link.peer, Document.ofEntity, Document.entity, Link.relation, h.storeEntity_self hpeer,
    h.joinEntities_self hk hseen]

/-! ### Documents -/

theorem importLinks_self (h : c.Consistent) {e : Entity StoredId} {links : List (Link StoredId)}
    (hlinks : ∀ link ∈ links, ∃ far ∈ c.store.seen e.vertex, c.store.linkTo? far = some link)
    (report : ImportReport) :
    Catalog.importLinks e e (c, report) links =
      .ok (c, { report with unchanged := report.unchanged + links.length }) := by
  induction links generalizing report with
  | nil => rfl
  | cons link links ih =>
    obtain ⟨far, hfar, hlink⟩ := hlinks link List.mem_cons_self
    have hrest := ih (fun l hl => hlinks l (List.mem_cons_of_mem _ hl)) (report.record .unchanged)
    have hcount : (report.record .unchanged).unchanged + links.length =
        report.unchanged + (link :: links).length := by
      simp only [ImportReport.record, List.length_cons]
      omega
    rw [hcount] at hrest
    rw [Catalog.importLinks, h.importLink_self hfar hlink]
    exact hrest

theorem importDocument_self (h : c.Consistent) {e : Entity StoredId}
    (he : c.store.entity? e.vertex = some e) (report : ImportReport) :
    Catalog.importDocument (c, report) (c.store.hydrate e) =
      .ok (c, { report with
        documents := report.documents + 1
        unchanged := report.unchanged + (c.store.linksOf e.vertex).length }) := by
  have hlinks : ∀ link ∈ c.store.linksOf e.vertex,
      ∃ far ∈ c.store.seen e.vertex, c.store.linkTo? far = some link := fun link hlink =>
    List.mem_filterMap.1 ((Store.linksOf_perm h.sound.plain e.vertex).mem_iff.1 hlink)
  unfold Catalog.importDocument Store.hydrate
  simp only [Document.entity, Document.links, h.storeEntity_self he, h.importLinks_self hlinks]
  rfl

theorem importDocuments_self (h : c.Consistent) {es : List (Entity StoredId)}
    (hes : ∀ e ∈ es, c.store.entity? e.vertex = some e) (report : ImportReport) :
    (es.map c.store.hydrate).foldlM Catalog.importDocument (c, report) =
      .ok (c, { report with
        documents := report.documents + es.length
        unchanged := report.unchanged + (es.map fun e => (c.store.linksOf e.vertex).length).sum }) := by
  induction es generalizing report with
  | nil => rfl
  | cons e es ih =>
    rw [List.map_cons, List.foldlM_cons, h.importDocument_self (hes e List.mem_cons_self)]
    refine (ih (fun e' he' => hes e' (List.mem_cons_of_mem _ he')) _).trans ?_
    simp only [List.length_cons, List.map_cons, List.sum_cons, Nat.add_assoc, Nat.add_comm 1]

end Consistent

/-- The export of a run, imported into the catalogue from which it was taken, changes nothing at all:
every document is imported, and each link between requirements is found unchanged twice, from either
end, and each link to a node once. -/
theorem importAll_exported_self {ι : Type} (serial itemsPerPage : Nat) (ops : List (Operation ι)) :
    let c := (fresh serial itemsPerPage).run ops
    c.importAll c.exported = .ok (c, {
      documents := c.exported.length
      created := 0
      updated := 0
      unchanged := 2 * (c.store.links.filter fun l => l.kind = .internal).length +
        (c.store.links.filter fun l => l.kind = .external).length
      cyclesDropped := 0
      failures := [] }) := by
  intro c
  have h : c.Consistent := (consistent_fresh serial itemsPerPage).run ops
  have himport := h.importDocuments_self (fun e he => h.entity?_exported he) {}
  have hsum := h.sum_exported
  have hlength := c.store.length_links
  have hcount : c.exported.length = c.exportedEntities.length := by
    rw [exported_eq, List.length_map]
  rw [importAll_eq_ok h.guardWrite_eq_ok, exported_eq]
  refine himport.trans ?_
  rw [hsum, List.length_map, Nat.zero_add, Nat.zero_add]
  have hunchanged : c.store.links.length +
      (c.store.links.filter fun l => l.kind = .internal).length =
      2 * (c.store.links.filter fun l => l.kind = .internal).length +
        (c.store.links.filter fun l => l.kind = .external).length := by
    omega
  rw [hunchanged]

end Catalog

end Crosswalk
