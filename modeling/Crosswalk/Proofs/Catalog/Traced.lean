import Crosswalk.Proofs.Catalog.Attempt
import Crosswalk.Proofs.Index.Closing

/-!
# Link tables in which the hierarchy is found

The check for a link leaves out what joins its ends already, since this is to give way. What gives way
is the link that is found between the ends in the table. So the flag never falls as long as whatever
orders the hierarchy is found between its ends, or another link between the two is: a link that is
written then closes no path, or takes the arrow with it that would have closed a circle. What else
stands in the table, and in which spelling, makes no difference.
-/

namespace Crosswalk

variable {ι : Type}

/-! ### The hierarchy that is stored -/

/-- The parents and children of the stored hierarchy: those of the containments between requirements
and, the other way round, those of the parts. -/
def Store.hierarchy (s : Store) : List (StoredId × StoredId) :=
  s.containments ++
    (s.links.filter fun l => l.kind = .internal && l.relation = .partOf).map
      fun l => (l.target, l.source)

theorem Store.mem_hierarchy {s : Store} {p c : StoredId} :
    (p, c) ∈ s.hierarchy ↔ ∃ l ∈ s.links, l.arrow? = some (p, c) := by
  simp only [Store.hierarchy, Store.containments, List.mem_append, List.mem_map, List.mem_filter,
    Bool.and_eq_true, decide_eq_true_eq, Prod.mk.injEq]
  constructor
  · rintro (⟨l, ⟨hl, hkind, hrelation⟩, rfl, rfl⟩ | ⟨l, ⟨hl, hkind, hrelation⟩, rfl, rfl⟩) <;>
      exact ⟨l, hl, by rw [StoredLink.arrow?, hkind, hrelation]⟩
  · rintro ⟨l, hl, harrow⟩
    obtain ⟨id, kind, source, target, relation, spelling⟩ := l
    cases kind <;> cases relation <;> cases harrow
    · exact .inr ⟨_, ⟨hl, rfl, rfl⟩, rfl, rfl⟩
    · exact .inl ⟨_, ⟨hl, rfl, rfl⟩, rfl, rfl⟩

/-! ### Links between the same ends -/

namespace StoredLink

/-- Links that join two entities with which a third one joins its ends join the same as that one. -/
theorem joins_of_joins {l m : StoredLink} {x y : StoredId} (hkind : l.kind = m.kind)
    (hl : m.joins l.source l.target = true) (hm : m.joins x y = true) : l.joins x y = true := by
  obtain ⟨lid, lkind, lsource, ltarget, lrelation, lspelling⟩ := l
  obtain ⟨mid, mkind, msource, mtarget, mrelation, mspelling⟩ := m
  obtain rfl : lkind = mkind := hkind
  cases lkind <;> grind [joins, LinkKind.joins]

theorem joins_internal_comm {l : StoredLink} (hkind : l.kind = .internal) (a b : StoredId) :
    l.joins a b = l.joins b a := by
  rw [joins, joins, hkind]
  exact Bool.or_comm _ _

end StoredLink

namespace Store

variable {s s' : Store} {kind : LinkKind} {a b : StoredId} {relation : Relation}

theorem isSome_findLink? : (s.findLink? kind a b).isSome = true ↔
    ∃ l ∈ s.links, (l.kind = kind ∧ l.joins a b = true) ∧ l.endsPlain = true := by
  rw [findLink?, List.find?_isSome]
  simp only [Bool.and_eq_true, decide_eq_true_eq]

theorem findLink?_congr (hlinks : s'.links = s.links) :
    s'.findLink? kind a b = s.findLink? kind a b := by
  unfold findLink?
  rw [hlinks]

/-- Between requirements it makes no difference from which end a link is sought. -/
theorem isSome_findLink?_comm : (s.findLink? .internal a b).isSome = true ↔
    (s.findLink? .internal b a).isSome = true := by
  rw [isSome_findLink?, isSome_findLink?]
  refine exists_congr fun l => and_congr_right fun _ => and_congr_left fun _ => ?_
  exact and_congr_right fun hkind => by rw [StoredLink.joins_internal_comm hkind]

/-! ### The identities of links -/

/-- No identity is used for two links, in whatever spelling, and none of them will be drawn. -/
structure IdsOnce (s : Store) : Prop where
  nodup : (s.links.map (·.id)).Nodup
  fresh : ∀ id ∈ s.links.map (·.id), ∀ n, s.drawn ≤ n → id ≠ .ofSerial n

theorem IdsOnce.congr (h : s.IdsOnce) (hids : s'.links.map (·.id) = s.links.map (·.id))
    (hdrawn : s.drawn ≤ s'.drawn) : s'.IdsOnce where
  nodup := hids ▸ h.nodup
  fresh := hids ▸ fun id hid n hn => h.fresh id hid n (hdrawn.trans hn)

/-- Updating the row of a link keeps the other links in their places, and there the link as it is to
be, or as it has been if the row is not found by its identity. -/
theorem IdsOnce.updateLink_ok (h : s.IdsOnce) {old l : StoredLink} (hold : old ∈ s.links)
    (hid : l.id = old.id) (hkind : l.kind = old.kind) (hupdate : s.updateLink l = .ok s') :
    s'.IdsOnce ∧ (∀ m ∈ s.links, m ≠ old → m ∈ s'.links) ∧ (old ∈ s'.links ∨ l ∈ s'.links) := by
  have hunique : ∀ m ∈ s.links, m.key.id = l.key.id → m = old := fun m hm hkey =>
    Keyed.eq_of_key h.nodup hm hold ((congrArg SpeltId.id hkey).trans hid)
  rcases s.updateLink_cases l with ⟨fault, herror⟩ | hsame | ⟨row, hrow, hkey, hok⟩
  · cases herror.symm.trans hupdate
  · cases hsame.symm.trans hupdate
    exact ⟨h, fun m hm _ => hm, .inl hold⟩
  · cases hok.symm.trans hupdate
    obtain rfl := hunique row hrow hkey
    have hl : ({ l with kind := row.kind } : StoredLink) = l := by rw [← hkind]
    rw [hl]
    refine ⟨h.congr ?_ le_rfl, fun m hm hne => ?_, .inr ?_⟩
    · rw [List.map_map]
      refine List.map_congr_left fun m hm => ?_
      show (if m.key.id = l.key.id then l else m).id = m.id
      split
      · rename_i hmkey
        rw [hid, hunique m hm hmkey]
      · rfl
    · exact List.mem_map.2 ⟨m, hm, if_neg fun hmkey => hne (hunique m hm hmkey)⟩
    · exact List.mem_map.2 ⟨row, hrow, if_pos hkey⟩

/-- A link table in which a link is found between every parent and child of the hierarchy. -/
structure Traceable (s : Store) : Prop where
  ids : s.IdsOnce
  found : ∀ p d, (p, d) ∈ s.hierarchy → (s.findLink? .internal p d).isSome = true

/-! ### What is found after writing -/

/-- What a store becomes when a link is written between two entities: they are found to be joined,
and so is whatever has been before. -/
structure Gains (s s' : Store) (kind : LinkKind) (a b : StoredId) : Prop where
  ids : s'.IdsOnce
  kept : ∀ kind x y, (s.findLink? kind x y).isSome = true → (s'.findLink? kind x y).isSome = true
  found : (s'.findLink? kind a b).isSome = true

theorem IdsOnce.gains_updateLink (h : s.IdsOnce) {old : StoredLink}
    (hfind : s.findLink? kind a b = some old)
    (hupdate : s.updateLink (s.linkFor kind a b relation) = .ok s') : s.Gains s' kind a b := by
  obtain ⟨hold, hkind, hjoins⟩ := findLink?_some hfind
  have hplain : old.endsPlain = true := by
    have hmatch := List.find?_some hfind
    rw [Bool.and_eq_true] at hmatch
    exact hmatch.2
  have hid : (s.linkFor kind a b relation).id = old.id := by rw [linkFor_of_some hfind]
  obtain ⟨hids, hothers, hthere⟩ := h.updateLink_ok hold hid hkind.symm hupdate
  -- what the old link joins is joined by what stands in its place
  have hplace : ∀ x y, old.joins x y = true →
      ∃ m ∈ s'.links, (m.kind = kind ∧ m.joins x y = true) ∧ m.endsPlain = true := by
    intro x y hxy
    rcases hthere with hthere | hthere
    · exact ⟨old, hthere, ⟨hkind, hxy⟩, hplain⟩
    · exact ⟨_, hthere, ⟨rfl, StoredLink.joins_of_joins hkind.symm hjoins hxy⟩, rfl⟩
  refine ⟨hids, fun kind' x y hxy => ?_, isSome_findLink?.2 (hplace a b hjoins)⟩
  obtain ⟨m, hm, ⟨hmkind, hmxy⟩, hmplain⟩ := isSome_findLink?.1 hxy
  rw [isSome_findLink?]
  by_cases hne : m = old
  · subst hne
    rw [← hmkind, hkind]
    exact hplace x y hmxy
  · exact ⟨m, hothers m hm hne, ⟨hmkind, hmxy⟩, hmplain⟩

theorem IdsOnce.gains_insertLink (h : s.IdsOnce) (hfind : s.findLink? kind a b = none)
    (hinsert : insertLink { s with drawn := s.drawn + 1 } (s.linkFor kind a b relation) = .ok s') :
    s.Gains s' kind a b := by
  obtain ⟨-, rfl⟩ := insertLink_ok hinsert
  have hid : (s.linkFor kind a b relation).id = .ofSerial s.drawn := by rw [linkFor_of_none hfind]
  have hnew : ∀ m ∈ s.links, m.id ≠ (s.linkFor kind a b relation).id := fun m hm => by
    rw [hid]
    exact h.fresh _ (List.mem_map_of_mem hm) _ le_rfl
  refine ⟨⟨Keyed.nodup_concat h.nodup hnew, ?_⟩, fun kind' x y hxy => ?_, ?_⟩
  · intro id hmem n hn
    rw [List.map_append, List.map_singleton, hid] at hmem
    rcases List.mem_append.1 hmem with hmem | hmem
    · exact h.fresh id hmem n (Nat.le_of_succ_le hn)
    · rw [List.mem_singleton.1 hmem]
      exact fun heq => absurd (StoredId.ofSerial_inj heq) (Nat.ne_of_lt hn)
  · obtain ⟨m, hm, hjoins⟩ := isSome_findLink?.1 hxy
    exact isSome_findLink?.2 ⟨m, List.mem_append_left _ hm, hjoins⟩
  · have hjoins : (s.linkFor kind a b relation).joins a b = true := by
      cases kind <;> simp [linkFor, StoredLink.joins, LinkKind.joins]
    exact isSome_findLink?.2
      ⟨_, List.mem_append_right _ List.mem_cons_self, ⟨rfl, hjoins⟩, rfl⟩

end Store

namespace Catalog

variable {c c' : Catalog} {kind : LinkKind} {a b : StoredId} {relation : Relation}

/-- A catalogue in whose table a link is found between the ends of every arrow of its graph. -/
structure Traced (c : Catalog) : Prop where
  coherent : c.index.Coherent
  acyclic : c.index.acyclic = true
  ids : c.store.IdsOnce
  found : ∀ p d, (p, d) ∈ c.index.hierarchy → (c.store.findLink? .internal p d).isSome = true

theorem traced_ofStore {s : Store} (h : s.Traceable) (hacyclic : Graph.Acyclic s.hierarchy)
    (itemsPerPage : Nat) : (ofStore s itemsPerPage).Traced := by
  have htracks := Index.tracks_build s.vertices s.links
  have hmem : ∀ {p d}, (p, d) ∈ (ofStore s itemsPerPage).index.hierarchy → (p, d) ∈ s.hierarchy :=
    fun harrow => Store.mem_hierarchy.2 ((htracks.arrows _ _).1 harrow)
  exact ⟨htracks.coherent, htracks.coherent.flag.2 (hacyclic.anti fun _ harrow => hmem harrow), h.ids,
    fun p d harrow => h.found p d (hmem harrow)⟩

namespace Traced

theorem storeEntity (h : c.Traced) {e : Entity ι} {stored : Entity StoredId}
    (hput : c.storeEntity e = .ok (stored, c')) : c'.Traced := by
  obtain ⟨hlinks, hdrawn, v, hindex⟩ := storeEntity_ok hput
  refine ⟨?_, ?_, h.ids.congr (by rw [hlinks]) hdrawn, ?_⟩
  · rw [hindex]
    exact h.coherent.addVertex v
  · rw [hindex, Index.addVertex_acyclic]
    exact h.acyclic
  · intro p d hpd
    rw [hindex, Index.addVertex_hierarchy] at hpd
    rw [Store.findLink?_congr hlinks]
    exact h.found p d hpd

theorem not_mem_hierarchy (h : c.Traced) (hfind : c.store.findLink? .internal a b = none) :
    (a, b) ∉ c.index.hierarchy ∧ (b, a) ∉ c.index.hierarchy := by
  have hnone : ¬ (c.store.findLink? .internal a b).isSome = true := by
    rw [hfind]
    exact Bool.false_ne_true
  exact ⟨fun hab => hnone (h.found a b hab),
    fun hba => hnone (Store.isSome_findLink?_comm.1 (h.found b a hba))⟩

/-- The arrows after a link between requirements has been written: those between its ends have gone. -/
theorem mem_hierarchy_internal (h : c.Traced) {x y : StoredId} :
    (x, y) ∈ (c.index.replaceEdge (c.store.findLink? .internal a b)
      (c.store.linkFor .internal a b relation)).hierarchy ↔
      (x, y) ∈ Index.dropArrows a b c.index.hierarchy ∨ relation.ordered? a b = some (x, y) := by
  unfold Index.replaceEdge
  cases hfind : c.store.findLink? .internal a b with
  | some old =>
    obtain ⟨-, hkind, hjoins⟩ := Store.findLink?_some hfind
    exact Index.mem_hierarchy_replace hkind hjoins _ _
  | none =>
    show (x, y) ∈ (c.index.addEdge _).hierarchy ↔ _
    rw [Index.mem_hierarchy_addEdge, StoredLink.arrow?_internal rfl, Index.mem_dropArrows]
    -- nothing is found between the ends, so no arrow leads from one to the other
    obtain ⟨hab, hba⟩ := h.not_mem_hierarchy hfind
    refine or_congr_left ⟨fun hxy => ⟨hxy, ?_, ?_⟩, And.left⟩
    · rintro ⟨rfl, rfl⟩
      exact hab hxy
    · rintro ⟨rfl, rfl⟩
      exact hba hxy

/-- A link to a node brings no arrow in and takes none away. -/
theorem mem_hierarchy_external {x y : StoredId} :
    (x, y) ∈ (c.index.replaceEdge (c.store.findLink? .external a b)
      (c.store.linkFor .external a b relation)).hierarchy ↔ (x, y) ∈ c.index.hierarchy := by
  unfold Index.replaceEdge
  cases hfind : c.store.findLink? .external a b with
  | some old =>
    obtain ⟨-, hkind, -⟩ := Store.findLink?_some hfind
    show (x, y) ∈ ((c.index.removeEdge old).addEdge _).hierarchy ↔ _
    rw [Index.mem_hierarchy_addEdge, Index.mem_hierarchy_removeEdge, hkind]
    simp [Store.linkFor, StoredLink.arrow?]
  | none =>
    show (x, y) ∈ (c.index.addEdge _).hierarchy ↔ _
    rw [Index.mem_hierarchy_addEdge]
    simp [Store.linkFor, StoredLink.arrow?]

theorem write (h : c.Traced) {outcome : LinkOutcome}
    (hpath : c.index.closingPath? a b relation = none)
    (hwrite : c.writeBetween (c.store.findLink? kind a b) kind a b relation = .ok (outcome, c')) :
    c'.Traced := by
  obtain ⟨-, hindex, hstore⟩ := writeBetween_ok hwrite
  have hgains : c.store.Gains c'.store kind a b := by
    rcases hstore with ⟨old, hfind, hupdate⟩ | ⟨hfind, hinsert⟩
    · exact h.ids.gains_updateLink hfind hupdate
    · exact h.ids.gains_insertLink hfind hinsert
  have hcoherent : c'.index.Coherent := by
    rw [hindex]
    exact h.coherent.replaceEdge _ _
  cases kind with
  | internal =>
    have harrows : ∀ x y, (x, y) ∈ c'.index.hierarchy ↔
        (x, y) ∈ Index.dropArrows a b c.index.hierarchy ∨ relation.ordered? a b = some (x, y) := by
      intro x y
      rw [hindex]
      exact h.mem_hierarchy_internal
    refine ⟨hcoherent, ?_, hgains.ids, fun p d hpd => ?_⟩
    · exact (h.coherent.acyclic_iff_closingPath? h.acyclic hcoherent.flag harrows).2 hpath
    · rcases (harrows p d).1 hpd with hdrop | hordered
      · exact hgains.kept _ _ _ (h.found p d (Index.mem_dropArrows.1 hdrop).1)
      · rcases Relation.ordered?_ends hordered with ⟨rfl, rfl⟩ | ⟨rfl, rfl⟩
        · exact hgains.found
        · exact Store.isSome_findLink?_comm.1 hgains.found
  | external =>
    have harrows : ∀ x y, (x, y) ∈ c'.index.hierarchy ↔ (x, y) ∈ c.index.hierarchy := by
      intro x y
      rw [hindex]
      exact mem_hierarchy_external
    refine ⟨hcoherent, ?_, hgains.ids, fun p d hpd => ?_⟩
    · exact hcoherent.flag.2 ((h.coherent.flag.1 h.acyclic).anti fun arrow harrow =>
        (harrows arrow.1 arrow.2).1 harrow)
    · exact hgains.kept _ _ _ (h.found p d ((harrows p d).1 hpd))

theorem importStable (stored : Entity StoredId) : ImportStable ι stored Traced where
  entity := fun h hput => h.storeEntity hput
  join := by
    intro c h peer relation
    have hattempt : c.Attempt (c.joinEntities stored peer relation) :=
      attempt_joinEntities h.acyclic stored peer
    exact hattempt.keeps (hattempt.kept_of_ok h fun hpath hwrite => h.write hpath hwrite)

/-- Neither a change nor an import is refused because of a cycle. -/
theorem perform_ne_fatalState (h : c.Traced) (op : Operation ι) (cycle : List Vertex) :
    c.perform op ≠ .error (.fatalState cycle) :=
  perform_ne_fatalState_of_stable h.acyclic h importStable op cycle

end Traced

end Catalog

end Crosswalk
