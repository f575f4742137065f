import Crosswalk.Proofs.Catalog.Copy
import Crosswalk.Proofs.Catalog.Opened
import Crosswalk.Proofs.Catalog.Shape
import Crosswalk.Proofs.Store.Turned

/-!
# The hierarchy of an imported export

An import writes a link between requirements when it meets the link first, in the document of the end
that is exported first, and lets it lead from there unless it is a containment. So the copy that
arises has the containments of what has been exported, but its roots, and with them the depths, are
those of the store whose links are turned that way.
-/

namespace Crosswalk

/-- Whether a link leads from an entity, if it joins requirements and is no containment. -/
def StoredLink.LeadsFrom (l : StoredLink) (v : Vertex) : Prop :=
  l.kind = .internal → l.relation ≠ .contains → l.sourceVertex = v

namespace Catalog

variable {ι : Type} {c c' : Catalog} {kind : LinkKind} {a b : StoredId} {relation : Relation}
  {k l : StoredLink}

/-! ### The direction in which links are written -/

theorem settle_links (honce : c.store.LinksOnce) (kind : LinkKind) (a b : StoredId)
    (relation : Relation) (same : Bool)
    (hl : l ∈ (c.settle kind a b relation same).2.store.links) :
    l ∈ c.store.links ∨ l = c.store.linkFor kind a b relation := by
  unfold settle at hl
  split at hl
  · exact .inl hl
  · split at hl
    · exact .inl hl
    · rcases List.mem_cons.1 ((Store.withLink_links_perm honce).mem_iff.1 hl) with hl | hl
      · exact .inr hl
      · exact .inl (List.mem_filter.1 hl).1

namespace Consistent

theorem leads_joinRequirements (h : c.Consistent) {outcome : LinkOutcome}
    (hjoin : c.joinRequirements a b relation = .ok (outcome, c')) (hl : l ∈ c'.store.links) :
    l ∈ c.store.links ∨ l.LeadsFrom (.requirement a) := by
  by_cases hends : .requirement a ∈ c.store.vertices ∧ .requirement b ∈ c.store.vertices
  · obtain ⟨⟨source, target, oriented⟩, horient⟩ : ∃ o, orient a b relation = o := ⟨_, rfl⟩
    have hsettle := (h.joinRequirements_eq hends.1 hends.2 horient).symm.trans hjoin
    obtain rfl : _ = c' := congrArg Prod.snd (Except.ok.inj hsettle)
    refine (settle_links h.sound.linksOnce _ _ _ _ _ hl).imp_right ?_
    rintro rfl - hcontains
    unfold orient at horient
    split at horient <;> cases horient
    · exact absurd rfl hcontains
    · rfl
  · have hmissing : ∃ v, c.joinRequirements a b relation = .error (.notFound v) :=
      joinRequirements_missing (not_and_or.1 hends)
    obtain ⟨v, hv⟩ := hmissing
    cases hv.symm.trans hjoin

theorem leads_joinNode (h : c.Consistent) {outcome : LinkOutcome}
    (hjoin : c.joinNode a b relation = .ok (outcome, c')) (hl : l ∈ c'.store.links) (v : Vertex) :
    l ∈ c.store.links ∨ l.LeadsFrom v := by
  by_cases hends : .requirement a ∈ c.store.vertices ∧ .node b ∈ c.store.vertices
  · have hsettle := (h.joinNode_eq hends.1 hends.2).symm.trans hjoin
    obtain rfl : _ = c' := congrArg Prod.snd (Except.ok.inj hsettle)
    refine (settle_links h.sound.linksOnce _ _ _ _ _ hl).imp_right ?_
    rintro rfl hkind
    cases hkind
  · have hmissing : ∃ v, c.joinNode a b relation = .error (.notFound v) :=
      joinNode_missing (not_and_or.1 hends)
    obtain ⟨v, hv⟩ := hmissing
    cases hv.symm.trans hjoin

theorem leads_joinEntities (h : c.Consistent) {stored peer : Entity StoredId}
    {outcome : LinkOutcome} (hjoin : c.joinEntities stored peer relation = .ok (outcome, c'))
    (hl : l ∈ c'.store.links) : l ∈ c.store.links ∨ l.LeadsFrom stored.vertex := by
  unfold Catalog.joinEntities at hjoin
  split at hjoin
  · exact h.leads_joinRequirements hjoin hl
  · exact h.leads_joinNode hjoin hl _
  · exact h.leads_joinNode hjoin hl _
  · cases hjoin

end Consistent

/-- While the links of an entity are imported, the links that were stored are joined by links that lead
from there. -/
theorem importStable_leads (old : List StoredLink) (stored : Entity StoredId) :
    ImportStable ι stored fun c =>
      c.Consistent ∧ ∀ l ∈ c.store.links, l ∈ old ∨ l.LeadsFrom stored.vertex where
  entity := by
    rintro c c' e put ⟨h, hlinks⟩ hput
    refine ⟨h.storeEntity hput, fun l hl => hlinks l ?_⟩
    rw [← (storeEntity_ok hput).1]
    exact hl
  join := by
    rintro c ⟨h, hlinks⟩ peer relation
    refine (h.joinEntities stored peer relation).imp_right ?_
    rintro ⟨outcome, c', hjoin, h'⟩
    refine ⟨outcome, c', hjoin, h', fun l hl => ?_⟩
    exact (h.leads_joinEntities hjoin hl).elim (hlinks l) .inr

namespace Copying

variable {s : Store} {done : List StoredLink}

/-- The links that a document of the source brings lead from the twin of its entity. -/
theorem leads_importDocument {state state' : Catalog × ImportReport} (h : Copying s done state.1)
    {e : Entity StoredId} (he : s.entity? e.vertex = some e)
    (himport : Catalog.importDocument state (s.hydrate e) = .ok state')
    (hl : l ∈ state'.1.store.links) :
    l ∈ state.1.store.links ∨ ∃ v, s.Twin state'.1.store e.vertex v ∧ l.LeadsFrom v := by
  obtain ⟨stored, c₁, hput, h₁, -, hstored⟩ := h.storeEntity he
  have hnext : Copying s done ((c₁, state.2) : Catalog × ImportReport).1 := h₁
  have hlisted : ∀ link ∈ s.linksOf e.vertex, ∃ far ∈ s.seen e.vertex, s.linkTo? far = some link :=
    fun link hlink => List.mem_filterMap.1 ((Store.linksOf_perm h.source.plain e.vertex).mem_iff.1 hlink)
  obtain ⟨done₂, ⟨c₂, report₂⟩, hlinks, hprogress, -⟩ := hnext.importLinks e hstored hlisted
  have hstate : state' = (c₂, report₂.countDocument) := by
    unfold Catalog.importDocument Store.hydrate at himport
    simp only [Document.entity, Document.links, hput, hlinks] at himport
    exact (Except.ok.inj himport).symm
  subst hstate
  rw [← (storeEntity_ok hput).1]
  obtain ⟨state₂, hlinks', -, hleads⟩ :=
    (importStable_leads c₁.store.links stored).importLinks e ⟨hnext.consistent, fun _ => .inl⟩
      (s.linksOf e.vertex)
  obtain rfl := Except.ok.inj (hlinks'.symm.trans hlinks)
  exact (hleads l hl).imp_right fun hfrom => ⟨_, hprogress.keeps.twin hstored, hfrom⟩

/-- Whatever state importing entities of the source has led to, it is the one that continues the copy. -/
theorem progress_of_importDocuments {state state' : Catalog × ImportReport}
    (h : Copying s done state.1) {es : List (Entity StoredId)}
    (hes : ∀ e ∈ es, s.entity? e.vertex = some e)
    (himport : (es.map s.hydrate).foldlM Catalog.importDocument state = .ok state') :
    ∃ done', Copying s done' state'.1 ∧ state.1.Keeps state'.1 ∧
      ∀ e ∈ es, ∀ k ∈ s.links, ∀ far ∈ k.seenFrom e.vertex, k ∈ done' := by
  obtain ⟨done', state'', himport', hprogress, hall⟩ := h.importDocuments hes
  obtain rfl : state'' = state' := Except.ok.inj (himport'.symm.trans himport)
  exact ⟨done', hprogress.copying, hprogress.keeps, fun e he => (hall e he).2⟩

theorem leads_importDocuments {state state' : Catalog × ImportReport} (h : Copying s done state.1)
    {es : List (Entity StoredId)} (hes : ∀ e ∈ es, s.entity? e.vertex = some e)
    (himport : (es.map s.hydrate).foldlM Catalog.importDocument state = .ok state')
    (hl : l ∈ state'.1.store.links) :
    l ∈ state.1.store.links ∨
      ∃ e ∈ es, ∃ v, s.Twin state'.1.store e.vertex v ∧ l.LeadsFrom v := by
  induction es generalizing state done with
  | nil =>
    cases himport
    exact .inl hl
  | cons e es ih =>
    have he := hes e List.mem_cons_self
    have hrest := fun e' he' => hes e' (List.mem_cons_of_mem e he')
    rw [List.map_cons, List.foldlM_cons] at himport
    obtain ⟨state₁, hfirst, hlater⟩ := bind_eq_ok.1 himport
    obtain ⟨done₁, state₁', hfirst', hprogress, -⟩ := h.importDocument he
    obtain rfl : state₁' = state₁ := Except.ok.inj (hfirst'.symm.trans hfirst)
    obtain ⟨-, -, hkeeps, -⟩ := hprogress.copying.progress_of_importDocuments hrest hlater
    rcases ih hprogress.copying hrest hlater with hl₁ | ⟨e', he', v, hv, hleads⟩
    · refine (h.leads_importDocument he hfirst hl₁).imp_right ?_
      rintro ⟨v, hv, hleads⟩
      exact ⟨e, List.mem_cons_self, v, hkeeps.twin hv, hleads⟩
    · exact .inr ⟨e', List.mem_cons_of_mem e he', v, hv, hleads⟩

/-- A link that matches one which is seen from the entities that are imported first has been written
with these, and leads from one of them. -/
theorem leads_of_seen {state state' : Catalog × ImportReport} (h : Copying s done state.1)
    {before after : List (Entity StoredId)}
    (hes : ∀ e ∈ before ++ after, s.entity? e.vertex = some e)
    (himport : ((before ++ after).map s.hydrate).foldlM Catalog.importDocument state = .ok state')
    (hl : l ∈ state'.1.store.links) (hk : k ∈ s.links) (hmatch : s.Matches state'.1.store k l)
    {e : Entity StoredId} (he : e ∈ before) {far : Vertex × Relation}
    (hfar : far ∈ k.seenFrom e.vertex) :
    l ∈ state.1.store.links ∨
      ∃ e ∈ before, ∃ v, s.Twin state'.1.store e.vertex v ∧ l.LeadsFrom v := by
  have hbefore := fun e he => hes e (List.mem_append_left after he)
  have hafter := fun e he => hes e (List.mem_append_right before he)
  rw [List.map_append, List.foldlM_append] at himport
  obtain ⟨state₁, hfirst, hrest⟩ := bind_eq_ok.1 himport
  obtain ⟨done₁, h₁, -, hcopied⟩ := h.progress_of_importDocuments hbefore hfirst
  obtain ⟨done₂, h₂, hkeeps, -⟩ := h₁.progress_of_importDocuments hafter hrest
  have ht := h₂.consistent.sound
  obtain ⟨l', hl', hmatch'⟩ := h₁.exists_match (hcopied e he k hk far hfar)
  have hmono := hmatch'.mono hkeeps.requirements hkeeps.nodes
  have hnot := (hmatch.not_apart h.source ht hmono).2 (StoredLink.not_apart_self k)
  obtain rfl := ht.linksOnce.link_eq_of_not_apart hl (hkeeps.links hl') hnot
  refine (h.leads_importDocuments hbefore hfirst hl').imp_right ?_
  rintro ⟨e', he', v, hv, hleads⟩
  exact ⟨e', he', v, hkeeps.twin hv, hleads⟩

end Copying

/-! ### The end that is exported first -/

theorem mem_of_idxOf_lt {α : Type} [DecidableEq α] {a b : α} {before after : List α}
    (hb : b ∉ before)
    (h : (before ++ b :: after).idxOf a < (before ++ b :: after).idxOf b) : a ∈ before := by
  by_contra ha
  rw [List.idxOf_append_of_notMem hb, List.idxOf_append_of_notMem ha, List.idxOf_cons_self] at h
  omega

/-- What is exported before a requirement: everything that is listed before it, and not the requirement
itself. -/
theorem Consistent.exportedEntities_split (h : c.Consistent) {id : StoredId}
    (hid : .requirement id ∈ c.store.vertices) :
    ∃ before after, c.exportedEntities = before ++ after ∧
      .requirement id ∉ before.map Entity.vertex ∧
      ∀ w, c.store.vertices.idxOf w < c.store.vertices.idxOf (.requirement id) →
        w ∈ before.map Entity.vertex := by
  obtain ⟨r, hr, rfl⟩ := Store.requirement_mem_vertices.1 hid
  have hlisted : r ∈ c.store.allRequirements := Text.mem_sortOn.2 hr
  obtain ⟨before, after, hsplit⟩ := List.append_of_mem hlisted
  have hbefore : (before.map Entity.requirement).map Entity.vertex =
      before.map fun q => Vertex.requirement q.id := List.map_map
  obtain ⟨rest, hvertices⟩ : ∃ rest, c.store.vertices =
      (before.map fun q => Vertex.requirement q.id) ++ .requirement r.id :: rest := by
    unfold Store.vertices
    rw [hsplit, List.map_append, List.map_cons, List.append_assoc]
    exact ⟨_, rfl⟩
  obtain ⟨later, hexported⟩ : ∃ later, c.exportedEntities = before.map .requirement ++ later := by
    unfold exportedEntities
    rw [hsplit, List.map_append, List.append_assoc]
    exact ⟨_, rfl⟩
  have hnodup := h.sound.vertices_nodup
  rw [hvertices, List.nodup_append] at hnodup
  have hnew : Vertex.requirement r.id ∉ before.map fun q => Vertex.requirement q.id :=
    fun hmem => hnodup.2.2 _ hmem _ List.mem_cons_self rfl
  refine ⟨before.map .requirement, later, hexported, hbefore ▸ hnew, fun w hw => ?_⟩
  rw [hvertices] at hw
  rw [hbefore]
  exact mem_of_idxOf_lt hnew hw

/-- A link of a complete copy leads from the twin of the end that is exported first, unless it is a
containment: it was written before the document of the other end was met. -/
theorem Consistent.fromFirst_of_importDocuments (h : c.Consistent) {serial itemsPerPage : Nat}
    {state : Catalog × ImportReport}
    (himport : (c.exportedEntities.map c.store.hydrate).foldlM Catalog.importDocument
      (fresh serial itemsPerPage, {}) = .ok state)
    (hl : l ∈ state.1.store.links) : c.store.FromFirst state.1.store l := by
  intro hkind hcontains v w hv hw
  by_contra hlater
  have hstart : Copying c.store [] ((fresh serial itemsPerPage, {}) : Catalog × ImportReport).1 :=
    .start h.sound serial itemsPerPage
  obtain ⟨id, rfl⟩ := hv.eq_requirement
  obtain ⟨before, after, hsplit, hnew, hearlier⟩ := h.exportedEntities_split hv.left_mem
  have hstored : ∀ e ∈ before ++ after, c.store.entity? e.vertex = some e := fun e he =>
    h.entity?_exported (hsplit ▸ he)
  rw [hsplit] at himport
  obtain ⟨done, hcopy, -, -⟩ := hstart.progress_of_importDocuments hstored himport
  obtain ⟨k, hk, hmatch⟩ := hcopy.exists_done hl
  have hs := h.sound
  have ht := hcopy.consistent.sound
  -- the end that comes earlier sees what the link has been copied from
  have hsees : ∃ far, far ∈ k.seenFrom w := by
    rcases hmatch with ⟨-, htwin, -⟩ | ⟨htwin, -, -⟩
    · exact ⟨_, StoredLink.mem_seenFrom.2 (.inr ⟨htwin.left_unique hs ht hw, rfl, rfl⟩)⟩
    · exact ⟨_, StoredLink.mem_seenFrom.2 (.inl ⟨htwin.left_unique hs ht hw, rfl, rfl⟩)⟩
  obtain ⟨far, hfar⟩ := hsees
  obtain ⟨e, he, rfl⟩ := List.mem_map.1 (hearlier w (Nat.lt_of_not_le hlater))
  rcases hstart.leads_of_seen hstored himport hl (hcopy.done_sub hk) hmatch he hfar with
    hold | ⟨e', he', v, hv', hleads⟩
  · exact absurd hold List.not_mem_nil
  · rw [hleads hkind hcontains] at hv
    exact hnew (hv.left_unique hs ht hv' ▸ List.mem_map_of_mem he')

/-- The export of a consistent catalogue, imported into one without entities, gives a copy with the
same containments, whose hierarchy has the shape of that of the turned links. -/
theorem Consistent.exists_imported (h : c.Consistent) (serial itemsPerPage : Nat) :
    ∃ c' report f, (fresh serial itemsPerPage).importAll c.exported = .ok (c', report) ∧
      report.failures = [] ∧ c.store.IsCopy f c'.store ∧
      (∀ p ∈ c.store.requirements, ∀ q ∈ c.store.requirements,
        (f p.id, f q.id) ∈ c'.index.hierarchy ↔ (p.id, q.id) ∈ c.index.hierarchy) ∧
      SameShape f (ofStore c.store.turned c.itemsPerPage) c' ∧
      ((∀ l ∈ c.store.links, l.relation ≠ .related → c.store.InOrder l) → SameShape f c c') := by
  obtain ⟨done, c', himport, hcopying, hdone, htwin⟩ := h.importAll_exported serial itemsPerPage
  have hs := h.sound
  have h' := hcopying.consistent
  obtain ⟨f, hcopy⟩ := Store.isCopy_of_twins hs h'.sound hcopying.requirements hcopying.nodes htwin
    hdone hcopying.links
  have hf : ∀ v w, c.store.Twin c'.store v w → w = v.mapId f := fun v w hvw =>
    hvw.right_unique hs h'.sound (hcopy.twin hvw.left_mem)
  have hdistinct : ∀ v ∈ c.store.vertices, ∀ w ∈ c.store.vertices, v.mapId f = w.mapId f → v = w := by
    intro v hv w hw heq
    refine hcopy.distinct v hv w hw ?_
    cases v <;> cases w <;> exact congrArg Vertex.id heq
  have hfirst : ∀ l ∈ c'.store.links, c.store.FromFirst c'.store l := by
    intro l hl
    have hdocuments :=
      (importAll_eq_ok (consistent_fresh serial itemsPerPage).guardWrite_eq_ok).1 himport
    rw [exported_eq] at hdocuments
    exact h.fromFirst_of_importDocuments hdocuments hl
  have harrows := Store.arrows_perm_of_matches hs h'.sound hdone hcopying.links hfirst hf
  have hlower := Store.lowerEnds_perm_of_matches hs h'.sound hdone hcopying.links hfirst hf
  have hturned : (ofStore c.store.turned c.itemsPerPage).Consistent :=
    consistent_ofStore hs.turned c.itemsPerPage
  have hrenames : (ofStore c.store.turned c.itemsPerPage).index.Renames f c'.index := by
    refine hturned.mirrors.renames h'.mirrors hturned.sound.ends hdistinct hcopy.vertices_perm ?_
      hlower
    have harrows' := harrows
    rw [← c.store.turned_arrows] at harrows'
    exact harrows'
  refine ⟨c', _, f, himport, rfl, hcopy, fun p hp q hq => ?_,
    hturned.sameShape h' hcopy.requirements hrenames, fun horder => ?_⟩
  · have hp' := hturned.mem_requirements.2 (Store.requirement_mem_vertices.2 ⟨p, hp, rfl⟩)
    have hq' := hturned.mem_requirements.2 (Store.requirement_mem_vertices.2 ⟨q, hq, rfl⟩)
    rw [hrenames.mem_hierarchy_iff hp' hq', hturned.mirrors.hierarchy.mem_iff,
      h.mirrors.hierarchy.mem_iff]
    show _ ∈ c.store.turned.arrows ↔ _ ∈ c.store.arrows
    rw [Store.turned_arrows]
  · rw [Store.turned_lowerEnds horder] at hlower
    exact h.sameShape h' hcopy.requirements
      (h.mirrors.renames h'.mirrors hs.ends hdistinct hcopy.vertices_perm harrows hlower)

/-- What a run has stored keeps the shape of its hierarchy when its export is imported elsewhere, up to
the direction of links that are no containments: parents and children are the same, and roots and
depths are those that arise when every link is read from the end that is exported first. So they are
the same where links are stored that way already; for loose relations it makes no difference. -/
theorem importAll_exported_shape {ι : Type} (serial itemsPerPage : Nat) (ops : List (Operation ι))
    (serial' itemsPerPage' : Nat) :
    let c := (fresh serial itemsPerPage).run ops
    ∃ c' report f, (fresh serial' itemsPerPage').importAll c.exported = .ok (c', report) ∧
      report.failures = [] ∧ c.store.IsCopy f c'.store ∧
      (∀ p ∈ c.store.requirements, ∀ q ∈ c.store.requirements,
        (f p.id, f q.id) ∈ c'.index.hierarchy ↔ (p.id, q.id) ∈ c.index.hierarchy) ∧
      SameShape f (ofStore c.store.turned c.itemsPerPage) c' ∧
      ((∀ l ∈ c.store.links, l.relation ≠ .related → c.store.InOrder l) → SameShape f c c') :=
  Consistent.exists_imported ((consistent_fresh serial itemsPerPage).run ops) serial' itemsPerPage'

/-- Three requirements in the order of their names. -/
def threeRequirements : List (Operation Unit) :=
  [.putRequirement ⟨(), none, "Access", "", .empty⟩,
    .putRequirement ⟨(), none, "Entry", "", .empty⟩,
    .putRequirement ⟨(), none, "Login", "", .empty⟩]

/-- Three requirements, the first of which is the same as the second one and contains the third one. -/
def linkedInOrder : List (Operation Unit) :=
  threeRequirements ++
    [.linkRequirements (.ofSerial 0) (.ofSerial 1) .same,
      .linkRequirements (.ofSerial 0) (.ofSerial 2) .contains,
      .linkRequirements (.ofSerial 2) (.ofSerial 1) .related]

/-- The same links, the first one stored from its other end. -/
def linkedBackwards : List (Operation Unit) :=
  threeRequirements ++
    [.linkRequirements (.ofSerial 1) (.ofSerial 0) .same,
      .linkRequirements (.ofSerial 0) (.ofSerial 2) .contains]

theorem vertices_threeRequirements {c : Catalog}
    (h : c.store.requirements = ((fresh 0 20).run threeRequirements).store.requirements)
    (hnodes : c.store.nodes = []) : c.store.vertices =
      [.requirement (.ofSerial 0), .requirement (.ofSerial 1), .requirement (.ofSerial 2)] := by
  rw [Store.vertices_of_sorted (h ▸ by decide +kernel) hnodes, h]
  decide +kernel

/-- Links that are stored in order bring the hierarchy over as it is, loose ones in whatever
direction. -/
theorem importAll_exported_shape_linkedInOrder :
    let c := (fresh 0 20).run linkedInOrder
    (∀ l ∈ c.store.links, l.relation ≠ .related → c.store.InOrder l) ∧
      ∃ c' report f, (fresh 7 10).importAll c.exported = .ok (c', report) ∧ SameShape f c c' := by
  intro c
  have horder : ∀ l ∈ c.store.links, l.relation ≠ .related → c.store.InOrder l := by
    have hlinks : c.store.links =
        [⟨.ofSerial 3, .internal, .ofSerial 0, .ofSerial 1, .same, .plain⟩,
          ⟨.ofSerial 4, .internal, .ofSerial 0, .ofSerial 2, .contains, .plain⟩,
          ⟨.ofSerial 5, .internal, .ofSerial 2, .ofSerial 1, .related, .plain⟩] := by decide +kernel
    have hvertices : c.store.vertices = _ :=
      vertices_threeRequirements (by decide +kernel) (by decide +kernel)
    unfold Store.InOrder Store.LeadsOnward
    rw [hlinks, hvertices]
    decide +kernel
  obtain ⟨c', report, f, himport, -, -, -, -, hshape⟩ :=
    importAll_exported_shape 0 20 linkedInOrder 7 10
  exact ⟨horder, c', report, f, himport, hshape horder⟩

/-- A link that has been stored from the end that is exported later is turned by the import, and with
it the hierarchy gets another root and another depth. -/
theorem importAll_exported_linkedBackwards :
    let c := (fresh 0 20).run linkedBackwards
    ∃ c' report f, (fresh 0 20).importAll c.exported = .ok (c', report) ∧
      c.store.IsCopy f c'.store ∧
      c.rootRequirements.map Document.name = ["Entry"] ∧
      c'.rootRequirements.map Document.name = ["Access"] ∧
      ∃ r ∈ c.store.requirements, r.name = "Login" ∧ c.index.depth r.id = 0 ∧
        c'.index.depth (f r.id) = 1 := by
  intro c
  have h : c.Consistent := (consistent_fresh 0 20).run linkedBackwards
  obtain ⟨c', report, f, himport, -, hcopy, -, hshape, -⟩ := h.exists_imported 0 20
  obtain ⟨l, k, hlinks, hl, hk⟩ : ∃ l k : StoredLink, c.store.links = [l, k] ∧
      l = ⟨.ofSerial 3, .internal, .ofSerial 1, .ofSerial 0, .same, .plain⟩ ∧
      k = ⟨.ofSerial 4, .internal, .ofSerial 0, .ofSerial 2, .contains, .plain⟩ :=
    ⟨_, _, by decide +kernel, rfl, rfl⟩
  have hvertices : c.store.vertices =
      [.requirement (.ofSerial 0), .requirement (.ofSerial 1), .requirement (.ofSerial 2)] :=
    vertices_threeRequirements (by decide +kernel) (by decide +kernel)
  have hlater : ¬ c.store.InOrder l := by
    rw [Store.not_inOrder_iff, Store.LeadsOnward, hvertices, hl]
    decide +kernel
  have hkept : c.store.InOrder k := by
    rw [hk]
    exact fun _ hflat => by cases hflat
  have hturned : (ofStore c.store.turned c.itemsPerPage).index =
      Index.build [.requirement (.ofSerial 0), .requirement (.ofSerial 1),
        .requirement (.ofSerial 2)] [l.reversed, k] := by
    show Index.build c.store.vertices (c.store.links.map c.store.turn) = _
    rw [hvertices, hlinks, List.map_cons, List.map_singleton, Store.turn_of_not_inOrder hlater,
      Store.turn_of_inOrder hkept]
  rw [hl, hk] at hturned
  obtain ⟨r, hr, hname, hid⟩ : ∃ r ∈ c.store.requirements, r.name = "Login" ∧ r.id = .ofSerial 2 := by
    decide +kernel
  refine ⟨c', report, f, himport, hcopy, ?_, ?_, r, hr, hname, ?_, ?_⟩
  · exact names_of_single_root (by decide +kernel)
  · rw [hshape.names_eq]
    refine names_of_single_root ?_
    rw [unsortedRoots, hturned]
    decide +kernel
  · rw [hid]
    decide +kernel
  · rw [hshape.depths r hr, hturned, hid]
    decide +kernel

end Catalog

end Crosswalk
