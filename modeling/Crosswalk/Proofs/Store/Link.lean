import Crosswalk.Proofs.Store.LinkKey
import Crosswalk.Proofs.Store.Sound
import Crosswalk.Store.Put
import Mathlib.Data.List.Find

/-!
# Writing links into sound stores

In a sound store at most one link joins two entities. Writing a link between them replaces that link
in its place, or adds one with a fresh identity, and never fails when the entities are stored. The
store stays sound if the hierarchy of the other links stays acyclic with the new one.
-/

namespace Crosswalk

namespace StoredLink

theorem Apart.of_not_apart {l m k : StoredLink} (hlm : ¬ l.Apart m) (hmk : m.Apart k) :
    l.Apart k := by
  unfold Apart at *
  rw [not_and_or, not_not, not_not] at hlm
  rcases hlm with ⟨h₁, h₂⟩ | ⟨h₁, h₂⟩
  · rw [h₁, h₂]
    exact hmk
  · rw [h₁, h₂]
    exact ⟨fun h => hmk.2 ⟨h.2, h.1⟩, fun h => hmk.1 ⟨h.2, h.1⟩⟩

end StoredLink

namespace Store

variable {s : Store} {kind : LinkKind} {a b : StoredId} {relation : Relation}

/-- The link that is written between two entities. -/
def linkFor (s : Store) (kind : LinkKind) (a b : StoredId) (relation : Relation) : StoredLink :=
  ⟨((s.findLink? kind a b).map (·.id)).getD (.ofSerial s.drawn), kind, a, b, relation, .plain⟩

/-- The links between other entities. -/
def otherLinks (s : Store) (kind : LinkKind) (a b : StoredId) : List StoredLink :=
  s.links.filter fun m => !(m.kind = kind && m.joins a b)

/-- The store in which a link between two entities has been written. -/
def withLink (s : Store) (kind : LinkKind) (a b : StoredId) (relation : Relation) : Store :=
  match s.findLink? kind a b with
  | some _ => { s with links := Keyed.replace (·.id) (s.linkFor kind a b relation) s.links }
  | none => { s with links := s.links ++ [s.linkFor kind a b relation], drawn := s.drawn + 1 }

theorem linkFor_of_some {old : StoredLink} (h : s.findLink? kind a b = some old) :
    s.linkFor kind a b relation = ⟨old.id, kind, a, b, relation, .plain⟩ := by
  rw [linkFor, h]
  rfl

theorem linkFor_of_none (h : s.findLink? kind a b = none) :
    s.linkFor kind a b relation = ⟨.ofSerial s.drawn, kind, a, b, relation, .plain⟩ := by
  rw [linkFor, h]
  rfl

theorem withLink_requirements :
    (s.withLink kind a b relation).requirements = s.requirements := by
  unfold withLink
  split <;> rfl

theorem withLink_nodes : (s.withLink kind a b relation).nodes = s.nodes := by
  unfold withLink
  split <;> rfl

theorem withLink_vertices : (s.withLink kind a b relation).vertices = s.vertices := by
  simp only [vertices, allRequirements, allNodes, withLink_requirements, withLink_nodes]

/-! ### The link between two entities -/

theorem LinksOnce.link_eq_of_not_apart (hs : s.LinksOnce) {l m : StoredLink} (hl : l ∈ s.links)
    (hm : m ∈ s.links) (h : ¬ l.Apart m) : l = m :=
  by_contra fun hne => h (hs.apart.forall hl hm hne)

theorem findLink?_some {old : StoredLink} (h : s.findLink? kind a b = some old) :
    old ∈ s.links ∧ old.kind = kind ∧ old.joins a b = true := by
  have hjoins := List.find?_some h
  rw [Bool.and_eq_true, Bool.and_eq_true, decide_eq_true_eq] at hjoins
  exact ⟨List.mem_of_find?_eq_some h, hjoins.1⟩

/-- Where every row is in plain spelling, what joins two entities is found between them. -/
theorem LinksOnce.findLink?_none (hs : s.LinksOnce) (h : s.findLink? kind a b = none)
    {m : StoredLink} (hm : m ∈ s.links) : ¬ (m.kind = kind ∧ m.joins a b = true) := by
  have hnone := List.find?_eq_none.1 h m hm
  rw [Bool.and_eq_true, Bool.and_eq_true, decide_eq_true_eq, StoredLink.endsPlain,
    hs.plain m hm] at hnone
  exact fun hjoins => hnone ⟨hjoins, rfl⟩

theorem not_apart_of_findLink? {old : StoredLink} (h : s.findLink? kind a b = some old) :
    ¬ (s.linkFor kind a b relation).Apart old := by
  obtain ⟨-, hkind, hjoins⟩ := findLink?_some h
  exact StoredLink.joins_iff.1 ⟨hkind.symm, hjoins⟩

theorem LinksOnce.findLink?_eq (hs : s.LinksOnce) {l : StoredLink} (hl : l ∈ s.links)
    (h : ¬ (s.linkFor kind a b relation).Apart l) : s.findLink? kind a b = some l := by
  cases hfind : s.findLink? kind a b with
  | none =>
    obtain ⟨hkind, hjoins⟩ := StoredLink.joins_iff.2 h
    exact absurd ⟨hkind.symm, hjoins⟩ (hs.findLink?_none hfind hl)
  | some old =>
    have hnot : ¬ (s.linkFor kind a b relation).Apart old := not_apart_of_findLink? hfind
    have hapart : ¬ old.Apart l := fun hapart =>
      h (.of_not_apart hnot hapart)
    rw [hs.link_eq_of_not_apart (findLink?_some hfind).1 hl hapart]

theorem mem_otherLinks (relation : Relation) {m : StoredLink} :
    m ∈ s.otherLinks kind a b ↔ m ∈ s.links ∧ (s.linkFor kind a b relation).Apart m := by
  have hjoins : m.kind = kind ∧ m.joins a b = true ↔
      ¬ (s.linkFor kind a b relation).Apart m := by
    rw [← StoredLink.joins_iff, eq_comm]
    rfl
  rw [otherLinks, List.mem_filter, Bool.not_eq_true', ← Bool.not_eq_true, Bool.and_eq_true,
    decide_eq_true_eq, hjoins, not_not]

theorem otherLinks_sublist : (s.otherLinks kind a b).Sublist s.links :=
  List.filter_sublist

theorem LinksOnce.otherLinks_of_none (hs : s.LinksOnce) (h : s.findLink? kind a b = none) :
    s.otherLinks kind a b = s.links :=
  List.filter_eq_self.2 fun m hm => by
    rw [Bool.not_eq_true', ← Bool.not_eq_true, Bool.and_eq_true, decide_eq_true_eq]
    exact hs.findLink?_none h hm

theorem otherLinks_of_some (hs : s.LinksOnce) {old : StoredLink}
    (h : s.findLink? kind a b = some old) :
    s.otherLinks kind a b = Keyed.others (·.id) old s.links := by
  unfold otherLinks Keyed.others
  refine List.filter_congr fun m hm => ?_
  obtain ⟨hold, hkind, hjoins⟩ := findLink?_some h
  by_cases hid : m.id = old.id
  · have hm' : m = old := Keyed.eq_of_key hs.ids_nodup hm hold hid
    subst hm'
    simp [hkind, hjoins]
  · have hne : m ≠ old := fun heq => hid (heq ▸ rfl)
    have hapart : old.Apart m := hs.apart.forall hold hm hne.symm
    have hlink : (s.linkFor kind a b .same).Apart m :=
      .of_not_apart (not_apart_of_findLink? h) hapart
    have hother := (mem_otherLinks _).2 ⟨hm, hlink⟩
    rw [otherLinks, List.mem_filter] at hother
    rw [hother.2]
    simp [hid]

theorem withLink_links_of_none (h : s.findLink? kind a b = none) :
    (s.withLink kind a b relation).links = s.links ++ [s.linkFor kind a b relation] := by
  unfold withLink
  rw [h]

/-- A link that takes the place of another one stands where that stood. -/
theorem withLink_links_of_some (hs : s.LinksOnce) {old : StoredLink}
    (h : s.findLink? kind a b = some old) (relation : Relation) :
    ∃ before after, s.links = before ++ old :: after ∧
      (s.withLink kind a b relation).links = before ++ s.linkFor kind a b relation :: after := by
  obtain ⟨before, after, hlinks⟩ := List.append_of_mem (findLink?_some h).1
  have hid : old.id = (s.linkFor kind a b relation).id := by rw [linkFor_of_some h]
  refine ⟨before, after, hlinks, ?_⟩
  unfold withLink
  rw [h]
  have hnodup := hs.ids_nodup
  rw [hlinks] at hnodup
  show Keyed.replace (·.id) (s.linkFor kind a b relation) s.links = _
  rw [hlinks, Keyed.replace_middle hnodup hid]

theorem links_perm (hs : s.LinksOnce) :
    s.links.Perm ((s.findLink? kind a b).toList ++ s.otherLinks kind a b) := by
  cases h : s.findLink? kind a b with
  | none =>
    rw [hs.otherLinks_of_none h]
    exact .refl _
  | some old =>
    rw [otherLinks_of_some hs h]
    exact Keyed.perm_cons_others hs.ids_nodup (findLink?_some h).1

theorem withLink_links_perm (hs : s.LinksOnce) :
    (s.withLink kind a b relation).links.Perm
      (s.linkFor kind a b relation :: s.otherLinks kind a b) := by
  unfold withLink
  cases h : s.findLink? kind a b with
  | none =>
    rw [hs.otherLinks_of_none h]
    exact List.perm_append_singleton _ _
  | some old =>
    have hid : (s.linkFor kind a b relation).id = old.id := by rw [linkFor_of_some h]
    have hothers : Keyed.others (·.id) (s.linkFor kind a b relation) s.links =
        Keyed.others (·.id) old s.links := by
      simp only [Keyed.others, hid]
    have hperm := Keyed.replace_perm hs.ids_nodup (findLink?_some h).1 hid.symm
    rw [hothers, ← otherLinks_of_some hs h] at hperm
    exact hperm

/-- The arrows that do not lead between two requirements are those of the other links. -/
theorem mem_dropArrows {arrows : List (StoredId × StoredId)}
    (harrows : ∀ p c, (p, c) ∈ arrows ↔ ∃ l ∈ s.links, l.arrow? = some (p, c)) {p c : StoredId} :
    (p, c) ∈ Index.dropArrows a b arrows ↔
      ∃ m ∈ s.otherLinks .internal a b, m.arrow? = some (p, c) := by
  rw [Index.mem_dropArrows, harrows]
  constructor
  · rintro ⟨⟨m, hm, harrow⟩, hne⟩
    refine ⟨m, (mem_otherLinks .same).2 ⟨hm, ?_⟩, harrow⟩
    show ¬ (Vertex.requirement a = _ ∧ Vertex.requirement b = _) ∧
      ¬ (Vertex.requirement a = _ ∧ Vertex.requirement b = _)
    rcases StoredLink.vertices_of_arrow? harrow with ⟨hs, ht⟩ | ⟨hs, ht⟩ <;> rw [hs, ht] <;>
      simp only [Vertex.requirement.injEq] <;> tauto
  · rintro ⟨m, hm, harrow⟩
    obtain ⟨hm, hapart⟩ := (mem_otherLinks .same).1 hm
    exact ⟨⟨m, hm, harrow⟩, hapart.arrow_ne ⟨rfl, rfl⟩ harrow⟩

/-! ### What the store accepts -/

/-- A link whose identity is new and which joins what no other link joins is let in. -/
theorem linkFault?_eq_none {others : List StoredLink} {l : StoredLink} (hl : l.spelling = .plain)
    (hid : ∀ m ∈ others, m.id ≠ l.id) (hapart : ∀ m ∈ others, l.Apart m)
    (hsource : l.sourceVertex ∈ s.vertices) : s.linkFault? others l = none := by
  refine LinkKey.fault?_eq_none_iff.2 ⟨?_, ?_, ?_⟩
  · rw [List.forall_mem_map]
    exact fun m hm heq => hid m hm (congrArg SpeltId.id heq)
  · rw [List.forall_mem_map]
    exact fun m hm => (hapart m hm).key
  · rw [StoredLink.key, hl, LinkSpelling.plain, Bool.and_eq_true]
    exact ⟨rfl, isSome_requirement?.2 hsource⟩

theorem insertLink_linkFor (hs : s.Sound) (hnone : s.findLink? kind a b = none)
    (hsource : .requirement a ∈ s.vertices) :
    Store.insertLink { s with drawn := s.drawn + 1 } (s.linkFor kind a b relation) =
      .ok (s.withLink kind a b relation) := by
  have hid : (s.linkFor kind a b relation).id = .ofSerial s.drawn := by rw [linkFor_of_none hnone]
  have hfault : linkFault? { s with drawn := s.drawn + 1 } s.links
      (s.linkFor kind a b relation) = none := by
    refine linkFault?_eq_none rfl (fun m hm heq => ?_) (fun m hm => ?_) hsource
    · obtain ⟨n, hn, hserial⟩ := hs.drawn m.id (List.mem_append_right _ (List.mem_map_of_mem hm))
      have heq' := StoredId.ofSerial_inj ((hserial.symm.trans heq).trans hid)
      omega
    · rw [← hs.linksOnce.otherLinks_of_none hnone] at hm
      exact ((mem_otherLinks _).1 hm).2
  unfold Store.insertLink
  simp only [hfault, withLink, hnone]

/-- In plain spelling rows have one text exactly if they have one identity. -/
theorem LinksOnce.key_id_eq_iff (hs : s.LinksOnce) {m l : StoredLink} (hm : m ∈ s.links)
    (hl : l.spelling = .plain) : m.key.id = l.key.id ↔ m.id = l.id := by
  rw [StoredLink.key, StoredLink.key, hs.plain m hm, hl]
  exact SpeltId.plain_inj

/-- In plain spelling a row is updated by its identity. -/
theorem LinksOnce.updateLink_eq (hs : s.LinksOnce) {l : StoredLink} (hl : l.spelling = .plain) :
    s.updateLink l =
      match s.links.find? fun o => o.id = l.id with
      | none => .ok s
      | some old =>
        match s.linkFault? (Keyed.others (·.id) l s.links) { l with kind := old.kind } with
        | some fault => .error (.storage fault)
        | none =>
          .ok { s with links := Keyed.replace (·.id) { l with kind := old.kind } s.links } := by
  have hid : ∀ o ∈ s.links, o.key.id = l.key.id ↔ o.id = l.id := fun o ho =>
    hs.key_id_eq_iff ho hl
  have hfind : (s.links.find? fun o => o.key.id = l.key.id) =
      s.links.find? fun o => o.id = l.id :=
    List.find?_congr fun o ho => decide_eq_decide.2 (hid o ho)
  have hothers : (s.links.filter fun o => o.key.id ≠ l.key.id) = Keyed.others (·.id) l s.links :=
    List.filter_congr fun o ho => decide_eq_decide.2 (not_congr (hid o ho))
  have hreplace : ∀ x : StoredLink, x.id = l.id →
      (s.links.map fun o => if o.key.id = l.key.id then x else o) = Keyed.replace (·.id) x s.links :=
    fun x hx => List.map_congr_left fun o ho => if_congr ((hid o ho).trans (hx ▸ .rfl)) rfl rfl
  unfold updateLink
  rw [hfind]
  cases s.links.find? fun o => o.id = l.id with
  | none => rfl
  | some old =>
    dsimp only
    rw [← hothers, ← hreplace { l with kind := old.kind } rfl]
    rfl

theorem updateLink_linkFor (hs : s.Sound) {old : StoredLink}
    (hsome : s.findLink? kind a b = some old) (hsource : .requirement a ∈ s.vertices) :
    s.updateLink (s.linkFor kind a b relation) = .ok (s.withLink kind a b relation) := by
  obtain ⟨hold, hkind, -⟩ := findLink?_some hsome
  have hid : (s.linkFor kind a b relation).id = old.id := by rw [linkFor_of_some hsome]
  have hfind : s.links.find? (fun o => o.id = (s.linkFor kind a b relation).id) = some old :=
    (Keyed.find?_iff hs.linksOnce.ids_nodup).2 ⟨hold, hid.symm⟩
  have hsame : { s.linkFor kind a b relation with kind := old.kind } =
      s.linkFor kind a b relation := by
    rw [hkind]
    rfl
  have hfault : s.linkFault? (Keyed.others (·.id) (s.linkFor kind a b relation) s.links)
      (s.linkFor kind a b relation) = none := by
    refine linkFault?_eq_none rfl (fun m hm => ?_) (fun m hm => ?_) hsource
    · simpa using (List.mem_filter.1 hm).2
    · have hm' : m ∈ s.otherLinks kind a b := by
        rw [otherLinks_of_some hs.linksOnce hsome, Keyed.others, ← hid]
        exact hm
      exact ((mem_otherLinks _).1 hm').2
  rw [hs.linksOnce.updateLink_eq rfl, hfind]
  simp only [hsame, hfault, withLink, hsome]

/-! ### Links in order -/

theorem LinksOnce.congr {t : Store} (h : s.LinksOnce) (hlinks : t.links = s.links) :
    t.LinksOnce where
  ids_nodup := hlinks ▸ h.ids_nodup
  apart := hlinks ▸ h.apart
  plain := hlinks ▸ h.plain

/-- Writing a link keeps the links in order if a new one has a new identity. -/
theorem LinksOnce.withLink (h : s.LinksOnce)
    (hfresh : s.findLink? kind a b = none →
      ∀ m ∈ s.links, m.id ≠ (s.linkFor kind a b relation).id) :
    (s.withLink kind a b relation).LinksOnce where
  ids_nodup := by
    unfold Store.withLink
    cases hfind : s.findLink? kind a b with
    | some old =>
      show ((Keyed.replace (·.id) (s.linkFor kind a b relation) s.links).map (·.id)).Nodup
      rw [Keyed.map_replace fun _ _ hm => hm]
      exact h.ids_nodup
    | none => exact Keyed.nodup_concat h.ids_nodup (hfresh hfind)
  apart := by
    rw [(withLink_links_perm h).pairwise_iff StoredLink.Apart.symm, List.pairwise_cons]
    exact ⟨fun m hm => ((mem_otherLinks _).1 hm).2, h.apart.sublist otherLinks_sublist⟩
  plain := by
    intro m hm
    rcases List.mem_cons.1 ((withLink_links_perm h).mem_iff.1 hm) with rfl | hm
    · rfl
    · exact h.plain m (otherLinks_sublist.subset hm)

/-! ### Soundness -/

theorem withLink_ids :
    ((s.withLink kind a b relation).ids.Perm s.ids ∧
      (s.withLink kind a b relation).drawn = s.drawn) ∨
    ((s.withLink kind a b relation).ids.Perm (StoredId.ofSerial s.drawn :: s.ids) ∧
      (s.withLink kind a b relation).drawn = s.drawn + 1) := by
  unfold withLink
  cases h : s.findLink? kind a b with
  | some old =>
    refine .inl ⟨.of_eq ?_, rfl⟩
    have hreplace : (Keyed.replace (·.id) (s.linkFor kind a b relation) s.links).map (·.id) =
        s.links.map (·.id) := Keyed.map_replace fun _ _ hm => hm
    simp only [ids, hreplace]
  | none =>
    refine .inr ⟨?_, rfl⟩
    have hid : (s.linkFor kind a b relation).id = .ofSerial s.drawn := by rw [linkFor_of_none h]
    simp only [ids, List.map_append, List.map_cons, List.map_nil, hid]
    rw [← List.append_assoc]
    exact List.perm_append_singleton _ _

/-- Writing a link between stored entities, a part as contained, keeps a store sound if no cycle
arises. -/
theorem Sound.withLink (hs : s.Sound)
    (hends : (s.linkFor kind a b relation).sourceVertex ∈ s.vertices ∧
      (s.linkFor kind a b relation).targetVertex ∈ s.vertices)
    (hpart : kind = .internal → relation ≠ .partOf)
    (hacyclic : Graph.Acyclic ((s.linkFor kind a b relation :: s.otherLinks kind a b).filterMap
      StoredLink.arrow?)) : (s.withLink kind a b relation).Sound := by
  have hperm : (s.withLink kind a b relation).links.Perm
      (s.linkFor kind a b relation :: s.otherLinks kind a b) := withLink_links_perm hs.linksOnce
  have hdrawn : (∀ id ∈ (s.withLink kind a b relation).ids,
      ∃ n < (s.withLink kind a b relation).drawn, id = .ofSerial n) ∧
        (s.withLink kind a b relation).ids.Nodup := by
    rcases withLink_ids with ⟨hids, hsame⟩ | ⟨hids, hmore⟩
    · rw [hsame, hids.nodup_iff]
      exact ⟨fun id hid => hs.drawn id (hids.mem_iff.1 hid), hs.ids_nodup⟩
    · exact hs.draw hids hmore
  have honce : (s.withLink kind a b relation).LinksOnce :=
    hs.linksOnce.withLink fun hnone m hm heq => by
      have hid : m.id = .ofSerial s.drawn := by rw [heq, linkFor_of_none hnone]
      exact hs.fresh_not_mem (hid ▸ List.mem_append_right _ (List.mem_map_of_mem hm))
  exact {
    drawn := hdrawn.1
    ids_nodup := hdrawn.2
    names_nodup := by
      rw [names, withLink_requirements]
      exact hs.names_nodup
    keys_nodup := by
      rw [keys, withLink_nodes]
      exact hs.keys_nodup
    names_trimmed := by
      rw [names, withLink_requirements]
      exact hs.names_trimmed
    keys_trimmed := by
      rw [keys, withLink_nodes]
      exact hs.keys_trimmed
    ends := by
      intro l hl
      rw [withLink_vertices]
      rcases List.mem_cons.1 (hperm.mem_iff.1 hl) with rfl | hl
      · exact hends
      · exact hs.ends l (otherLinks_sublist.subset hl)
    apart := honce.apart
    plain := honce.plain
    no_parts := by
      intro l hl
      rcases List.mem_cons.1 (hperm.mem_iff.1 hl) with rfl | hl
      · exact hpart
      · exact hs.no_parts l (otherLinks_sublist.subset hl)
    acyclic := (Graph.Acyclic.congr (hperm.filterMap _)).2 hacyclic }

end Store

end Crosswalk
