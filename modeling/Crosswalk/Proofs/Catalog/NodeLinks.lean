import Crosswalk.Proofs.Catalog.Linking
import Crosswalk.Proofs.Catalog.Roots
import Crosswalk.Proofs.Index.Frame

/-!
# Links to nodes and the hierarchy

Linking a requirement to a node leaves the hierarchy as it is, and with it which links would close a
cycle. The roots are another matter: a requirement that is a part of a node counts as put below
something, and so does not count as a root. The requirements at the top and all depths stay the same
exactly if the link makes its requirement a part of the node no more and no less than it was before,
or the requirement is put below something by another link anyway.
-/

namespace Crosswalk.Catalog

variable {ι : Type} {c c' : Catalog} {a b q : StoredId} {relation : Relation} {same : Bool}

/-- A link other than the one to a node puts a requirement below something. -/
def BelowBesides (s : Store) (a b q : StoredId) : Prop :=
  ∃ l ∈ s.otherLinks .external a b, Index.lowerEnd? l.edge = some (.requirement q)

/-- The link to a node puts the requirement that it leads from below it when it is a part. -/
theorem lowerEnd?_external {l : StoredLink} (hkind : l.kind = .external) :
    Index.lowerEnd? l.edge = some (.requirement q) ↔ q = l.source ∧ l.relation = .partOf := by
  obtain ⟨id, kind, source, target, relation, spelling⟩ := l
  obtain rfl : kind = .external := hkind
  cases relation <;>
    simp [Index.lowerEnd?, StoredLink.edge, StoredLink.sourceVertex, StoredLink.targetVertex,
      eq_comm]

theorem findLink?_external {s : Store} {l : StoredLink}
    (h : s.findLink? .external a b = some l) :
    l.kind = .external ∧ l.source = a ∧ l.target = b := by
  obtain ⟨-, hkind, hjoins⟩ := Store.findLink?_some h
  rw [StoredLink.joins, hkind] at hjoins
  simpa [hkind, LinkKind.joins] using hjoins

/-- What the requirement sees of the link to the node is the link as it is stored. -/
theorem mem_seenFrom_external {l : StoredLink}
    (h : l.kind = .external ∧ l.source = a ∧ l.target = b) :
    (.node b, relation) ∈ l.seenFrom (.requirement a) ↔ l.relation = relation := by
  obtain ⟨hkind, rfl, rfl⟩ := h
  simp [StoredLink.mem_seenFrom, StoredLink.sourceVertex, StoredLink.targetVertex, hkind]

namespace Consistent

/-- The roots, when the link between a requirement and a node is set apart. -/
theorem mem_roots_of_perm (h : c.Consistent) {link : Option StoredLink} {others : List StoredLink}
    (hlinks : c.store.links.Perm (link.toList ++ others))
    (hlink : ∀ l ∈ link, l.kind = .external ∧ l.source = a) :
    q ∈ c.index.roots ↔ q ∈ c.index.requirements ∧
      ¬ ((q = a ∧ ∃ l ∈ link, l.relation = .partOf) ∨
        ∃ l ∈ others, Index.lowerEnd? l.edge = some (.requirement q)) := by
  rw [Index.mem_roots_iff, h.mirrors.lowerEnds_perm.mem_iff, (hlinks.filterMap _).mem_iff,
    List.filterMap_append, List.mem_append, List.mem_filterMap, List.mem_filterMap]
  refine and_congr_right fun _ => not_congr (or_congr_left ?_)
  simp only [Option.mem_toList]
  constructor
  · rintro ⟨l, hl, hlower⟩
    obtain ⟨hkind, rfl⟩ := hlink l hl
    obtain ⟨rfl, hpart⟩ := (lowerEnd?_external hkind).1 hlower
    exact ⟨rfl, l, hl, hpart⟩
  · rintro ⟨rfl, l, hl, hpart⟩
    obtain ⟨hkind, hsource⟩ := hlink l hl
    exact ⟨l, hl, (lowerEnd?_external hkind).2 ⟨hsource.symm, hpart⟩⟩

/-- Before the link is settled. -/
theorem mem_roots_before (h : c.Consistent) (ha : .requirement a ∈ c.store.vertices)
    (hb : .node b ∈ c.store.vertices) :
    q ∈ c.index.roots ↔ q ∈ c.index.requirements ∧
      ¬ ((q = a ∧ (.node b, .partOf) ∈ c.store.seen (.requirement a)) ∨
        BelowBesides c.store a b q) := by
  obtain ⟨same, hjoins⟩ := h.joins_node ha hb .partOf
  have hpart : (.node b, .partOf) ∈ c.store.seen (.requirement a) ↔
      ∃ l ∈ c.store.findLink? .external a b, l.relation = .partOf := by
    rw [← hjoins.same_iff_seen h.sound.linksOnce, hjoins.same_iff]
    exact exists_congr fun l => and_congr_right fun hl =>
      mem_seenFrom_external (findLink?_external hl)
  rw [hpart]
  refine h.mem_roots_of_perm (Store.links_perm h.sound.linksOnce) fun l hl => ?_
  exact ⟨(findLink?_external hl).1, (findLink?_external hl).2.1⟩

theorem settle_sameHierarchy (h : c.Consistent) (ha : .requirement a ∈ c.store.vertices)
    (hb : .node b ∈ c.store.vertices) (relation : Relation) (same : Bool) :
    c.index.SameHierarchy (c.settle .external a b relation same).2.index := by
  have ha' : .requirement a ∈ c.index.vertices := h.mirrors.vertices.mem_iff.2 ha
  have hb' : .node b ∈ c.index.vertices := h.mirrors.vertices.mem_iff.2 hb
  unfold settle
  split
  · exact .refl _
  · rw [h.closingPath?_node ha hb]
    show c.index.SameHierarchy (c.index.replaceEdge (c.store.findLink? .external a b)
      (c.store.linkFor .external a b relation))
    unfold Index.replaceEdge
    cases hfind : c.store.findLink? .external a b with
    | none => exact .addEdge rfl ha' hb'
    | some old =>
      have hremove : c.index.SameHierarchy (c.index.removeEdge old) :=
        .removeEdge (Store.findLink?_some hfind).2.1
      refine hremove.trans (.addEdge rfl ?_ ?_)
      · rw [hremove.vertices]
        exact ha'
      · rw [hremove.vertices]
        exact hb'

theorem linkNode_eq (h : c.Consistent) (a b : StoredId) (relation : Relation) :
    c.linkNode a b relation = c.joinNode a b relation :=
  h.guarded _

/-- The same requirements are listed at the top, in the same order, when the roots are the same. -/
theorem rootEntities_eq_iff (h : c.Consistent) (h' : c'.Consistent)
    (hrequirements : c'.store.requirements = c.store.requirements)
    (hsame : c.index.SameHierarchy c'.index) :
    c'.rootRequirements.map Document.entity = c.rootRequirements.map Document.entity ↔
      c'.index.roots = c.index.roots := by
  constructor
  · intro heq
    refine hsame.roots_eq_iff.2 fun q => ?_
    have htop : ∀ r, c'.AtTop r ↔ c.AtTop r := fun r => by rw [AtTop, AtTop, heq]
    simp only [h.atTop_iff, h'.atTop_iff, hrequirements, and_congr_right_iff] at htop
    have hstored : q ∈ c.index.requirements → (q ∈ c'.index.roots ↔ q ∈ c.index.roots) := by
      intro hq
      obtain ⟨r, hr, rfl⟩ := h.exists_stored hq
      exact htop r hr
    refine ⟨fun hq => (hstored ?_).1 hq, fun hq => (hstored ?_).2 hq⟩
    · rw [← hsame.requirements_eq]
      exact c'.index.roots_subset_requirements hq
    · exact c.index.roots_subset_requirements hq
  · intro heq
    have hfound : c'.store.requirement? = c.store.requirement? := by
      funext id
      rw [Store.requirement?, Store.requirement?, hrequirements]
    rw [rootRequirements_eq, rootRequirements_eq, unsortedRoots, unsortedRoots, heq, hfound,
      List.map_map, List.map_map]
    rfl

end Consistent

namespace Joins

variable {result : Except Failure (LinkOutcome × Catalog)}
  (h : Joins c (.requirement a) (.node b) relation result .external a b relation same)
  (hc : c.Consistent) (ha : .requirement a ∈ c.store.vertices) (hb : .node b ∈ c.store.vertices)

include h hc ha hb

/-- Whatever is said about it, the link stands afterwards as wanted. -/
theorem links_settled :
    ∃ l, (l.kind = .external ∧ l.source = a ∧ l.relation = relation) ∧
      (c.settle .external a b relation same).2.store.links.Perm
        (l :: c.store.otherLinks .external a b) := by
  unfold settle
  cases same with
  | true =>
    obtain ⟨l, hfind, hseen⟩ := h.same_iff.1 rfl
    have hends := findLink?_external hfind
    have hrelation := (mem_seenFrom_external hends).1 hseen
    have hperm : c.store.links.Perm
        ((c.store.findLink? .external a b).toList ++ c.store.otherLinks .external a b) :=
      Store.links_perm hc.sound.linksOnce
    rw [hfind] at hperm
    exact ⟨l, ⟨hends.1, hends.2.1, hrelation⟩, hperm⟩
  | false =>
    rw [hc.closingPath?_node ha hb]
    exact ⟨c.store.linkFor .external a b relation, ⟨rfl, rfl, rfl⟩,
      Store.withLink_links_perm hc.sound.linksOnce⟩

/-- After the link is settled. -/
theorem mem_roots_settled :
    q ∈ (c.settle .external a b relation same).2.index.roots ↔ q ∈ c.index.requirements ∧
      ¬ ((q = a ∧ relation = .partOf) ∨ BelowBesides c.store a b q) := by
  obtain ⟨l, ⟨hkind, hsource, hrelation⟩, hsettled⟩ := h.links_settled hc ha hb
  have hlinks : (c.settle .external a b relation same).2.store.links.Perm
      ((some l).toList ++ c.store.otherLinks .external a b) := hsettled
  have hlink : ∀ m ∈ some l, m.kind = .external ∧ m.source = a := by
    intro m hm
    obtain rfl := Option.some.inj hm
    exact ⟨hkind, hsource⟩
  have hpart : (∃ m ∈ some l, m.relation = .partOf) ↔ relation = .partOf := by simp [hrelation]
  have hc' := hc.settle_consistent same (h.ends ha hb) h.no_part
  rw [hc'.mem_roots_of_perm hlinks hlink, hpart,
    (hc.settle_sameHierarchy ha hb relation same).requirements_eq]
  rfl

theorem root_other_iff (hq : q ≠ a) :
    q ∈ (c.settle .external a b relation same).2.index.roots ↔ q ∈ c.index.roots := by
  rw [h.mem_roots_settled hc ha hb, hc.mem_roots_before ha hb]
  simp [hq]

theorem roots_settled_iff :
    (c.settle .external a b relation same).2.index.roots = c.index.roots ↔
      (relation = .partOf ↔ (.node b, .partOf) ∈ c.store.seen (.requirement a)) ∨
        BelowBesides c.store a b a := by
  rw [(hc.settle_sameHierarchy ha hb relation same).roots_eq_iff]
  have hself : (a ∈ (c.settle .external a b relation same).2.index.roots ↔ a ∈ c.index.roots) ↔
      (relation = .partOf ↔ (.node b, .partOf) ∈ c.store.seen (.requirement a)) ∨
        BelowBesides c.store a b a := by
    rw [h.mem_roots_settled hc ha hb, hc.mem_roots_before ha hb]
    have hknown : a ∈ c.index.requirements := hc.mem_requirements.2 ha
    simp only [hknown, true_and]
    tauto
  rw [← hself]
  refine ⟨fun hall => hall a, fun ha' q => ?_⟩
  by_cases hq : q = a
  · rw [hq]
    exact ha'
  · exact h.root_other_iff hc ha hb hq

end Joins

/-- A stored requirement and a stored node can be linked by every relation at any point of a run.
This leaves as it is what would close a cycle, and which other requirements are at the top. The
whole top, and with it every depth, stays the same exactly if the requirement is a part of the node
afterwards just in case it was one before, or if another link puts it below something. -/
theorem run_linkNode (serial itemsPerPage : Nat) (ops : List (Operation ι))
    {r : Requirement StoredId} {n : Node StoredId} (relation : Relation) :
    let c := (fresh serial itemsPerPage).run ops
    r ∈ c.store.requirements → n ∈ c.store.nodes →
      ∃ outcome c', c.linkNode r.id n.id relation = .ok (outcome, c') ∧
        (∀ p q wanted, c'.index.introducesCycle p q wanted = c.index.introducesCycle p q wanted) ∧
        (∀ q, q ≠ r → (c'.AtTop q ↔ c.AtTop q)) ∧
        (c'.rootRequirements.map Document.entity = c.rootRequirements.map Document.entity ↔
          ((relation = .partOf ↔ (.node n.id, .partOf) ∈ c.store.seen (.requirement r.id)) ∨
            BelowBesides c.store r.id n.id r.id)) ∧
        (c'.rootRequirements.map Document.entity = c.rootRequirements.map Document.entity →
          ∀ q, c'.index.depth q = c.index.depth q) := by
  intro c hr hn
  have h : c.Consistent := (consistent_fresh serial itemsPerPage).run ops
  have ha : .requirement r.id ∈ c.store.vertices := Store.requirement_mem_vertices.2 ⟨r, hr, rfl⟩
  have hb : .node n.id ∈ c.store.vertices := Store.node_mem_vertices.2 ⟨n, hn, rfl⟩
  obtain ⟨same, hjoins⟩ := h.joins_node ha hb relation
  have h' := h.settle_consistent same (hjoins.ends ha hb) hjoins.no_part
  have hrequirements := (hjoins.effect h.sound.linksOnce).requirements
  have hsame := h.settle_sameHierarchy ha hb relation same
  have htop := h.rootEntities_eq_iff h' hrequirements hsame
  refine ⟨(c.settle .external r.id n.id relation same).1,
    (c.settle .external r.id n.id relation same).2,
    (h.linkNode_eq r.id n.id relation).trans hjoins.eq, hsame.introducesCycle_eq,
    fun q hq => ?_, htop.trans (hjoins.roots_settled_iff h ha hb), fun heq => ?_⟩
  · rw [h.atTop_iff, h'.atTop_iff, hrequirements]
    refine and_congr_right fun hstored => hjoins.root_other_iff h ha hb fun hid => hq ?_
    exact Keyed.eq_of_key h.sound.requirementIds_nodup hstored hr hid
  · exact hsame.depth_eq (htop.1 heq)

/-- A requirement above another one, and a node. -/
def housed : List (Operation Unit) :=
  [.putRequirement ⟨(), none, "Access", "", .empty⟩,
    .putRequirement ⟨(), none, "Login", "", .empty⟩,
    .putNode ⟨(), "First", "", .empty, .standard "1" "" "" ""⟩,
    .linkRequirements (.ofSerial 0) (.ofSerial 1) .contains]

/-- A cross reference from the root to the node leaves the top and the depth below it as it is. -/
theorem run_linkNode_housed :
    let c := (fresh 0 20).run housed
    ∃ r ∈ c.store.requirements, ∃ n ∈ c.store.nodes, ∃ outcome c',
      c.linkNode r.id n.id .linkedTo = .ok (outcome, c') ∧
        c'.rootRequirements.map Document.entity = c.rootRequirements.map Document.entity ∧
        c.index.depth (.ofSerial 1) = 1 ∧ c'.index.depth (.ofSerial 1) = 1 := by
  intro c
  have h : c.Consistent := (consistent_fresh 0 20).run housed
  obtain ⟨r, hr⟩ := Option.isSome_iff_exists.1
    (by decide +kernel : (c.store.requirement? (.ofSerial 0)).isSome = true)
  obtain ⟨n, hn⟩ := Option.isSome_iff_exists.1
    (by decide +kernel : (c.store.node? (.ofSerial 2)).isSome = true)
  obtain ⟨hr, hrid⟩ := h.sound.requirement?_iff.1 hr
  obtain ⟨hn, hnid⟩ := h.sound.node?_iff.1 hn
  obtain ⟨outcome, c', hlink, -, -, htop, hdepth⟩ := run_linkNode 0 20 housed .linkedTo hr hn
  have hnone : (.node n.id, .partOf) ∉ c.store.seen (.requirement r.id) := by
    rw [hrid, hnid]
    decide +kernel
  have hsame := htop.2 (.inl (iff_of_false (by decide) hnone))
  have hone : c.index.depth (.ofSerial 1) = 1 := by decide +kernel
  exact ⟨r, hr, n, hn, outcome, c', hlink, hsame, hone, (hdepth hsame _).trans hone⟩

theorem rootRequirements_eq_nil (h : c.index.roots = []) : c.rootRequirements = [] := by
  have hnone : c.unsortedRoots = [] := by
    rw [unsortedRoots, h]
    rfl
  rw [rootRequirements_eq, hnone, Store.sortRequirements, (Text.sortOn_perm _ _).eq_nil]
  rfl

/-- A root that is made a part of a node is no root any more, and what is below loses its depth. -/
theorem exists_root_lost :
    let c := (fresh 0 20).run housed
    ∃ outcome c', c.linkNode (.ofSerial 0) (.ofSerial 2) .partOf = .ok (outcome, c') ∧
      c.rootRequirements.map Document.name = ["Access"] ∧ c'.rootRequirements = [] ∧
      c.index.depth (.ofSerial 1) = 1 ∧ c'.index.depth (.ofSerial 1) = 0 := by
  intro c
  have h : c.Consistent := (consistent_fresh 0 20).run housed
  have ha : .requirement (.ofSerial 0) ∈ c.store.vertices :=
    Store.isSome_requirement?.1 (by decide +kernel)
  have hb : .node (.ofSerial 2) ∈ c.store.vertices := Store.isSome_node?.1 (by decide +kernel)
  have hlink := (h.linkNode_eq (.ofSerial 0) (.ofSerial 2) .partOf).trans (h.joinNode_eq ha hb)
  refine ⟨_, _, hlink, names_of_single_root ?_, rootRequirements_eq_nil ?_, ?_, ?_⟩ <;>
    decide +kernel

end Crosswalk.Catalog
