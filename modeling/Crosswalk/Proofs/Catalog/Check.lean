import Crosswalk.Catalog.Export
import Crosswalk.Proofs.Index.Cycle
import Crosswalk.Proofs.Index.Edges
import Crosswalk.Proofs.Store.Rows

/-!
# What the check tells

The check counts vertices and edges and seeks an edge for every stored link, but never a link for an
edge. That is enough where no two stored links ask for one edge, since as many edges as links then
leave none over: a graph and a store that have come apart in any way are told from a graph that states
what is stored. The unique indexes of the link table see to this as far as links are spelt alike. A
link that stands there in two spellings asks for its edge twice, and the numbers tell nothing then.
-/

namespace Crosswalk

namespace StoredLink

/-- Links that ask for one edge, and whose ends are spelt alike, join the same ends in the table. -/
theorem not_apart_of_edge_eq {l m : StoredLink} (hedge : l.edge = m.edge)
    (hsource : l.key.source = m.key.source) (htarget : l.key.target = m.key.target) :
    ¬ l.key.Apart m.key := by
  have hkind : l.kind = m.kind := by
    have hvertex : l.targetVertex = m.targetVertex := congrArg Edge.target hedge
    unfold targetVertex at hvertex
    cases hl : l.kind <;> cases hm : m.kind <;> rw [hl, hm] at hvertex <;>
      first | rfl | cases hvertex
  rw [LinkKey.Apart, not_not, hsource, htarget]
  refine ⟨hkind, ?_⟩
  unfold LinkKind.joins
  cases m.key.kind <;> simp

theorem edge_eq_iff {l : StoredLink} {source target : Vertex} {relation : Relation} :
    l.edge = ⟨source, target, relation⟩ ↔
      l.sourceVertex = source ∧ l.targetVertex = target ∧ l.relation = relation := by
  rw [edge, Edge.mk.injEq]

end StoredLink

/-- Links that ask for one edge have their ends spelt alike. -/
def Store.SpeltAlike (s : Store) : Prop :=
  ∀ l ∈ s.links, ∀ m ∈ s.links, l.edge = m.edge →
    l.key.source = m.key.source ∧ l.key.target = m.key.target

theorem Store.SpeltAlike.edges_nodup {s : Store} (h : s.SpeltAlike)
    (hunique : LinkKey.Unique (s.links.map StoredLink.key)) :
    (s.links.map StoredLink.edge).Nodup := by
  refine List.pairwise_map.2 ((List.pairwise_map.1 hunique).imp_of_mem fun {l m} hl hm hlm hedge => ?_)
  obtain ⟨hsource, htarget⟩ := h l hl m hm hedge
  exact StoredLink.not_apart_of_edge_eq hedge hsource htarget hlm.2

/-- A cycle is reported exactly when there is one. -/
theorem Index.Coherent.findCycle_eq_none_iff {ix : Index} (h : ix.Coherent) :
    ix.findCycle = none ↔ Graph.Acyclic ix.hierarchy := by
  constructor
  · intro hnone
    cases hflag : ix.acyclic with
    | true => exact h.flag.1 hflag
    | false =>
      obtain ⟨ids, hfind, -⟩ := h.exists_findCycle hflag
      rw [hnone] at hfind
      cases hfind
  · exact fun hacyclic => Index.findCycle_eq_none (h.flag.2 hacyclic)

namespace Catalog

variable {c : Catalog} {l : StoredLink}

/-! ### Each part of the check -/

theorem linkProblems_eq_nil_iff : c.linkProblems l = [] ↔
    ((c.store.entity? l.sourceVertex).isSome = true ∧
      (c.store.entity? l.targetVertex).isSome = true) ∧ l.edge ∈ c.index.edges := by
  rw [linkProblems, List.append_eq_nil_iff, ← Option.not_isSome, ← Option.not_isSome]
  refine and_congr ?_ ?_
  · cases (c.store.entity? l.sourceVertex).isSome <;>
      cases (c.store.entity? l.targetVertex).isSome <;> simp
  · by_cases hedge : l.edge ∈ c.index.edges <;> simp [hedge]

/-- Nothing is wrong when the numbers agree, nothing is wrong with a link and no cycle is found. -/
theorem check_eq_nil_iff_parts : c.check = [] ↔
    c.index.vertices.length = c.store.requirements.length + c.store.nodes.length ∧
      c.index.edges.length = c.store.links.length ∧
      (∀ l ∈ c.store.links, c.linkProblems l = []) ∧ c.index.findCycle = none := by
  have hcycle : (c.index.findCycle.map Problem.cycle).toList = [] ↔ c.index.findCycle = none := by
    cases c.index.findCycle <;> simp
  unfold check Store.counts Index.size
  dsimp only
  rw [List.append_eq_nil_iff, List.append_eq_nil_iff, List.append_eq_nil_iff, hcycle,
    List.flatMap_eq_nil_iff, and_assoc, and_assoc]
  refine and_congr ?_ (and_congr_left fun _ => ?_)
  · split <;> simp_all
  · split <;> simp_all

/-! ### As many edges as links -/

/-- As many edges as links, and an edge for every link: then there are no other edges. -/
theorem edges_perm_iff (h : (c.store.links.map StoredLink.edge).Nodup) :
    c.index.edges.length = c.store.links.length ∧ (∀ l ∈ c.store.links, l.edge ∈ c.index.edges) ↔
      c.index.edges.Perm (c.store.links.map StoredLink.edge) := by
  constructor
  · rintro ⟨hlength, hedges⟩
    have hsub : c.store.links.map StoredLink.edge ⊆ c.index.edges := by
      intro e he
      obtain ⟨l, hl, rfl⟩ := List.mem_map.1 he
      exact hedges l hl
    have hsubperm : (c.store.links.map StoredLink.edge).Subperm c.index.edges :=
      List.subperm_of_subset h hsub
    exact (hsubperm.perm_of_length_le (by rw [hlength, List.length_map])).symm
  · intro hperm
    refine ⟨by rw [hperm.length_eq, List.length_map], fun l hl => ?_⟩
    exact hperm.mem_iff.2 (List.mem_map_of_mem hl)

/-- Edges that occur once are those of some links when they are the same triples. -/
theorem edges_perm_iff_forall (h : (c.store.links.map StoredLink.edge).Nodup)
    (hedges : c.index.EdgesOnce) :
    c.index.edges.Perm (c.store.links.map StoredLink.edge) ↔
      ∀ source target relation, ⟨source, target, relation⟩ ∈ c.index.edges ↔
        ∃ l ∈ c.store.links,
          l.sourceVertex = source ∧ l.targetVertex = target ∧ l.relation = relation := by
  rw [List.perm_ext_iff_of_nodup hedges.of_map h]
  simp only [List.mem_map, ← StoredLink.edge_eq_iff]
  exact ⟨fun hall source target relation => hall _, fun hall e => hall e.source e.target e.relation⟩

/-! ### The whole check -/

/-- Whatever a store holds, as long as its link table keeps to the unique indexes and states no link
in two spellings, and however a graph has been changed: the check finds nothing wrong exactly if the
edges of the graph are the stored links, both ends of every link are stored, there are as many
vertices as entities and the hierarchy of the graph has no cycle. -/
theorem check_eq_nil_iff {s s' : Store} {table : List LinkRow}
    (hunique : LinkKey.Unique (table.map LinkRow.key)) (hread : s.withTable table = .ok s')
    (hspelt : s'.SpeltAlike) (changes : List Index.Change) (itemsPerPage : Nat) :
    let ix := Index.evolve changes
    (Catalog.mk s' ix itemsPerPage).check = [] ↔
      (∀ source target relation, ⟨source, target, relation⟩ ∈ ix.edges ↔
        ∃ l ∈ s'.links,
          l.sourceVertex = source ∧ l.targetVertex = target ∧ l.relation = relation) ∧
      (∀ l ∈ s'.links, (s'.entity? l.sourceVertex).isSome = true ∧
        (s'.entity? l.targetVertex).isSome = true) ∧
      ix.vertices.length = s'.requirements.length + s'.nodes.length ∧
      Graph.Acyclic ix.hierarchy := by
  intro ix
  have hnodup : (s'.links.map StoredLink.edge).Nodup :=
    hspelt.edges_nodup (Store.unique_withTable hunique hread)
  have hedges := edges_perm_iff (c := ⟨s', ix, itemsPerPage⟩) hnodup
  rw [edges_perm_iff_forall hnodup (Index.edgesOnce_evolve changes)] at hedges
  have hcycle : ix.findCycle = none ↔ Graph.Acyclic ix.hierarchy :=
    (Index.coherent_evolve changes).findCycle_eq_none_iff
  rw [check_eq_nil_iff_parts, hcycle, ← hedges]
  simp only [linkProblems_eq_nil_iff]
  constructor
  · rintro ⟨hvertices, hlength, hlinks, hacyclic⟩
    exact ⟨⟨hlength, fun l hl => (hlinks l hl).2⟩, fun l hl => (hlinks l hl).1, hvertices, hacyclic⟩
  · rintro ⟨⟨hlength, hfound⟩, hends, hvertices, hacyclic⟩
    exact ⟨hvertices, hlength, fun l hl => ⟨hends l hl, hfound l hl⟩, hacyclic⟩

/-- Two requirements. -/
def twoEntities : Store :=
  ⟨[⟨⟨10⟩, none, "Access", "", .empty⟩, ⟨⟨11⟩, none, "Login", "", .empty⟩], [], [], 0⟩

/-- A row by which the first requirement contains the second one. -/
def containing : LinkRow :=
  ⟨(StoredId.mk 20).text, .internal, (StoredId.mk 10).text, (StoredId.mk 11).text, "Contains"⟩

/-- A graph in which the two requirements have changed places. -/
def turnedOver : List Index.Change :=
  [.addEdge ⟨⟨20⟩, .internal, ⟨11⟩, ⟨10⟩, .contains, .plain⟩]

/-- A graph in which they have changed places and back again. -/
def turnedBack : List Index.Change :=
  turnedOver ++ [.removeEdge ⟨⟨20⟩, .internal, ⟨11⟩, ⟨10⟩, .contains, .plain⟩,
    .addEdge ⟨⟨20⟩, .internal, ⟨10⟩, ⟨11⟩, .contains, .plain⟩]

/-- With the right numbers of vertices and edges the edge in the wrong direction does not pass, and
the one in the right direction does. -/
theorem check_eq_nil_iff_turned :
    let s := { twoEntities with links := [⟨⟨20⟩, .internal, ⟨10⟩, ⟨11⟩, .contains, .plain⟩] }
    LinkKey.Unique ([containing].map LinkRow.key) ∧ twoEntities.withTable [containing] = .ok s ∧
      s.SpeltAlike ∧ (Catalog.mk s (Index.evolve turnedOver) 20).check ≠ [] ∧
      (Catalog.mk s (Index.evolve turnedBack) 20).check = [] := by
  intro s
  have hunique : LinkKey.Unique ([containing].map LinkRow.key) := List.pairwise_singleton _ _
  have hread : twoEntities.withTable [containing] = .ok s := rfl
  have hspelt : s.SpeltAlike := by
    intro l hl m hm _
    rw [List.mem_singleton.1 hl, List.mem_singleton.1 hm]
    exact ⟨rfl, rfl⟩
  refine ⟨hunique, hread, hspelt, fun hcheck => ?_,
    (check_eq_nil_iff hunique hread hspelt turnedBack 20).2 ⟨?_, ?_, ?_, ?_⟩⟩
  · have hedge := ((check_eq_nil_iff hunique hread hspelt turnedOver 20).1 hcheck).1
      (.requirement ⟨10⟩) (.requirement ⟨11⟩) .contains
    exact absurd (hedge.2 ⟨_, List.mem_singleton_self _, rfl, rfl, rfl⟩) (by decide +kernel)
  · have hedges : (Index.evolve turnedBack).edges = s.links.map StoredLink.edge := by decide +kernel
    intro source target relation
    rw [hedges, List.mem_map]
    simp only [StoredLink.edge_eq_iff]
  · decide +kernel
  · decide +kernel
  · exact (Index.coherent_evolve turnedBack).flag.1 (by decide +kernel)

/-- Four requirements. -/
def fourEntities : Store :=
  ⟨[⟨⟨10⟩, none, "Access", "", .empty⟩, ⟨⟨11⟩, none, "Login", "", .empty⟩,
    ⟨⟨12⟩, none, "Session", "", .empty⟩, ⟨⟨13⟩, none, "Token", "", .empty⟩], [], [], 0⟩

/-- The first requirement contains the second one, and in the second row it does so once more, with the
identity of the second one in upper case. -/
def twice : List LinkRow :=
  [containing, { containing with
    id := (StoredId.mk 21).text
    target := "00000000-0000-0000-0000-00000000000B" }]

/-- What is read from these rows. -/
def twiceLinks : List StoredLink :=
  [⟨⟨20⟩, .internal, ⟨10⟩, ⟨11⟩, .contains, .plain⟩,
    ⟨⟨21⟩, .internal, ⟨10⟩, ⟨11⟩, .contains,
      { LinkSpelling.plain with target := .other "00000000-0000-0000-0000-00000000000B" }⟩]

/-- A graph with an edge that is not stored. -/
def strayed : List Index.Change :=
  twiceLinks.map .addEdge ++ [.addEdge ⟨⟨22⟩, .internal, ⟨12⟩, ⟨13⟩, .related, .plain⟩]

/-- The graph as it is built. -/
def reflected : List Index.Change :=
  fourEntities.requirements.map (fun r => .addVertex (.requirement r.id)) ++
    twiceLinks.map .addEdge

/-- A link in two spellings keeps to the unique indexes and misleads the check both ways: it hides an
edge that is not stored, and the graph that states what is stored does not pass. -/
theorem exists_check_misled :
    let s := { fourEntities with links := twiceLinks }
    LinkKey.Unique (twice.map LinkRow.key) ∧ fourEntities.withTable twice = .ok s ∧
      ((Catalog.mk s (Index.evolve strayed) 20).check = [] ∧
        ⟨.requirement ⟨12⟩, .requirement ⟨13⟩, .related⟩ ∈ (Index.evolve strayed).edges ∧
        ∀ l ∈ s.links, l.relation ≠ .related) ∧
      (Catalog.mk s (Index.evolve reflected) 20).check ≠ [] ∧
      (∀ source target relation, ⟨source, target, relation⟩ ∈ (Index.evolve reflected).edges ↔
        ∃ l ∈ s.links,
          l.sourceVertex = source ∧ l.targetVertex = target ∧ l.relation = relation) ∧
      (∀ l ∈ s.links, (s.entity? l.sourceVertex).isSome = true ∧
        (s.entity? l.targetVertex).isSome = true) ∧
      (Index.evolve reflected).vertices.length = s.requirements.length + s.nodes.length ∧
      Graph.Acyclic (Index.evolve reflected).hierarchy := by
  intro s
  have hedges : ∀ e, e ∈ (Index.evolve reflected).edges ↔ e ∈ s.links.map StoredLink.edge := by
    have hleft : (Index.evolve reflected).edges =
        [⟨.requirement ⟨10⟩, .requirement ⟨11⟩, .contains⟩] := by decide +kernel
    have hright : s.links.map StoredLink.edge =
        [⟨.requirement ⟨10⟩, .requirement ⟨11⟩, .contains⟩,
          ⟨.requirement ⟨10⟩, .requirement ⟨11⟩, .contains⟩] := rfl
    intro e
    simp only [hleft, hright, List.mem_cons, List.not_mem_nil, or_false, or_self]
  refine ⟨by decide +kernel, rfl, ⟨by decide +kernel, by decide +kernel, by decide +kernel⟩,
    by decide +kernel, fun source target relation => ?_, by decide +kernel, by decide +kernel,
    (Index.coherent_evolve reflected).flag.1 (by decide +kernel)⟩
  rw [hedges, List.mem_map]
  simp only [StoredLink.edge_eq_iff]

end Catalog

end Crosswalk
