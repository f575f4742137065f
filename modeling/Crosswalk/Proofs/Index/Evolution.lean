import Crosswalk.Proofs.Index.Mirror

/-!
# Graphs that have been changed

A graph may be changed in any order by vertices and links that come and go, whatever the links are:
repeated, reversed or joining a vertex with itself. What holds of it at all times is less than that
it mirrors some links: the flag is exact, arrows join known requirements, and where an arrow leads, an
edge joins the same two requirements.
-/

namespace Crosswalk.Index

/-! ### What changes a graph -/

/-- A change of the graph. -/
inductive Change where
  | addVertex (v : Vertex)
  | addEdge (l : StoredLink)
  | removeEdge (l : StoredLink)

def change (ix : Index) : Change → Index
  | .addVertex v => ix.addVertex v
  | .addEdge l => ix.addEdge l
  | .removeEdge l => ix.removeEdge l

/-- The graph after some changes, from the empty one. -/
def evolve (changes : List Change) : Index :=
  changes.foldl change empty

/-- A graph that is built from vertices and links has been changed by adding them. -/
theorem build_eq_evolve (vertices : List Vertex) (links : List StoredLink) :
    build vertices links = evolve (vertices.map .addVertex ++ links.map .addEdge) := by
  rw [evolve, List.foldl_append, List.foldl_map, List.foldl_map]
  rfl

variable {ix : Index}

/-! ### Vertices -/

theorem mem_addVertex {v w : Vertex} : w ∈ (ix.addVertex v).vertices ↔ w ∈ ix.vertices ∨ w = v := by
  unfold addVertex
  split
  · rename_i hv
    exact ⟨.inl, fun h => h.elim id fun hw => hw ▸ hv⟩
  · exact List.mem_append.trans (or_congr_right List.mem_singleton)

theorem vertices_addEdge (l : StoredLink) :
    (ix.addEdge l).vertices =
      ((ix.addVertex l.sourceVertex).addVertex l.targetVertex).vertices := by
  unfold addEdge
  dsimp only
  split
  · exact addArrow_vertices ..
  · rfl

theorem mem_vertices_addEdge {l : StoredLink} {w : Vertex} :
    w ∈ (ix.addEdge l).vertices ↔
      w ∈ ix.vertices ∨ w = l.sourceVertex ∨ w = l.targetVertex := by
  rw [vertices_addEdge, mem_addVertex, mem_addVertex, or_assoc]

theorem vertices_removeEdge (l : StoredLink) : (ix.removeEdge l).vertices = ix.vertices := by
  unfold removeEdge
  dsimp only
  split <;> rfl

theorem mem_requirements_iff {a : StoredId} : a ∈ ix.requirements ↔ .requirement a ∈ ix.vertices := by
  rw [requirements, List.mem_filterMap]
  constructor
  · rintro ⟨v, hv, ha⟩
    cases v <;> cases ha
    exact hv
  · exact fun ha => ⟨_, ha, rfl⟩

/-! ### Arrows -/

theorem mem_hierarchy_addEdge {l : StoredLink} {p c : StoredId} :
    (p, c) ∈ (ix.addEdge l).hierarchy ↔ (p, c) ∈ ix.hierarchy ∨ l.arrow? = some (p, c) := by
  unfold addEdge
  dsimp only
  split
  · rename_i parent child harrow
    rw [addArrow_hierarchy]
    dsimp only
    rw [addVertex_hierarchy, addVertex_hierarchy, harrow, Option.some.injEq, Prod.mk.injEq]
    split
    · rename_i hmem
      refine ⟨.inl, fun h => h.elim id ?_⟩
      rintro ⟨rfl, rfl⟩
      exact hmem
    · rw [List.mem_append, List.mem_singleton, Prod.mk.injEq, eq_comm (a := p), eq_comm (a := c)]
  · rename_i hnone
    rw [hnone]
    show (p, c) ∈ ((ix.addVertex _).addVertex _).hierarchy ↔ _
    rw [addVertex_hierarchy, addVertex_hierarchy]
    simp

theorem mem_hierarchy_removeEdge {l : StoredLink} {p c : StoredId} :
    (p, c) ∈ (ix.removeEdge l).hierarchy ↔
      (p, c) ∈ ix.hierarchy ∧
        (l.kind = .internal → ¬ (p = l.source ∧ c = l.target) ∧ ¬ (p = l.target ∧ c = l.source)) := by
  unfold removeEdge
  dsimp only
  split
  · rename_i hkind
    rw [hkind]
    exact mem_dropArrows.trans (and_congr_right fun _ => ⟨fun h _ => h, fun h => h rfl⟩)
  · rename_i hkind
    rw [hkind]
    exact ⟨fun h => ⟨h, fun hk => by cases hk⟩, fun h => h.1⟩

/-! ### Edges -/

theorem mem_setEdge_self (e : Edge) (es : List Edge) : e ∈ setEdge e es := by
  induction es with
  | nil => exact List.mem_singleton_self e
  | cons f fs ih =>
    rw [setEdge]
    split
    · exact List.mem_cons_self
    · exact List.mem_cons_of_mem f ih

/-- An edge that gives way leaves its ends joined in the same direction. -/
theorem exists_mem_setEdge {e f : Edge} {es : List Edge} (h : f ∈ es) :
    ∃ g ∈ setEdge e es, g.source = f.source ∧ g.target = f.target := by
  induction es with
  | nil => exact absurd h List.not_mem_nil
  | cons x es ih =>
    rw [setEdge]
    rcases List.mem_cons.1 h with rfl | h
    · split
      · rename_i hends
        exact ⟨e, List.mem_cons_self, hends.1.symm, hends.2.symm⟩
      · exact ⟨f, List.mem_cons_self, rfl, rfl⟩
    · split
      · exact ⟨f, List.mem_cons_of_mem e h, rfl, rfl⟩
      · obtain ⟨g, hg, hends⟩ := ih h
        exact ⟨g, List.mem_cons_of_mem x hg, hends⟩

theorem edges_addEdge (l : StoredLink) : (ix.addEdge l).edges = setEdge l.edge ix.edges := by
  unfold addEdge
  dsimp only
  split
  · rw [addArrow_edges]
    dsimp only
    rw [addVertex_edges, addVertex_edges]
  · dsimp only
    rw [addVertex_edges, addVertex_edges]

theorem mem_edges_removeEdge {l : StoredLink} {e : Edge} :
    e ∈ (ix.removeEdge l).edges ↔ e ∈ ix.edges ∧
      ¬ (e.source = l.sourceVertex ∧ e.target = l.targetVertex) ∧
        ¬ (e.source = l.targetVertex ∧ e.target = l.sourceVertex) := by
  have hedges : (ix.removeEdge l).edges = dropEdges l.sourceVertex l.targetVertex ix.edges := by
    unfold removeEdge
    dsimp only
    split <;> rfl
  rw [hedges, dropEdges, List.mem_filter, keeps_edge_iff]

/-- An edge joins two vertices, in either direction. -/
def Linked (ix : Index) (v w : Vertex) : Prop :=
  ∃ e ∈ ix.edges, (e.source = v ∧ e.target = w) ∨ (e.source = w ∧ e.target = v)

theorem linked_addEdge_of_linked {l : StoredLink} {v w : Vertex} (h : ix.Linked v w) :
    (ix.addEdge l).Linked v w := by
  obtain ⟨e, he, hends⟩ := h
  obtain ⟨g, hg, hs, ht⟩ := exists_mem_setEdge (e := l.edge) he
  refine ⟨g, ?_, by rwa [hs, ht]⟩
  rw [edges_addEdge]
  exact hg

theorem linked_addEdge_self {l : StoredLink} {p c : StoredId} (h : l.arrow? = some (p, c)) :
    (ix.addEdge l).Linked (.requirement p) (.requirement c) := by
  refine ⟨l.edge, ?_, StoredLink.vertices_of_arrow? h⟩
  rw [edges_addEdge]
  exact mem_setEdge_self ..

/-! ### What holds at all times -/

/-- What holds of a graph however it has been changed. -/
structure Coherent (ix : Index) : Prop where
  flag : ix.FlagExact
  ends : ∀ p c, (p, c) ∈ ix.hierarchy → p ∈ ix.requirements ∧ c ∈ ix.requirements
  linked : ∀ p c, (p, c) ∈ ix.hierarchy → ix.Linked (.requirement p) (.requirement c)

theorem coherent_empty : empty.Coherent where
  flag := flagExact_empty
  ends := fun _ _ h => absurd h List.not_mem_nil
  linked := fun _ _ h => absurd h List.not_mem_nil

namespace Coherent

theorem addVertex (h : ix.Coherent) (v : Vertex) : (ix.addVertex v).Coherent where
  flag := h.flag.addVertex v
  ends := by
    intro p c hpc
    rw [addVertex_hierarchy] at hpc
    rw [mem_requirements_iff, mem_requirements_iff, mem_addVertex, mem_addVertex,
      ← mem_requirements_iff, ← mem_requirements_iff]
    exact (h.ends p c hpc).imp .inl .inl
  linked := by
    intro p c hpc
    rw [addVertex_hierarchy] at hpc
    unfold Linked
    rw [addVertex_edges]
    exact h.linked p c hpc

theorem addEdge (h : ix.Coherent) (l : StoredLink) : (ix.addEdge l).Coherent where
  flag := h.flag.addEdge l
  ends := by
    intro p c hpc
    rw [mem_requirements_iff, mem_requirements_iff, mem_vertices_addEdge, mem_vertices_addEdge,
      ← mem_requirements_iff, ← mem_requirements_iff]
    rcases mem_hierarchy_addEdge.1 hpc with hpc | harrow
    · exact (h.ends p c hpc).imp .inl .inl
    · rcases StoredLink.vertices_of_arrow? harrow with ⟨hs, ht⟩ | ⟨hs, ht⟩
      · exact ⟨.inr (.inl hs.symm), .inr (.inr ht.symm)⟩
      · exact ⟨.inr (.inr ht.symm), .inr (.inl hs.symm)⟩
  linked := by
    intro p c hpc
    rcases mem_hierarchy_addEdge.1 hpc with hpc | harrow
    · exact linked_addEdge_of_linked (h.linked p c hpc)
    · exact linked_addEdge_self harrow

theorem removeEdge (h : ix.Coherent) (l : StoredLink) : (ix.removeEdge l).Coherent where
  flag := h.flag.removeEdge l
  ends := by
    intro p c hpc
    rw [requirements, vertices_removeEdge]
    exact h.ends p c (mem_hierarchy_removeEdge.1 hpc).1
  linked := by
    intro p c hpc
    obtain ⟨hpc, hkept⟩ := mem_hierarchy_removeEdge.1 hpc
    obtain ⟨e, he, hends⟩ := h.linked p c hpc
    refine ⟨e, mem_edges_removeEdge.2 ⟨he, ?_⟩, hends⟩
    -- an edge between requirements goes only with an internal link between them
    cases hkind : l.kind with
    | external =>
      rw [StoredLink.targetVertex_of_external hkind]
      rcases hends with ⟨hs, ht⟩ | ⟨hs, ht⟩ <;> rw [hs, ht] <;> simp
    | internal =>
      have hs : l.sourceVertex = .requirement l.source := rfl
      have ht : l.targetVertex = .requirement l.target := StoredLink.targetVertex_of_internal hkind
      have hpair := hkept hkind
      rw [hs, ht]
      rcases hends with ⟨hs', ht'⟩ | ⟨hs', ht'⟩ <;> rw [hs', ht'] <;>
        simp only [Vertex.requirement.injEq]
      · exact hpair
      · exact ⟨fun hboth => hpair.2 hboth.symm, fun hboth => hpair.1 hboth.symm⟩

theorem replaceEdge (h : ix.Coherent) (old : Option StoredLink) (l : StoredLink) :
    (ix.replaceEdge old l).Coherent := by
  cases old with
  | none => exact h.addEdge l
  | some m => exact (h.removeEdge m).addEdge l

theorem change (h : ix.Coherent) (step : Change) : (ix.change step).Coherent := by
  cases step with
  | addVertex v => exact h.addVertex v
  | addEdge l => exact h.addEdge l
  | removeEdge l => exact h.removeEdge l

theorem foldl_change (h : ix.Coherent) (changes : List Change) :
    (changes.foldl Index.change ix).Coherent := by
  induction changes generalizing ix with
  | nil => exact h
  | cons step changes ih => exact ih (h.change step)

end Coherent

theorem coherent_evolve (changes : List Change) : (evolve changes).Coherent :=
  coherent_empty.foldl_change changes

/-! ### Graphs that keep up with links -/

/-- A graph keeps up with some links when its arrows are theirs. Unlike what it mirrors, these links may
lead to requirements that nothing is known of, and several of them may have one arrow. -/
structure Tracks (ix : Index) (ls : List StoredLink) : Prop where
  coherent : ix.Coherent
  arrows : ∀ p c, (p, c) ∈ ix.hierarchy ↔ ∃ l ∈ ls, l.arrow? = some (p, c)

namespace Tracks

variable {ls : List StoredLink} {l : StoredLink}

theorem congr (h : ix.Tracks ls) {ls' : List StoredLink} (hls : ls.Perm ls') : ix.Tracks ls' where
  coherent := h.coherent
  arrows := by
    intro p c
    simp only [h.arrows, hls.mem_iff]

theorem addVertex (h : ix.Tracks ls) (v : Vertex) : (ix.addVertex v).Tracks ls where
  coherent := h.coherent.addVertex v
  arrows := by
    rw [addVertex_hierarchy]
    exact h.arrows

theorem addEdge (h : ix.Tracks ls) (l : StoredLink) : (ix.addEdge l).Tracks (l :: ls) where
  coherent := h.coherent.addEdge l
  arrows := by
    intro p c
    rw [mem_hierarchy_addEdge, h.arrows, List.exists_mem_cons_iff, or_comm]

theorem removeEdge (h : ix.Tracks (l :: ls)) (hl : ∀ m ∈ ls, l.Apart m) :
    (ix.removeEdge l).Tracks ls where
  coherent := h.coherent.removeEdge l
  arrows := by
    intro p c
    rw [mem_hierarchy_removeEdge, h.arrows]
    constructor
    · rintro ⟨⟨m, hm, harrow⟩, hkept⟩
      rcases List.mem_cons.1 hm with rfl | hm
      · -- the arrow of the link that goes joins its ends
        obtain ⟨id, kind, source, target, relation⟩ := m
        cases kind <;> cases relation <;> cases harrow
        · exact absurd ⟨rfl, rfl⟩ (hkept rfl).2
        · exact absurd ⟨rfl, rfl⟩ (hkept rfl).1
      · exact ⟨m, hm, harrow⟩
    · rintro ⟨m, hm, harrow⟩
      refine ⟨⟨m, List.mem_cons_of_mem l hm, harrow⟩, fun hkind => ?_⟩
      have hends : l.sourceVertex = .requirement l.source ∧ l.targetVertex = .requirement l.target :=
        ⟨rfl, StoredLink.targetVertex_of_internal hkind⟩
      exact (hl m hm).arrow_ne hends harrow

theorem foldl_addEdge (h : ix.Tracks ls) (links : List StoredLink) :
    (links.foldl Index.addEdge ix).Tracks (ls ++ links) := by
  induction links generalizing ix ls with
  | nil =>
    rw [List.append_nil]
    exact h
  | cons l links ih => exact (ih (h.addEdge l)).congr List.perm_middle.symm

end Tracks

/-- A graph that is built keeps up with the links that it is built from, whatever they are. -/
theorem tracks_build (vertices : List Vertex) (links : List StoredLink) :
    (build vertices links).Tracks links := by
  have hvertices : (vertices.foldl addVertex empty).Tracks [] := by
    have hempty : empty.Tracks [] := ⟨coherent_empty, by simp [empty]⟩
    generalize empty = ix at hempty
    induction vertices generalizing ix with
    | nil => exact hempty
    | cons v vertices ih => exact ih _ (hempty.addVertex v)
  exact hvertices.foldl_addEdge links

end Crosswalk.Index
