import Crosswalk.Proofs.Index.Closing

/-!
# Connected vertices

Whether two vertices are connected is answered in two ways: by a search from one of them along edges
in both directions, and by labels that are joined edge by edge. The answers are the same at all times,
because every edge of a graph joins vertices of the graph, however it has been changed.
-/

namespace Crosswalk.Index

variable {ix : Index} {v w : Vertex}

/-! ### The ends of edges -/

/-- Every vertex is listed once, and every edge joins two of them. -/
structure Grounded (ix : Index) : Prop where
  nodup : ix.vertices.Nodup
  ends : ∀ e ∈ ix.edges, e.source ∈ ix.vertices ∧ e.target ∈ ix.vertices

theorem mem_of_mem_setEdge {e f : Edge} {es : List Edge} (h : f ∈ setEdge e es) : f = e ∨ f ∈ es := by
  induction es with
  | nil => exact .inl (List.mem_singleton.1 h)
  | cons x es ih =>
    rw [setEdge] at h
    split at h
    · exact (List.mem_cons.1 h).imp_right (List.mem_cons_of_mem x)
    · rcases List.mem_cons.1 h with rfl | h
      · exact .inr List.mem_cons_self
      · exact (ih h).imp_right (List.mem_cons_of_mem x)

theorem nodup_addVertex (h : ix.vertices.Nodup) (v : Vertex) : (ix.addVertex v).vertices.Nodup := by
  unfold addVertex
  split
  · exact h
  · rename_i hv
    exact List.nodup_append.2 ⟨h, List.nodup_singleton v, fun w hw u hu hwu =>
      hv (List.mem_singleton.1 hu ▸ hwu ▸ hw)⟩

theorem grounded_empty : empty.Grounded :=
  ⟨.nil, fun _ he => absurd he List.not_mem_nil⟩

namespace Grounded

theorem addVertex (h : ix.Grounded) (v : Vertex) : (ix.addVertex v).Grounded where
  nodup := nodup_addVertex h.nodup v
  ends := by
    intro e he
    rw [addVertex_edges] at he
    rw [mem_addVertex, mem_addVertex]
    exact (h.ends e he).imp .inl .inl

theorem addEdge (h : ix.Grounded) (l : StoredLink) : (ix.addEdge l).Grounded where
  nodup := by
    rw [vertices_addEdge]
    exact nodup_addVertex (nodup_addVertex h.nodup _) _
  ends := by
    intro e he
    rw [edges_addEdge] at he
    rw [mem_vertices_addEdge, mem_vertices_addEdge]
    rcases mem_of_mem_setEdge he with rfl | he
    · exact ⟨.inr (.inl rfl), .inr (.inr rfl)⟩
    · exact (h.ends e he).imp .inl .inl

theorem removeEdge (h : ix.Grounded) (l : StoredLink) : (ix.removeEdge l).Grounded where
  nodup := by
    rw [vertices_removeEdge]
    exact h.nodup
  ends := by
    intro e he
    rw [vertices_removeEdge]
    exact h.ends e (mem_edges_removeEdge.1 he).1

theorem change (h : ix.Grounded) (step : Change) : (ix.change step).Grounded := by
  cases step with
  | addVertex v => exact h.addVertex v
  | addEdge l => exact h.addEdge l
  | removeEdge l => exact h.removeEdge l

theorem foldl_change (h : ix.Grounded) (changes : List Change) :
    (changes.foldl Index.change ix).Grounded := by
  induction changes generalizing ix with
  | nil => exact h
  | cons step changes ih => exact ih (h.change step)

end Grounded

theorem grounded_evolve (changes : List Change) : (evolve changes).Grounded :=
  grounded_empty.foldl_change changes

theorem Mirrors.grounded {vs : List Vertex} {ls : List StoredLink} (h : ix.Mirrors vs ls)
    (hvs : vs.Nodup) (hends : ∀ l ∈ ls, l.sourceVertex ∈ vs ∧ l.targetVertex ∈ vs) :
    ix.Grounded where
  nodup := h.vertices.nodup_iff.2 hvs
  ends := by
    intro e he
    obtain ⟨l, hl, rfl⟩ := List.mem_map.1 (h.edges.mem_iff.1 he)
    rw [h.vertices.mem_iff, h.vertices.mem_iff]
    exact hends l hl

/-! ### The two answers -/

theorem arrow_joined : Graph.Arrow ix.joined = ix.Linked :=
  funext₂ fun _ _ => propext mem_joined

/-- The search finds what edges connect in both directions. -/
theorem hasPath_iff : ix.hasPath v w = true ↔
    v ∈ ix.vertices ∧ w ∈ ix.vertices ∧ Relation.ReflTransGen ix.Linked v w := by
  rw [hasPath, Bool.and_eq_true, Bool.and_eq_true, Graph.reaches_iff, arrow_joined, and_assoc]
  unfold contains
  rw [List.contains_iff_mem, List.contains_iff_mem]

/-- What edges connect to a vertex of the graph is a vertex of the graph. -/
theorem Grounded.mem_of_linked (h : ix.Grounded) (hv : v ∈ ix.vertices)
    (hvw : Relation.ReflTransGen ix.Linked v w) : w ∈ ix.vertices := by
  rcases Relation.ReflTransGen.cases_tail hvw with rfl | ⟨u, -, e, he, hends⟩
  · exact hv
  · rcases hends with ⟨-, rfl⟩ | ⟨rfl, -⟩
    · exact (h.ends e he).2
    · exact (h.ends e he).1

theorem componentLabels_vertices (ix : Index) : ix.componentLabels.map (·.1) = ix.vertices :=
  Graph.componentLabels_vertices _ _

/-- The labels of two vertices are the same exactly when the search finds a path between them. -/
theorem Grounded.sameLabel_iff (h : ix.Grounded) :
    Graph.SameLabel ix.componentLabels v w ↔ ix.hasPath v w = true := by
  rw [hasPath_iff, ← arrow_joined]
  refine Graph.sameLabel_componentLabels fun p hp => ?_
  obtain ⟨e, he, rfl⟩ := List.mem_map.1 hp
  exact h.ends e he

/-- However a graph has been changed, the labels are those of its vertices, each once, and a path
between two vertices is found exactly when both are labelled and their labels are equal. Being
connected is reflexive on the vertices, symmetric and transitive; it holds of a vertex and what the
edges, read in both directions, connect it to. -/
theorem hasPath_iff_label (changes : List Change) :
    let ix := evolve changes
    ix.componentLabels.map (·.1) = ix.vertices ∧ ix.vertices.Nodup ∧
      (∀ v w, ix.hasPath v w = true ↔
        ∃ label, ix.componentLabels.lookup v = some label ∧
          ix.componentLabels.lookup w = some label) ∧
      (∀ v, ix.hasPath v v = true ↔ v ∈ ix.vertices) ∧
      (∀ v w, ix.hasPath v w = true → ix.hasPath w v = true) ∧
      (∀ u v w, ix.hasPath u v = true → ix.hasPath v w = true → ix.hasPath u w = true) ∧
      ∀ v w, ix.hasPath v w = true ↔ v ∈ ix.vertices ∧ Relation.ReflTransGen ix.Linked v w := by
  have h := grounded_evolve changes
  generalize evolve changes = ix at h
  refine ⟨ix.componentLabels_vertices, h.nodup, fun v w => h.sameLabel_iff.symm, fun v => ?_,
    fun v w hvw => ?_, fun u v w huv hvw => ?_, fun v w => ?_⟩
  · rw [hasPath_iff]
    exact ⟨fun hv => hv.1, fun hv => ⟨hv, hv, .refl⟩⟩
  · exact h.sameLabel_iff.1 (h.sameLabel_iff.2 hvw).symm
  · obtain ⟨hu, -, huv⟩ := hasPath_iff.1 huv
    obtain ⟨-, hw, hvw⟩ := hasPath_iff.1 hvw
    exact hasPath_iff.2 ⟨hu, hw, huv.trans hvw⟩
  · rw [hasPath_iff]
    exact ⟨fun ⟨hv, _, hvw⟩ => ⟨hv, hvw⟩, fun ⟨hv, hvw⟩ => ⟨hv, h.mem_of_linked hv hvw, hvw⟩⟩

end Crosswalk.Index
