import Crosswalk.Proofs.Index.Layers

/-!
# Changes outside the hierarchy

A link to a node comes and goes without an arrow. What the graph answers from its hierarchy alone is
the same then: whether a relation would close a cycle, which path is shortest and, unless the roots
change, how deep a requirement lies. The roots are read off the edges, and so they may change.
-/

namespace Crosswalk.Index

/-- Two graphs that differ at most in their edges. -/
structure SameHierarchy (ix ix' : Index) : Prop where
  vertices : ix'.vertices = ix.vertices
  hierarchy : ix'.hierarchy = ix.hierarchy
  incidence : ix'.incidence = ix.incidence
  acyclic : ix'.acyclic = ix.acyclic

namespace SameHierarchy

variable {ix ix' ix'' : Index} {l : StoredLink}

theorem refl (ix : Index) : SameHierarchy ix ix :=
  ⟨rfl, rfl, rfl, rfl⟩

theorem trans (h : SameHierarchy ix ix') (h' : SameHierarchy ix' ix'') : SameHierarchy ix ix'' where
  vertices := h'.vertices.trans h.vertices
  hierarchy := h'.hierarchy.trans h.hierarchy
  incidence := h'.incidence.trans h.incidence
  acyclic := h'.acyclic.trans h.acyclic

/-! ### Links to nodes -/

theorem removeEdge (hkind : l.kind = .external) : SameHierarchy ix (ix.removeEdge l) := by
  unfold Index.removeEdge
  rw [hkind]
  exact ⟨rfl, rfl, rfl, rfl⟩

theorem addEdge (hkind : l.kind = .external) (hs : l.sourceVertex ∈ ix.vertices)
    (ht : l.targetVertex ∈ ix.vertices) : SameHierarchy ix (ix.addEdge l) := by
  have harrow : l.arrow? = none := by simp [StoredLink.arrow?, hkind]
  unfold Index.addEdge
  rw [addVertex_of_mem hs, addVertex_of_mem ht, harrow]
  exact ⟨rfl, rfl, rfl, rfl⟩

/-! ### What the graph answers -/

theorem requirements_eq (h : SameHierarchy ix ix') : ix'.requirements = ix.requirements := by
  rw [requirements, requirements, h.vertices]

theorem introducesCycle_eq (h : SameHierarchy ix ix') (a b : StoredId) (relation : Relation) :
    ix'.introducesCycle a b relation = ix.introducesCycle a b relation := by
  have hcycle : ix'.findCycle = ix.findCycle := by
    have hchildren : ix'.children = ix.children := by
      unfold children
      rw [h.incidence]
    unfold findCycle strongComponents isCycle
    rw [h.acyclic, h.hierarchy, hchildren, h.requirements_eq]
  unfold introducesCycle closingPath?
  rw [hcycle, h.acyclic, h.hierarchy, h.requirements_eq]

theorem shortestPath?_eq (h : SameHierarchy ix ix') (a b : StoredId) :
    ix'.shortestPath? a b = ix.shortestPath? a b := by
  unfold Index.shortestPath?
  rw [h.hierarchy, h.requirements_eq]

theorem depth_eq (h : SameHierarchy ix ix') (hroots : ix'.roots = ix.roots) (a : StoredId) :
    ix'.depth a = ix.depth a := by
  unfold depth
  simp only [hroots, h.shortestPath?_eq]

/-- The roots are the same, in the same order, as soon as the same requirements are among them. -/
theorem roots_eq_iff (h : SameHierarchy ix ix') :
    ix'.roots = ix.roots ↔ ∀ a, a ∈ ix'.roots ↔ a ∈ ix.roots := by
  constructor
  · rintro heq a
    rw [heq]
  · intro hmem
    rw [roots_eq_filter, roots_eq_filter, h.requirements_eq]
    refine List.filter_congr fun a ha => ?_
    have hiff := hmem a
    rw [mem_roots_iff, mem_roots_iff, h.requirements_eq] at hiff
    rw [Bool.eq_iff_iff, Bool.not_eq_true', Bool.not_eq_true', ← Bool.not_eq_true,
      ← Bool.not_eq_true, List.contains_iff_mem, List.contains_iff_mem]
    exact ⟨fun hlower => (hiff.1 ⟨ha, hlower⟩).2, fun hlower => (hiff.2 ⟨ha, hlower⟩).2⟩

end SameHierarchy

end Crosswalk.Index
