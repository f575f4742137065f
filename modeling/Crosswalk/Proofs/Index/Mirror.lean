import Crosswalk.Index
import Crosswalk.Proofs.Graph.Reachability
import Mathlib.Data.List.Perm.Basic

/-!
# What the link graph mirrors

A graph mirrors some vertices and links when it has these vertices, the edges of these links and
the arrows of those that order the hierarchy, each once. Adding and removing a link keeps the
mirror, as long as no two links join the same two vertices. The flag is exact after every change,
whatever the links are.
-/

namespace Crosswalk

namespace StoredLink

/-- Two links that do not join the same two vertices, in either direction. -/
def Apart (l m : StoredLink) : Prop :=
  ¬ (l.sourceVertex = m.sourceVertex ∧ l.targetVertex = m.targetVertex) ∧
    ¬ (l.sourceVertex = m.targetVertex ∧ l.targetVertex = m.sourceVertex)

theorem Apart.symm {l m : StoredLink} (h : Apart l m) : Apart m l :=
  ⟨fun hm => h.1 ⟨hm.1.symm, hm.2.symm⟩, fun hm => h.2 ⟨hm.2.symm, hm.1.symm⟩⟩

theorem not_apart_self (l : StoredLink) : ¬ l.Apart l := fun h => h.1 ⟨rfl, rfl⟩

instance : Std.Symm Apart := ⟨fun _ _ h => h.symm⟩

theorem targetVertex_of_internal {l : StoredLink} (h : l.kind = .internal) :
    l.targetVertex = .requirement l.target := by
  rw [targetVertex, h]

theorem targetVertex_of_external {l : StoredLink} (h : l.kind = .external) :
    l.targetVertex = .node l.target := by
  rw [targetVertex, h]

theorem arrow?_eq_some {l : StoredLink} {p c : StoredId} :
    l.arrow? = some (p, c) ↔
      (l.relation = .contains ∧ l.sourceVertex = .requirement p ∧ l.targetVertex = .requirement c) ∨
      (l.relation = .partOf ∧ l.sourceVertex = .requirement c ∧ l.targetVertex = .requirement p) := by
  obtain ⟨id, kind, source, target, relation⟩ := l
  cases kind <;> cases relation <;> simp [arrow?, sourceVertex, targetVertex, and_comm]

theorem vertices_of_arrow? {l : StoredLink} {p c : StoredId} (h : l.arrow? = some (p, c)) :
    (l.sourceVertex = .requirement p ∧ l.targetVertex = .requirement c) ∨
      (l.sourceVertex = .requirement c ∧ l.targetVertex = .requirement p) := by
  rcases arrow?_eq_some.1 h with ⟨-, hends⟩ | ⟨-, hends⟩
  · exact .inl hends
  · exact .inr hends

theorem Apart.arrow_ne {l m : StoredLink} (h : Apart l m) {a b p c : StoredId}
    (hl : l.sourceVertex = .requirement a ∧ l.targetVertex = .requirement b)
    (hm : m.arrow? = some (p, c)) : ¬ (p = a ∧ c = b) ∧ ¬ (p = b ∧ c = a) := by
  unfold Apart at h
  rw [hl.1, hl.2] at h
  rcases vertices_of_arrow? hm with ⟨h₁, h₂⟩ | ⟨h₁, h₂⟩ <;> rw [h₁, h₂] at h
  · exact ⟨fun e => h.1 ⟨by rw [e.1], by rw [e.2]⟩, fun e => h.2 ⟨by rw [e.2], by rw [e.1]⟩⟩
  · exact ⟨fun e => h.2 ⟨by rw [e.1], by rw [e.2]⟩, fun e => h.1 ⟨by rw [e.2], by rw [e.1]⟩⟩

end StoredLink

namespace Index

/-! ### The flag -/

/-- The flag tells whether the hierarchy is free of cycles. -/
def FlagExact (ix : Index) : Prop :=
  ix.acyclic = true ↔ Graph.Acyclic ix.hierarchy

theorem flagExact_empty : empty.FlagExact :=
  ⟨fun _ => Graph.acyclic_nil, fun _ => rfl⟩

theorem addVertex_hierarchy (ix : Index) (v : Vertex) :
    (ix.addVertex v).hierarchy = ix.hierarchy := by
  unfold addVertex
  split <;> rfl

theorem addVertex_acyclic (ix : Index) (v : Vertex) : (ix.addVertex v).acyclic = ix.acyclic := by
  unfold addVertex
  split <;> rfl

theorem addVertex_edges (ix : Index) (v : Vertex) : (ix.addVertex v).edges = ix.edges := by
  unfold addVertex
  split <;> rfl

theorem FlagExact.addVertex {ix : Index} (h : ix.FlagExact) (v : Vertex) :
    (ix.addVertex v).FlagExact := by
  unfold FlagExact
  rw [addVertex_acyclic, addVertex_hierarchy]
  exact h

theorem addArrow_acyclic (ix : Index) (p c : StoredId) :
    (ix.addArrow p c).acyclic =
      (ix.acyclic && p != c && !Graph.reaches ix.hierarchy c p) := by
  unfold addArrow
  dsimp only
  split <;> rfl

theorem addArrow_hierarchy (ix : Index) (p c : StoredId) :
    (ix.addArrow p c).hierarchy =
      if (p, c) ∈ ix.hierarchy then ix.hierarchy else ix.hierarchy ++ [(p, c)] := by
  unfold addArrow
  dsimp only
  split <;> rfl

theorem addArrow_vertices (ix : Index) (p c : StoredId) :
    (ix.addArrow p c).vertices = ix.vertices := by
  unfold addArrow
  dsimp only
  split <;> rfl

theorem addArrow_edges (ix : Index) (p c : StoredId) : (ix.addArrow p c).edges = ix.edges := by
  unfold addArrow
  dsimp only
  split <;> rfl

theorem FlagExact.addArrow {ix : Index} (h : ix.FlagExact) (p c : StoredId) :
    (ix.addArrow p c).FlagExact := by
  have hreach : p = c → Relation.ReflTransGen (Graph.Arrow ix.hierarchy) c p := by
    rintro rfl
    exact .refl
  have hexact : ix.acyclic = true ↔ Graph.Acyclic ix.hierarchy := h
  have hflag : (ix.addArrow p c).acyclic = true ↔ Graph.Acyclic ((p, c) :: ix.hierarchy) := by
    rw [addArrow_acyclic, Graph.acyclic_cons, ← hexact]
    simp only [Bool.and_eq_true, bne_iff_ne, ne_eq, Bool.not_eq_true', ← Bool.not_eq_true,
      Graph.reaches_iff, and_assoc]
    constructor
    · rintro ⟨ha, -, hr⟩
      exact ⟨ha, hr⟩
    · rintro ⟨ha, hr⟩
      exact ⟨ha, fun he => hr (hreach he), hr⟩
  unfold FlagExact
  rw [hflag, addArrow_hierarchy]
  split
  · rename_i hmem
    have hsub : (p, c) :: ix.hierarchy ⊆ ix.hierarchy := List.cons_subset.2 ⟨hmem, fun _ h => h⟩
    exact ⟨fun ha => ha.anti (List.subset_cons_self _ _), fun ha => ha.anti hsub⟩
  · exact Graph.Acyclic.congr (List.perm_append_singleton _ _).symm

theorem FlagExact.addEdge {ix : Index} (h : ix.FlagExact) (l : StoredLink) :
    (ix.addEdge l).FlagExact := by
  have hv : ((ix.addVertex l.sourceVertex).addVertex l.targetVertex).FlagExact :=
    (h.addVertex _).addVertex _
  unfold Index.addEdge
  dsimp only
  split
  · exact FlagExact.addArrow (by exact hv) _ _
  · exact hv

theorem mem_dropArrows {a b : StoredId} {arrows : List (StoredId × StoredId)}
    {p c : StoredId} : (p, c) ∈ dropArrows a b arrows ↔
      (p, c) ∈ arrows ∧ ¬ (p = a ∧ c = b) ∧ ¬ (p = b ∧ c = a) := by
  simp only [dropArrows, List.mem_filter, Bool.and_eq_true, Bool.not_eq_true',
    Bool.and_eq_false_iff, decide_eq_false_iff_not, not_and_or]

theorem FlagExact.removeArrows {ix : Index} (h : ix.FlagExact) (a b : StoredId) :
    (ix.removeArrows a b).FlagExact := by
  have hsub : dropArrows a b ix.hierarchy ⊆ ix.hierarchy := List.filter_subset_self _
  have hcyclic : Graph.isCyclic (dropArrows a b ix.hierarchy) = true ↔
      ¬ Graph.Acyclic (dropArrows a b ix.hierarchy) := Graph.isCyclic_iff
  show (ix.acyclic || !Graph.isCyclic (dropArrows a b ix.hierarchy)) = true ↔
    Graph.Acyclic (dropArrows a b ix.hierarchy)
  rw [Bool.or_eq_true, Bool.not_eq_true', ← Bool.not_eq_true, hcyclic, not_not]
  constructor
  · rintro (ha | ha)
    · exact (h.1 ha).anti hsub
    · exact ha
  · exact .inr

theorem FlagExact.removeEdge {ix : Index} (h : ix.FlagExact) (l : StoredLink) :
    (ix.removeEdge l).FlagExact := by
  unfold Index.removeEdge
  dsimp only
  split
  · exact FlagExact.removeArrows (by exact h) _ _
  · exact h

/-! ### The mirror -/

/-- The graph has some vertices, the edges of some links and the arrows of those that order the
hierarchy, each once, and its flag is exact. -/
structure Mirrors (ix : Index) (vs : List Vertex) (ls : List StoredLink) : Prop where
  vertices : ix.vertices.Perm vs
  edges : ix.edges.Perm (ls.map StoredLink.edge)
  hierarchy : ix.hierarchy.Perm (ls.filterMap StoredLink.arrow?)
  flag : ix.FlagExact

variable {ix : Index} {vs : List Vertex} {ls : List StoredLink}

theorem mirrors_empty : Mirrors empty [] [] :=
  ⟨.nil, .nil, .nil, flagExact_empty⟩

theorem Mirrors.congr (h : Mirrors ix vs ls) {vs' : List Vertex} {ls' : List StoredLink}
    (hv : vs.Perm vs') (hl : ls.Perm ls') : Mirrors ix vs' ls' where
  vertices := h.vertices.trans hv
  edges := h.edges.trans (hl.map _)
  hierarchy := h.hierarchy.trans (hl.filterMap _)
  flag := h.flag

theorem Mirrors.acyclic_iff (h : Mirrors ix vs ls) :
    ix.acyclic = true ↔ Graph.Acyclic (ls.filterMap StoredLink.arrow?) :=
  h.flag.trans (Graph.Acyclic.congr h.hierarchy)

theorem addVertex_of_mem {v : Vertex} (h : v ∈ ix.vertices) : ix.addVertex v = ix := by
  unfold addVertex
  rw [if_pos h]

theorem Mirrors.addVertex_known (h : Mirrors ix vs ls) {v : Vertex} (hv : v ∈ vs) :
    Mirrors (ix.addVertex v) vs ls := by
  rw [addVertex_of_mem (h.vertices.mem_iff.2 hv)]
  exact h

theorem Mirrors.addVertex_new (h : Mirrors ix vs ls) {v : Vertex} (hv : v ∉ vs) :
    Mirrors (ix.addVertex v) (vs ++ [v]) ls := by
  have hnew : v ∉ ix.vertices := fun hm => hv (h.vertices.mem_iff.1 hm)
  have hvs : (ix.addVertex v).vertices = ix.vertices ++ [v] := by
    unfold Index.addVertex
    rw [if_neg hnew]
  refine ⟨?_, ?_, ?_, h.flag.addVertex v⟩
  · rw [hvs]
    exact h.vertices.append_right _
  · rw [addVertex_edges]
    exact h.edges
  · rw [addVertex_hierarchy]
    exact h.hierarchy

theorem setEdge_of_forall_ne {e : Edge} {es : List Edge}
    (h : ∀ f ∈ es, ¬ (f.source = e.source ∧ f.target = e.target)) : setEdge e es = es ++ [e] := by
  induction es with
  | nil => rfl
  | cons f fs ih =>
    rw [setEdge, if_neg (h f List.mem_cons_self), ih fun g hg => h g (List.mem_cons_of_mem _ hg)]
    rfl

theorem Mirrors.addEdge (h : Mirrors ix vs ls) {l : StoredLink} (hs : l.sourceVertex ∈ vs)
    (ht : l.targetVertex ∈ vs) (hl : ∀ m ∈ ls, l.Apart m) : Mirrors (ix.addEdge l) vs (l :: ls) := by
  have hs' : ix.addVertex l.sourceVertex = ix := addVertex_of_mem (h.vertices.mem_iff.2 hs)
  have ht' : ix.addVertex l.targetVertex = ix := addVertex_of_mem (h.vertices.mem_iff.2 ht)
  have hedges : (setEdge l.edge ix.edges).Perm (l.edge :: ls.map StoredLink.edge) := by
    rw [setEdge_of_forall_ne]
    · exact (List.perm_append_singleton _ _).trans (h.edges.cons _)
    · intro f hf hends
      obtain ⟨m, hm, rfl⟩ := List.mem_map.1 (h.edges.mem_iff.1 hf)
      exact (hl m hm).1 ⟨hends.1.symm, hends.2.symm⟩
  have hflag := h.flag.addEdge l
  unfold Index.addEdge at hflag ⊢
  simp only [hs', ht'] at hflag ⊢
  cases harrow : l.arrow? with
  | none =>
    rw [harrow] at hflag
    refine ⟨h.vertices, hedges, ?_, hflag⟩
    rw [List.filterMap_cons_none harrow]
    exact h.hierarchy
  | some arrow =>
    obtain ⟨p, c⟩ := arrow
    rw [harrow] at hflag
    have hnew : (p, c) ∉ ix.hierarchy := by
      intro hmem
      obtain ⟨m, hm, hmpc⟩ := List.mem_filterMap.1 (h.hierarchy.mem_iff.1 hmem)
      rcases StoredLink.vertices_of_arrow? harrow with hpc | hpc
      · exact ((hl m hm).arrow_ne hpc hmpc).1 ⟨rfl, rfl⟩
      · exact ((hl m hm).arrow_ne hpc hmpc).2 ⟨rfl, rfl⟩
    refine ⟨?_, ?_, ?_, hflag⟩
    · rw [addArrow_vertices]
      exact h.vertices
    · rw [addArrow_edges]
      exact hedges
    · rw [addArrow_hierarchy, if_neg hnew, List.filterMap_cons_some harrow]
      exact (List.perm_append_singleton _ _).trans (h.hierarchy.cons _)

theorem keeps_edge_iff {e : Edge} {a b : Vertex} :
    (!(e.source = a && e.target = b) && !(e.source = b && e.target = a)) = true ↔
      ¬ (e.source = a ∧ e.target = b) ∧ ¬ (e.source = b ∧ e.target = a) := by
  simp only [Bool.and_eq_true, Bool.not_eq_true', Bool.and_eq_false_iff,
    decide_eq_false_iff_not, not_and_or]

theorem Mirrors.removeEdge {l : StoredLink} (h : Mirrors ix vs (l :: ls))
    (hl : ∀ m ∈ ls, l.Apart m) : Mirrors (ix.removeEdge l) vs ls := by
  have hedges : (dropEdges l.sourceVertex l.targetVertex ix.edges).Perm
      (ls.map StoredLink.edge) := by
    have hperm := h.edges.filter fun e =>
      !(e.source = l.sourceVertex && e.target = l.targetVertex) &&
        !(e.source = l.targetVertex && e.target = l.sourceVertex)
    rw [List.map_cons, List.filter_cons_of_neg (by simp [StoredLink.edge])] at hperm
    refine hperm.trans (.of_eq (List.filter_eq_self.2 fun e he => ?_))
    obtain ⟨m, hm, rfl⟩ := List.mem_map.1 he
    have hapart := (hl m hm).symm
    exact keeps_edge_iff.2 hapart
  have hflag := h.flag.removeEdge l
  unfold Index.removeEdge at hflag ⊢
  dsimp only at hflag ⊢
  cases hkind : l.kind with
  | external =>
    rw [hkind] at hflag
    have hnone : l.arrow? = none := by simp [StoredLink.arrow?, hkind]
    refine ⟨h.vertices, hedges, ?_, hflag⟩
    have hh := h.hierarchy
    rw [List.filterMap_cons_none hnone] at hh
    exact hh
  | internal =>
    rw [hkind] at hflag
    have hends : l.sourceVertex = .requirement l.source ∧ l.targetVertex = .requirement l.target :=
      ⟨rfl, StoredLink.targetVertex_of_internal hkind⟩
    refine ⟨h.vertices, hedges, ?_, hflag⟩
    show (dropArrows l.source l.target ix.hierarchy).Perm _
    have hperm : (dropArrows l.source l.target ix.hierarchy).Perm
        (dropArrows l.source l.target ((l :: ls).filterMap StoredLink.arrow?)) :=
      h.hierarchy.filter _
    have hrest : dropArrows l.source l.target (ls.filterMap StoredLink.arrow?) =
        ls.filterMap StoredLink.arrow? := by
      refine List.filter_eq_self.2 fun arrow harrow => ?_
      obtain ⟨p, c⟩ := arrow
      obtain ⟨m, hm, hmpc⟩ := List.mem_filterMap.1 harrow
      have hne := (hl m hm).arrow_ne hends hmpc
      simp only [Bool.and_eq_true, Bool.not_eq_true', Bool.and_eq_false_iff,
        decide_eq_false_iff_not, ← not_and_or]
      exact hne
    refine hperm.trans ?_
    cases harrow : l.arrow? with
    | none => rw [List.filterMap_cons_none harrow, hrest]
    | some arrow =>
      obtain ⟨p, c⟩ := arrow
      unfold dropArrows at hrest ⊢
      rw [List.filterMap_cons_some harrow, List.filter_cons_of_neg, hrest]
      rcases StoredLink.vertices_of_arrow? harrow with hpc | hpc <;>
        rw [hends.1, hends.2] at hpc <;> simp_all

theorem Mirrors.foldl_addEdge (h : Mirrors ix vs ls) {links : List StoredLink}
    (hends : ∀ l ∈ links, l.sourceVertex ∈ vs ∧ l.targetVertex ∈ vs)
    (hlinks : links.Pairwise StoredLink.Apart) (hls : ∀ l ∈ links, ∀ m ∈ ls, l.Apart m) :
    Mirrors (links.foldl Index.addEdge ix) vs (ls ++ links) := by
  induction links generalizing ix ls with
  | nil =>
    rw [List.append_nil]
    exact h
  | cons l links ih =>
    obtain ⟨hl, hlinks⟩ := List.pairwise_cons.1 hlinks
    have hstep := h.addEdge (hends l List.mem_cons_self).1 (hends l List.mem_cons_self).2
      (hls l List.mem_cons_self)
    have hall := ih hstep (fun m hm => hends m (List.mem_cons_of_mem _ hm)) hlinks (by
      intro m hm k hk
      rcases List.mem_cons.1 hk with rfl | hk
      · exact (hl m hm).symm
      · exact hls m (List.mem_cons_of_mem _ hm) k hk)
    exact hall.congr (.refl _) List.perm_middle.symm

theorem Mirrors.foldl_addVertex (h : Mirrors ix vs ls) {vertices : List Vertex}
    (hnodup : (vs ++ vertices).Nodup) :
    Mirrors (vertices.foldl Index.addVertex ix) (vs ++ vertices) ls := by
  induction vertices generalizing ix vs with
  | nil =>
    rw [List.append_nil]
    exact h
  | cons v vertices ih =>
    have hv : v ∉ vs := fun hm => by
      rw [List.nodup_append] at hnodup
      exact hnodup.2.2 v hm v List.mem_cons_self rfl
    have happ : vs ++ v :: vertices = (vs ++ [v]) ++ vertices := by simp
    rw [happ] at hnodup ⊢
    exact ih (h.addVertex_new hv) hnodup

theorem mirrors_build (hnodup : vs.Nodup)
    (hends : ∀ l ∈ ls, l.sourceVertex ∈ vs ∧ l.targetVertex ∈ vs)
    (hls : ls.Pairwise StoredLink.Apart) : Mirrors (build vs ls) vs ls := by
  have hv : Mirrors (vs.foldl Index.addVertex empty) ([] ++ vs) [] :=
    mirrors_empty.foldl_addVertex hnodup
  exact hv.foldl_addEdge hends hls fun _ _ _ hm => absurd hm List.not_mem_nil

end Index

end Crosswalk
