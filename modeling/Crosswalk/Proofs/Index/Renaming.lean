import Crosswalk.Proofs.Graph.Walk
import Crosswalk.Proofs.Index.Evolution
import Crosswalk.Proofs.Store.Copy

/-!
# Renamed graphs

Two graphs may agree in everything that the shape of the hierarchy depends on: the vertices, the
arrows and the lower ends of the edges are the same, under other identities. Which end of an edge is
its source counts only as far as it makes the other end the lower one. The roots of one graph are
the renamed roots of the other then, and every requirement lies as deep.
-/

namespace Crosswalk

variable {f : StoredId → StoredId}

theorem Vertex.requirement?_mapId (v : Vertex) :
    (v.mapId f).requirement? = v.requirement?.map f := by
  cases v <;> rfl

namespace Edge

/-- The edge between the vertices with other identities. -/
def mapId (f : StoredId → StoredId) (e : Edge) : Edge :=
  ⟨e.source.mapId f, e.target.mapId f, e.relation⟩

/-- The parent and the child that an edge relates. -/
def arrow? (e : Edge) : Option (StoredId × StoredId) :=
  match e.relation, e.source, e.target with
  | .contains, .requirement p, .requirement c => some (p, c)
  | .partOf, .requirement c, .requirement p => some (p, c)
  | _, _, _ => none

theorem arrow?_mapId (e : Edge) : (e.mapId f).arrow? = e.arrow?.map (Prod.map f f) := by
  obtain ⟨source, target, relation⟩ := e
  cases source <;> cases target <;> cases relation <;> rfl

end Edge

theorem StoredLink.arrow?_edge (l : StoredLink) : l.edge.arrow? = l.arrow? := by
  obtain ⟨id, kind, source, target, relation⟩ := l
  cases kind <;> cases relation <;> rfl

namespace Index

variable {ix ix' : Index} {a b : StoredId}

theorem lowerEnd?_mapId (e : Edge) :
    lowerEnd? (e.mapId f) = (lowerEnd? e).map (Vertex.mapId f) := by
  obtain ⟨source, target, relation⟩ := e
  cases relation <;> rfl

/-- The vertices below the other end of an edge. -/
def lowerEnds (ix : Index) : List Vertex :=
  ix.edges.filterMap lowerEnd?

/-- A graph agrees with another one, under other identities, in what the shape of the hierarchy
depends on. -/
structure Renames (f : StoredId → StoredId) (ix ix' : Index) : Prop where
  vertices : ix'.vertices.Perm (ix.vertices.map (Vertex.mapId f))
  hierarchy : ix'.hierarchy.Perm (ix.hierarchy.map (Prod.map f f))
  lowerEnds : ix'.lowerEnds.Perm (ix.lowerEnds.map (Vertex.mapId f))
  /-- Different vertices have different identities. -/
  distinct : ∀ v ∈ ix.vertices, ∀ w ∈ ix.vertices, v.mapId f = w.mapId f → v = w
  known_lowerEnds : ix.lowerEnds ⊆ ix.vertices
  known_hierarchy : ∀ p c, (p, c) ∈ ix.hierarchy → p ∈ ix.requirements ∧ c ∈ ix.requirements

theorem roots_subset_requirements (ix : Index) : ix.roots ⊆ ix.requirements := by
  intro a ha
  obtain ⟨v, hv, hav⟩ := List.mem_filterMap.1 ha
  exact List.mem_filterMap.2 ⟨v, (List.mem_filter.1 hv).1, hav⟩

theorem length_shortestPath? {n : Nat} (ha : a ∈ ix.requirements) (hb : b ∈ ix.requirements) :
    (ix.shortestPath? a b).map (fun path => path.length - 1) = some n ↔
      Graph.Distance ix.hierarchy a n b := by
  unfold shortestPath?
  rw [if_pos ⟨ha, hb⟩, Option.map_map, ← Graph.shortestPath?_length]
  simp only [Function.comp_def, List.length_map]

namespace Renames

theorem eq_of_requirements (h : Renames f ix ix') (ha : a ∈ ix.requirements)
    (hb : b ∈ ix.requirements) (hab : f a = f b) : a = b := by
  have hvertices := h.distinct _ (mem_requirements_iff.1 ha) _ (mem_requirements_iff.1 hb)
    (congrArg Vertex.requirement hab)
  exact Vertex.requirement.inj hvertices

theorem mem_requirements (h : Renames f ix ix') (ha : a ∈ ix.requirements) :
    f a ∈ ix'.requirements := by
  rw [mem_requirements_iff, h.vertices.mem_iff]
  exact List.mem_map.2 ⟨.requirement a, mem_requirements_iff.1 ha, rfl⟩

theorem arrow_iff (h : Renames f ix ix') {u v : StoredId} :
    Graph.Arrow ix'.hierarchy u v ↔
      ∃ p c, Graph.Arrow ix.hierarchy p c ∧ f p = u ∧ f c = v := by
  unfold Graph.Arrow
  rw [h.hierarchy.mem_iff, List.mem_map]
  constructor
  · rintro ⟨⟨p, c⟩, hpc, heq⟩
    obtain ⟨rfl, rfl⟩ := Prod.mk.inj heq
    exact ⟨p, c, hpc, rfl, rfl⟩
  · rintro ⟨p, c, hpc, rfl, rfl⟩
    exact ⟨(p, c), hpc, rfl⟩

theorem mem_hierarchy_iff (h : Renames f ix ix') (ha : a ∈ ix.requirements)
    (hb : b ∈ ix.requirements) : (f a, f b) ∈ ix'.hierarchy ↔ (a, b) ∈ ix.hierarchy := by
  refine h.arrow_iff.trans ⟨?_, fun hab => ⟨a, b, hab, rfl, rfl⟩⟩
  rintro ⟨p, c, hpc, hp, hc⟩
  obtain ⟨hp', hc'⟩ := h.known_hierarchy p c hpc
  rw [← h.eq_of_requirements hp' ha hp, ← h.eq_of_requirements hc' hb hc]
  exact hpc

theorem distance_iff (h : Renames f ix ix') {n : Nat} (ha : a ∈ ix.requirements)
    (hb : b ∈ ix.requirements) :
    Graph.Distance ix'.hierarchy (f a) n (f b) ↔ Graph.Distance ix.hierarchy a n b := by
  have hdistinct : ∀ x, x ∈ ix.requirements → ∀ y, y ∈ ix.requirements → f x = f y → x = y :=
    fun x hx y hy => h.eq_of_requirements hx hy
  exact Graph.distance_renamed_iff hdistinct h.known_hierarchy (fun u v => h.arrow_iff) ha hb

theorem shortestPath?_length_eq (h : Renames f ix ix') (ha : a ∈ ix.requirements)
    (hb : b ∈ ix.requirements) :
    (ix'.shortestPath? (f a) (f b)).map (fun path => path.length - 1) =
      (ix.shortestPath? a b).map fun path => path.length - 1 := by
  refine Option.ext fun n => ?_
  rw [length_shortestPath? (h.mem_requirements ha) (h.mem_requirements hb),
    length_shortestPath? ha hb]
  exact h.distance_iff ha hb

/-- A vertex is below another one under both identities. -/
theorem mem_lowerEnds_iff (h : Renames f ix ix') {v : Vertex} (hv : v ∈ ix.vertices) :
    v.mapId f ∈ ix'.lowerEnds ↔ v ∈ ix.lowerEnds := by
  rw [h.lowerEnds.mem_iff, List.mem_map]
  constructor
  · rintro ⟨w, hw, heq⟩
    exact h.distinct w (h.known_lowerEnds hw) v hv heq ▸ hw
  · exact fun hv' => ⟨v, hv', rfl⟩

/-- The roots are the same, under other identities. -/
theorem roots_perm (h : Renames f ix ix') : ix'.roots.Perm (ix.roots.map f) := by
  have hlower : ∀ v ∈ ix.vertices, ((fun w => !ix'.lowerEnds.contains w) ∘ Vertex.mapId f) v =
      !ix.lowerEnds.contains v := by
    intro v hv
    refine congrArg Bool.not (Bool.eq_iff_iff.2 ?_)
    rw [List.contains_iff_mem, List.contains_iff_mem]
    exact h.mem_lowerEnds_iff hv
  have hroots : ((ix.vertices.map (Vertex.mapId f)).filter fun w =>
      !ix'.lowerEnds.contains w).filterMap Vertex.requirement? = ix.roots.map f := by
    rw [List.filter_map, List.filter_congr hlower, List.filterMap_map]
    show _ = List.map f (List.filterMap _ (ix.vertices.filter fun v => !ix.lowerEnds.contains v))
    rw [List.map_filterMap]
    exact List.filterMap_congr fun v _ => v.requirement?_mapId
  exact ((h.vertices.filter _).filterMap _).trans (.of_eq hroots)

/-- Every requirement lies as deep under its other identity. -/
theorem depth_eq (h : Renames f ix ix') (ha : a ∈ ix.requirements) :
    ix'.depth (f a) = ix.depth a := by
  have hsteps : (ix'.roots.filterMap fun root =>
        (ix'.shortestPath? root (f a)).map fun path => path.length - 1).Perm
      (ix.roots.filterMap fun root =>
        (ix.shortestPath? root a).map fun path => path.length - 1) := by
    refine (h.roots_perm.filterMap _).trans (.of_eq ?_)
    rw [List.filterMap_map]
    exact List.filterMap_congr fun root hroot =>
      h.shortestPath?_length_eq (ix.roots_subset_requirements hroot) ha
  have hmin : ∀ {ns ms : List Nat}, ns.Perm ms → ns.min? = ms.min? := by
    intro ns ms hperm
    refine Option.ext fun n => ?_
    simp only [List.min?_eq_some_iff, hperm.mem_iff]
  exact congrArg (Option.getD · 0) (hmin hsteps)

end Renames

/-! ### Graphs that mirror links -/

variable {vs vs' : List Vertex} {ls ls' : List StoredLink}

theorem Mirrors.lowerEnds_perm (h : Mirrors ix vs ls) :
    ix.lowerEnds.Perm (ls.filterMap fun l => lowerEnd? l.edge) := by
  refine (h.edges.filterMap _).trans (.of_eq ?_)
  rw [List.filterMap_map]
  rfl

/-- Graphs agree when their links do, one by one, in arrows and lower ends. -/
theorem Mirrors.renames (h : Mirrors ix vs ls) (h' : Mirrors ix' vs' ls')
    (hends : ∀ l ∈ ls, l.sourceVertex ∈ vs ∧ l.targetVertex ∈ vs)
    (hdistinct : ∀ v ∈ vs, ∀ w ∈ vs, v.mapId f = w.mapId f → v = w)
    (hvertices : vs'.Perm (vs.map (Vertex.mapId f)))
    (harrows : (ls'.filterMap StoredLink.arrow?).Perm
      ((ls.filterMap StoredLink.arrow?).map (Prod.map f f)))
    (hlower : (ls'.filterMap fun l => lowerEnd? l.edge).Perm
      ((ls.filterMap fun l => lowerEnd? l.edge).map (Vertex.mapId f))) : Renames f ix ix' where
  vertices := h'.vertices.trans (hvertices.trans (h.vertices.symm.map _))
  hierarchy := h'.hierarchy.trans (harrows.trans (h.hierarchy.symm.map _))
  lowerEnds := h'.lowerEnds_perm.trans (hlower.trans (h.lowerEnds_perm.symm.map _))
  distinct := by
    intro v hv w hw
    exact hdistinct v (h.vertices.mem_iff.1 hv) w (h.vertices.mem_iff.1 hw)
  known_lowerEnds := by
    intro v hv
    obtain ⟨l, hl, hlv⟩ := List.mem_filterMap.1 (h.lowerEnds_perm.mem_iff.1 hv)
    obtain ⟨hs, ht⟩ := hends l hl
    rw [h.vertices.mem_iff]
    unfold lowerEnd? at hlv
    split at hlv <;> cases hlv
    · exact hs
    · exact ht
  known_hierarchy := by
    intro p c hpc
    obtain ⟨l, hl, harrow⟩ := List.mem_filterMap.1 (h.hierarchy.mem_iff.1 hpc)
    obtain ⟨hs, ht⟩ := hends l hl
    rw [mem_requirements_iff, mem_requirements_iff, h.vertices.mem_iff, h.vertices.mem_iff]
    rcases StoredLink.vertices_of_arrow? harrow with hpc | hpc <;> rw [hpc.1] at hs <;>
      rw [hpc.2] at ht
    · exact ⟨hs, ht⟩
    · exact ⟨ht, hs⟩

end Index

end Crosswalk
