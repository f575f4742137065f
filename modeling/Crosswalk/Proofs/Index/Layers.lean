import Crosswalk.Proofs.Index.Depth

/-!
# Layers of a hierarchy

A chain of arrows from a root is prolonged by every arrow from its end, and without its last arrow
it leads to a parent. So where the requirements are below roots, their depths lay the hierarchy in
layers: the roots are the first layer, an arrow leads at most one layer down, and every requirement
further down has a parent in the layer right above its own.
-/

namespace Crosswalk.Index

variable {ix : Index} {a p c : StoredId} {n : Nat}

theorem roots_eq_filter (ix : Index) :
    ix.roots = ix.requirements.filter fun a => !ix.lowerEnds.contains (.requirement a) := by
  show (ix.vertices.filter fun v => !ix.lowerEnds.contains v).filterMap Vertex.requirement? = _
  rw [requirements, List.filter_filterMap, List.filterMap_filter]
  refine List.filterMap_congr fun v _ => ?_
  cases v with
  | requirement a => rw [Vertex.requirement?, Option.filter_some]
  | node a => exact ite_self none

theorem mem_roots_iff : a ∈ ix.roots ↔ a ∈ ix.requirements ∧ .requirement a ∉ ix.lowerEnds := by
  rw [roots_eq_filter, List.mem_filter, Bool.not_eq_true', ← Bool.not_eq_true,
    List.contains_iff_mem]

/-! ### Chains from roots -/

theorem belowRoot_zero_iff : ix.BelowRoot a 0 ↔ a ∈ ix.roots := by
  rw [belowRoot_iff]
  constructor
  · rintro ⟨root, hroot, hsteps⟩
    obtain rfl : root = a := hsteps
    exact hroot
  · exact fun ha => ⟨a, ha, rfl⟩

theorem BelowRoot.child (h : ix.BelowRoot p n) (hpc : (p, c) ∈ ix.hierarchy) :
    ix.BelowRoot c (n + 1) := by
  obtain ⟨root, hroot, hsteps⟩ := belowRoot_iff.1 h
  exact belowRoot_iff.2 ⟨root, hroot, p, hsteps, hpc⟩

theorem BelowRoot.exists_parent (h : ix.BelowRoot c (n + 1)) :
    ∃ p, (p, c) ∈ ix.hierarchy ∧ ix.BelowRoot p n := by
  obtain ⟨root, hroot, p, hsteps, hpc⟩ := belowRoot_iff.1 h
  exact ⟨p, hpc, belowRoot_iff.2 ⟨root, hroot, hsteps⟩⟩

theorem exists_belowRoot {root : StoredId} (hroot : root ∈ ix.roots)
    (hpath : Relation.ReflTransGen (Graph.Arrow ix.hierarchy) root a) : ∃ n, ix.BelowRoot a n := by
  obtain ⟨n, hsteps⟩ := Graph.exists_steps hpath
  exact ⟨n, belowRoot_iff.2 ⟨root, hroot, hsteps⟩⟩

/-! ### Depths -/

namespace Coherent

theorem depth_le (h : ix.Coherent) (ha : ix.BelowRoot a n) : ix.depth a ≤ n :=
  (h.depth_isLeast ha).2 ha

theorem belowRoot_depth (h : ix.Coherent) (ha : ix.BelowRoot a n) : ix.BelowRoot a (ix.depth a) :=
  (h.depth_isLeast ha).1

/-- The roots are the first layer. -/
theorem depth_eq_zero_iff (h : ix.Coherent) (ha : ix.BelowRoot a n) :
    ix.depth a = 0 ↔ a ∈ ix.roots := by
  constructor
  · intro hzero
    have hbelow := h.belowRoot_depth ha
    rw [hzero] at hbelow
    exact belowRoot_zero_iff.1 hbelow
  · intro hroot
    have hle := h.depth_le (belowRoot_zero_iff.2 hroot)
    omega

/-- An arrow leads at most one layer down. -/
theorem depth_le_succ (h : ix.Coherent) (hp : ix.BelowRoot p n) (hpc : (p, c) ∈ ix.hierarchy) :
    ix.depth c ≤ ix.depth p + 1 :=
  h.depth_le ((h.belowRoot_depth hp).child hpc)

/-- Below the first layer there is a parent in the layer right above. -/
theorem exists_parent_above (h : ix.Coherent) (hc : ix.BelowRoot c n) (hpos : 0 < ix.depth c) :
    ∃ p, (p, c) ∈ ix.hierarchy ∧ ix.depth p + 1 = ix.depth c := by
  obtain ⟨d, hd⟩ := Nat.exists_eq_succ_of_ne_zero (Nat.ne_of_gt hpos)
  have hbelow := h.belowRoot_depth hc
  rw [hd] at hbelow
  obtain ⟨p, hpc, hp⟩ := hbelow.exists_parent
  have hle := h.depth_le hp
  have hge := h.depth_le_succ hp hpc
  exact ⟨p, hpc, by omega⟩

end Coherent

end Crosswalk.Index
