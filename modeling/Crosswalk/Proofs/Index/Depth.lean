import Crosswalk.Proofs.Index.Renaming
import Mathlib.Order.Bounds.Defs

/-!
# Shortest paths and depths

However a graph has been changed, and whether or not its hierarchy has cycles by then, a path that
is returned is a chain of arrows of the hierarchy and no chain between its ends is shorter. Since a
chain from a root ends in a requirement of the graph, the depth of a requirement is the least number
of arrows that lead to it from a root.
-/

namespace Crosswalk.Index

variable {ix : Index} {a b : StoredId} {n : Nat}

/-- A chain of arrows of the hierarchy leads from one requirement to another, both included. -/
def Chain (ix : Index) (a b : StoredId) (chain : List StoredId) : Prop :=
  Graph.IsWalk (Graph.Arrow ix.hierarchy) a b chain

/-- A chain of so many arrows leads to a requirement from one of the roots. -/
def BelowRoot (ix : Index) (b : StoredId) (n : Nat) : Prop :=
  ∃ root ∈ ix.roots, ∃ chain, ix.Chain root b chain ∧ chain.length = n + 1

theorem shortestPath?_eq_none_iff : ix.shortestPath? a b = none ↔
    a ∉ ix.requirements ∨ b ∉ ix.requirements ∨ ∀ chain, ¬ ix.Chain a b chain := by
  rw [shortestPath?]
  split
  · rename_i hknown
    rw [Option.map_eq_none_iff, Graph.shortestPath?_eq_none]
    constructor
    · exact fun hno => .inr (.inr hno)
    · rintro (ha | hb | hno)
      · exact absurd hknown.1 ha
      · exact absurd hknown.2 hb
      · exact hno
  · rename_i hknown
    refine iff_of_true rfl ?_
    by_cases ha : a ∈ ix.requirements
    · exact .inr (.inl fun hb => hknown ⟨ha, hb⟩)
    · exact .inl ha

theorem shortestPath?_shortest {path : List Vertex} (h : ix.shortestPath? a b = some path) :
    ∃ chain, path = chain.map .requirement ∧ ix.Chain a b chain ∧
      ∀ other, ix.Chain a b other → chain.length ≤ other.length := by
  rw [shortestPath?] at h
  split at h
  · obtain ⟨chain, hchain, rfl⟩ := Option.map_eq_some_iff.1 h
    exact ⟨chain, rfl, (Graph.shortestPath?_eq_some hchain).1, fun other hother =>
      Graph.length_shortestPath?_le hchain hother⟩
  · cases h

/-! ### Depths -/

theorem belowRoot_iff : ix.BelowRoot b n ↔ ∃ root ∈ ix.roots, Graph.Steps ix.hierarchy root n b := by
  unfold BelowRoot Chain
  simp only [Graph.steps_iff_exists_walk]

/-- What arrows lead to from a requirement of the graph is a requirement of the graph. -/
theorem Coherent.mem_of_steps (h : ix.Coherent) (ha : a ∈ ix.requirements)
    (hab : Graph.Steps ix.hierarchy a n b) : b ∈ ix.requirements := by
  cases n with
  | zero =>
    obtain rfl : a = b := hab
    exact ha
  | succ n =>
    obtain ⟨c, -, hcb⟩ := hab
    exact (h.ends c b hcb).2

/-- The numbers of steps from which the depth of a requirement is chosen. -/
def rootSteps (ix : Index) (b : StoredId) : List Nat :=
  ix.roots.filterMap fun root => (ix.shortestPath? root b).map fun path => path.length - 1

theorem depth_eq (ix : Index) (b : StoredId) : ix.depth b = (ix.rootSteps b).min?.getD 0 :=
  rfl

theorem Coherent.mem_rootSteps_iff (h : ix.Coherent) :
    n ∈ ix.rootSteps b ↔ ∃ root ∈ ix.roots, Graph.Distance ix.hierarchy root n b := by
  rw [rootSteps, List.mem_filterMap]
  refine exists_congr fun root => and_congr_right fun hroot => ?_
  have hknown := ix.roots_subset_requirements hroot
  by_cases hb : b ∈ ix.requirements
  · exact length_shortestPath? hknown hb
  · rw [shortestPath?_eq_none_iff.2 (.inr (.inl hb))]
    exact iff_of_false nofun fun hdist => hb (h.mem_of_steps hknown hdist.steps)

theorem Coherent.belowRoot_of_mem (h : ix.Coherent) (hn : n ∈ ix.rootSteps b) :
    ix.BelowRoot b n := by
  obtain ⟨root, hroot, hdist⟩ := h.mem_rootSteps_iff.1 hn
  exact belowRoot_iff.2 ⟨root, hroot, hdist.steps⟩

/-- Beside every chain from a root stands a shortest one, which counts. -/
theorem Coherent.exists_rootSteps_le (h : ix.Coherent) (hn : ix.BelowRoot b n) :
    ∃ m ≤ n, m ∈ ix.rootSteps b := by
  obtain ⟨root, hroot, hsteps⟩ := belowRoot_iff.1 hn
  obtain ⟨m, hm, hdist⟩ := hsteps.exists_distance
  exact ⟨m, hm, h.mem_rootSteps_iff.2 ⟨root, hroot, hdist⟩⟩

theorem Coherent.depth_eq_zero (h : ix.Coherent) (hno : ∀ n, ¬ ix.BelowRoot b n) :
    ix.depth b = 0 := by
  have hnil : ix.rootSteps b = [] :=
    List.eq_nil_iff_forall_not_mem.2 fun n hn => hno n (h.belowRoot_of_mem hn)
  rw [depth_eq, hnil]
  rfl

theorem Coherent.depth_isLeast (h : ix.Coherent) (hn : ix.BelowRoot b n) :
    IsLeast {m | ix.BelowRoot b m} (ix.depth b) := by
  rw [depth_eq]
  cases hmin : (ix.rootSteps b).min? with
  | none =>
    obtain ⟨k, -, hk⟩ := h.exists_rootSteps_le hn
    rw [List.min?_eq_none_iff.1 hmin] at hk
    cases hk
  | some least =>
    obtain ⟨hmem, hle⟩ := List.min?_eq_some_iff.1 hmin
    refine ⟨h.belowRoot_of_mem hmem, fun m hm => ?_⟩
    obtain ⟨k, hkm, hk⟩ := h.exists_rootSteps_le hm
    exact (hle k hk).trans hkm

/-- However a graph has been changed, no path between two requirements is returned exactly when one
of them is not in the graph or no chain of arrows leads from the first to the second; a path that is
returned is such a chain, and none is shorter. The depth of a requirement is the least number of
arrows in a chain from any root to it, and zero if there is no such chain. -/
theorem shortestPath?_and_depth (changes : List Change) :
    let ix := evolve changes
    (∀ a b, ix.shortestPath? a b = none ↔
        a ∉ ix.requirements ∨ b ∉ ix.requirements ∨ ∀ chain, ¬ ix.Chain a b chain) ∧
      (∀ a b path, ix.shortestPath? a b = some path →
        ∃ chain, path = chain.map .requirement ∧ ix.Chain a b chain ∧
          ∀ other, ix.Chain a b other → chain.length ≤ other.length) ∧
      (∀ b, (∀ n, ¬ ix.BelowRoot b n) → ix.depth b = 0) ∧
      ∀ b n, ix.BelowRoot b n → IsLeast {m | ix.BelowRoot b m} (ix.depth b) := by
  have h := coherent_evolve changes
  exact ⟨fun _ _ => shortestPath?_eq_none_iff, fun _ _ _ => shortestPath?_shortest,
    fun _ => h.depth_eq_zero, fun _ _ => h.depth_isLeast⟩

end Crosswalk.Index
