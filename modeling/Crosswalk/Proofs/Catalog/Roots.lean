import Crosswalk.Proofs.Catalog.Run
import Crosswalk.Proofs.Catalog.Shape
import Crosswalk.Proofs.Graph.Source
import Crosswalk.Proofs.Index.Connected
import Crosswalk.Proofs.Index.Layers

/-!
# The top of a hierarchy

A requirement is listed at the top when no link puts it below anything. Links of every relation but
a loose one do so, those to nodes included, while the hierarchy is made of containments. The two
agree as long as requirements are linked by containments and loosely only and no requirement is a
part of a node. Then the top is where the containments start, everything is below it, and depths
count the containments from there.
-/

namespace Crosswalk.Catalog

variable {ι : Type} {c : Catalog} {a b : StoredId} {r : Requirement StoredId}

/-- A requirement is listed at the top. -/
def AtTop (c : Catalog) (r : Requirement StoredId) : Prop :=
  .requirement r ∈ c.rootRequirements.map Document.entity

namespace Consistent

theorem coherent (h : c.Consistent) : c.index.Coherent where
  flag := h.mirrors.flag
  ends := by
    intro p d hpd
    obtain ⟨l, hl, harrow⟩ := List.mem_filterMap.1 (h.mirrors.hierarchy.mem_iff.1 hpd)
    obtain ⟨hs, ht⟩ := h.sound.ends l hl
    rw [h.mem_requirements, h.mem_requirements]
    rcases StoredLink.vertices_of_arrow? harrow with ⟨hp, hd⟩ | ⟨hd, hp⟩
    · exact ⟨hp ▸ hs, hd ▸ ht⟩
    · exact ⟨hp ▸ ht, hd ▸ hs⟩
  linked := by
    intro p d hpd
    obtain ⟨l, hl, harrow⟩ := List.mem_filterMap.1 (h.mirrors.hierarchy.mem_iff.1 hpd)
    exact ⟨l.edge, h.mirrors.edges.mem_iff.2 (List.mem_map_of_mem hl),
      StoredLink.vertices_of_arrow? harrow⟩

/-- The hierarchy is made of the stored containments. -/
theorem mem_hierarchy (h : c.Consistent) :
    (a, b) ∈ c.index.hierarchy ↔ (a, b) ∈ c.store.containments := by
  rw [h.mirrors.hierarchy.mem_iff, ← h.sound.arrows_eq]
  rfl

theorem atTop_iff (h : c.Consistent) :
    c.AtTop r ↔ r ∈ c.store.requirements ∧ r.id ∈ c.index.roots := by
  have hlisted : c.AtTop r ↔ r ∈ c.unsortedRoots := by
    rw [AtTop, rootRequirements_eq, List.map_map, List.mem_map]
    simp only [Function.comp_apply, Store.sortRequirements, Text.mem_sortOn]
    constructor
    · rintro ⟨q, hq, heq⟩
      obtain rfl : q = r := Entity.requirement.inj heq
      exact hq
    · exact fun hr => ⟨r, hr, rfl⟩
  rw [hlisted, unsortedRoots, List.mem_filterMap]
  constructor
  · rintro ⟨a, ha, hfound⟩
    obtain ⟨hr, rfl⟩ := h.sound.requirement?_iff.1 hfound
    exact ⟨hr, ha⟩
  · rintro ⟨hr, hroot⟩
    exact ⟨r.id, hroot, h.sound.requirement?_iff.2 ⟨hr, rfl⟩⟩

end Consistent

/-! ### Links that keep to the hierarchy -/

/-- Whether what links put below something is what containments put there: requirements are linked
by containments and loosely, and no requirement is a part of a node. -/
structure PlainlyLinked (c : Catalog) : Prop where
  internal : ∀ l ∈ c.store.links, l.kind = .internal →
    l.relation = .contains ∨ l.relation = .related
  external : ∀ l ∈ c.store.links, l.kind = .external → l.relation ≠ .partOf

theorem PlainlyLinked.lowerEnd?_iff (h : c.PlainlyLinked) {l : StoredLink}
    (hl : l ∈ c.store.links) :
    Index.lowerEnd? l.edge = some (.requirement a) ↔ ∃ p, l.arrow? = some (p, a) := by
  have hinternal := h.internal l hl
  have hexternal := h.external l hl
  obtain ⟨id, kind, source, target, relation⟩ := l
  cases kind with
  | internal =>
    rcases hinternal rfl with hrelation | hrelation <;> obtain rfl := hrelation <;>
      simp [Index.lowerEnd?, StoredLink.edge, StoredLink.arrow?, StoredLink.targetVertex]
  | external =>
    have hpart := hexternal rfl
    cases relation <;>
      simp_all [Index.lowerEnd?, StoredLink.edge, StoredLink.arrow?, StoredLink.targetVertex]

namespace Consistent

/-- The top is where the containments start. -/
theorem mem_roots_iff (h : c.Consistent) (hplain : c.PlainlyLinked) :
    a ∈ c.index.roots ↔
      a ∈ c.index.requirements ∧ Graph.IsSource c.index.hierarchy a := by
  rw [Index.mem_roots_iff, h.mirrors.lowerEnds_perm.mem_iff, List.mem_filterMap]
  refine and_congr_right fun _ => ?_
  unfold Graph.IsSource Graph.Arrow
  simp only [h.mirrors.hierarchy.mem_iff, List.mem_filterMap]
  constructor
  · rintro hnone p ⟨l, hl, harrow⟩
    exact hnone ⟨l, hl, (hplain.lowerEnd?_iff hl).2 ⟨p, harrow⟩⟩
  · rintro hnone ⟨l, hl, hlower⟩
    obtain ⟨p, harrow⟩ := (hplain.lowerEnd?_iff hl).1 hlower
    exact hnone p ⟨l, hl, harrow⟩

/-- Walking up from a requirement ends at the top. -/
theorem exists_root (h : c.Consistent) (hplain : c.PlainlyLinked) (ha : a ∈ c.index.requirements) :
    ∃ root ∈ c.index.roots,
      Relation.ReflTransGen (Graph.Arrow c.index.hierarchy) root a := by
  have hacyclic : Graph.Acyclic c.index.hierarchy := h.mirrors.flag.1 h.index_acyclic
  obtain ⟨root, hsource, hpath⟩ := hacyclic.exists_source a
  refine ⟨root, (h.mem_roots_iff hplain).2 ⟨?_, hsource⟩, hpath⟩
  rcases hpath.cases_head with rfl | ⟨d, hrootd, -⟩
  · exact ha
  · exact (h.coherent.ends root d hrootd).1

theorem belowRoot (h : c.Consistent) (hplain : c.PlainlyLinked) (ha : a ∈ c.index.requirements) :
    ∃ n, c.index.BelowRoot a n := by
  obtain ⟨root, hroot, hpath⟩ := h.exists_root hplain ha
  exact Index.exists_belowRoot hroot hpath

theorem arrow_eq (h : c.Consistent) :
    Graph.Arrow c.index.hierarchy = Graph.Arrow c.store.containments := by
  funext p d
  exact propext h.mem_hierarchy

theorem mem_requirements_of_stored (h : c.Consistent) (hr : r ∈ c.store.requirements) :
    r.id ∈ c.index.requirements :=
  h.mem_requirements.2 (Store.requirement_mem_vertices.2 ⟨r, hr, rfl⟩)

theorem exists_stored (h : c.Consistent) (ha : a ∈ c.index.requirements) :
    ∃ r ∈ c.store.requirements, r.id = a :=
  Store.requirement_mem_vertices.1 (h.mem_requirements.1 ha)

end Consistent

/-- Where a run leaves requirements linked by containments and loosely only, and none of them a part
of a node, every requirement is at the top or below it along containments; those at the top are the
ones of depth zero, a containment leads at most one step deeper, and every requirement further down
has a parent one step less deep. -/
theorem run_roots_and_depths (serial itemsPerPage : Nat) (ops : List (Operation ι)) :
    let c := (fresh serial itemsPerPage).run ops
    c.PlainlyLinked →
      (∀ r ∈ c.store.requirements, ∃ root, c.AtTop root ∧
        Relation.ReflTransGen (fun p d => (p, d) ∈ c.store.containments) root.id r.id) ∧
      (∀ r ∈ c.store.requirements, c.index.depth r.id = 0 ↔ c.AtTop r) ∧
      (∀ p d, (p, d) ∈ c.store.containments → c.index.depth d ≤ c.index.depth p + 1) ∧
      ∀ r ∈ c.store.requirements, 0 < c.index.depth r.id →
        ∃ p ∈ c.store.requirements, (p.id, r.id) ∈ c.store.containments ∧
          c.index.depth p.id + 1 = c.index.depth r.id := by
  intro c hplain
  have h : c.Consistent := (consistent_fresh serial itemsPerPage).run ops
  refine ⟨fun r hr => ?_, fun r hr => ?_, fun p d hpd => ?_, fun r hr hpos => ?_⟩
  · obtain ⟨a, hroot, hpath⟩ := h.exists_root hplain (h.mem_requirements_of_stored hr)
    obtain ⟨root, hstored, rfl⟩ := h.exists_stored (c.index.roots_subset_requirements hroot)
    rw [h.arrow_eq] at hpath
    exact ⟨root, h.atTop_iff.2 ⟨hstored, hroot⟩, hpath⟩
  · obtain ⟨n, hbelow⟩ := h.belowRoot hplain (h.mem_requirements_of_stored hr)
    rw [h.coherent.depth_eq_zero_iff hbelow, h.atTop_iff]
    exact ⟨fun hroot => ⟨hr, hroot⟩, fun htop => htop.2⟩
  · rw [← h.mem_hierarchy] at hpd
    obtain ⟨n, hbelow⟩ := h.belowRoot hplain (h.coherent.ends p d hpd).1
    exact h.coherent.depth_le_succ hbelow hpd
  · obtain ⟨n, hbelow⟩ := h.belowRoot hplain (h.mem_requirements_of_stored hr)
    obtain ⟨a, harrow, hdepth⟩ := h.coherent.exists_parent_above hbelow hpos
    obtain ⟨p, hp, rfl⟩ := h.exists_stored (h.coherent.ends a r.id harrow).1
    exact ⟨p, hp, h.mem_hierarchy.1 harrow, hdepth⟩

/-- A requirement above two others, one of which is above the other as well and loosely linked to a
fourth one; the last one is linked to a node. -/
def layered : List (Operation Unit) :=
  [.putRequirement ⟨(), none, "Access", "", .empty⟩,
    .putRequirement ⟨(), none, "Login", "", .empty⟩,
    .putRequirement ⟨(), none, "Password", "", .empty⟩,
    .putRequirement ⟨(), none, "Logging", "", .empty⟩,
    .putNode ⟨(), "First", "", .empty, .standard "1" "" "" ""⟩,
    .linkRequirements (.ofSerial 0) (.ofSerial 1) .contains,
    .linkRequirements (.ofSerial 2) (.ofSerial 1) .partOf,
    .linkRequirements (.ofSerial 0) (.ofSerial 2) .contains,
    .linkRequirements (.ofSerial 1) (.ofSerial 3) .related,
    .linkNode (.ofSerial 3) (.ofSerial 4) .linkedTo]

theorem run_roots_and_depths_layered :
    let c := (fresh 0 20).run layered
    c.PlainlyLinked ∧
      (∀ r ∈ c.store.requirements, ∃ root, c.AtTop root ∧
        Relation.ReflTransGen (fun p d => (p, d) ∈ c.store.containments) root.id r.id) ∧
      c.index.roots = [.ofSerial 0, .ofSerial 3] ∧
      [0, 1, 2, 3].map (fun n => c.index.depth (.ofSerial n)) = [0, 1, 1, 0] := by
  intro c
  have hplain : c.PlainlyLinked := ⟨by decide +kernel, by decide +kernel⟩
  have hall := run_roots_and_depths 0 20 layered hplain
  exact ⟨hplain, hall.1, by decide +kernel, by decide +kernel⟩

end Crosswalk.Catalog
