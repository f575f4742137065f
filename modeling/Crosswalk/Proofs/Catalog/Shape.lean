import Crosswalk.Catalog.Lookup
import Crosswalk.Proofs.Catalog.Consistent
import Crosswalk.Proofs.Index.Renaming
import Crosswalk.Proofs.Text.Order

/-!
# The shape of a hierarchy

What a hierarchy looks like to a reader is which requirements are at its top and how deep every
requirement lies. Both depend on the graph alone, and the order in which the top is listed on the
names and public identifiers. So catalogues with the same requirements, under other identities, show
one shape when their graphs agree.
-/

namespace Crosswalk.Catalog

/-- Whether the hierarchies of two catalogues have one shape: the same requirements are at the top, in
the same order, and every requirement lies as deep. -/
structure SameShape (f : StoredId → StoredId) (c c' : Catalog) : Prop where
  roots : c'.rootRequirements.map Document.entity =
    c.rootRequirements.map fun d => d.entity.withId (f d.entity.id)
  depths : ∀ r ∈ c.store.requirements, c'.index.depth (f r.id) = c.index.depth r.id

variable {c c' : Catalog} {f : StoredId → StoredId}

theorem SameShape.names_eq (h : SameShape f c c') :
    c'.rootRequirements.map Document.name = c.rootRequirements.map Document.name := by
  have hnames := congrArg (List.map Entity.name) h.roots
  rw [List.map_map, List.map_map] at hnames
  refine hnames.trans (List.map_congr_left fun d _ => ?_)
  show (d.entity.withId _).name = d.entity.name
  cases d.entity <;> rfl

/-- The requirements at the top, before they are put in order. -/
def unsortedRoots (c : Catalog) : List (Requirement StoredId) :=
  c.index.roots.filterMap c.store.requirement?

theorem rootRequirements_eq (c : Catalog) :
    c.rootRequirements =
      (Store.sortRequirements c.unsortedRoots).map fun r => c.store.hydrate (.requirement r) :=
  rfl

theorem names_of_single_root {name : String} (h : c.unsortedRoots.map Requirement.name = [name]) :
    c.rootRequirements.map Document.name = [name] := by
  obtain ⟨r, hr, rfl⟩ := List.map_eq_singleton_iff.1 h
  rw [rootRequirements_eq, hr, Store.sortRequirements, Text.sortOn_singleton]
  rfl

theorem Consistent.unsortedRoots_perm (h : c.Consistent) (h' : c'.Consistent)
    (hrequirements : c'.store.requirements.Perm
      (c.store.requirements.map fun r => r.withId (f r.id)))
    (hrenames : c.index.Renames f c'.index) :
    c'.unsortedRoots.Perm (c.unsortedRoots.map fun r => r.withId (f r.id)) := by
  refine (hrenames.roots_perm.filterMap _).trans (.of_eq ?_)
  rw [List.filterMap_map, unsortedRoots, List.map_filterMap]
  refine List.filterMap_congr fun a ha => ?_
  have hroot := h.mem_requirements.1 (c.index.roots_subset_requirements ha)
  obtain ⟨r, hr, rfl⟩ := Store.requirement_mem_vertices.1 hroot
  have hcopy : r.withId (f r.id) ∈ c'.store.requirements :=
    hrequirements.mem_iff.2 (List.mem_map.2 ⟨r, hr, rfl⟩)
  have hfound := h.sound.requirement?_iff.2 ⟨hr, rfl⟩
  have hfound' : c'.store.requirement? (f r.id) = some (r.withId (f r.id)) :=
    h'.sound.requirement?_iff.2 ⟨hcopy, rfl⟩
  show c'.store.requirement? (f r.id) = _
  rw [hfound, hfound']
  rfl

/-- Catalogues whose graphs agree have hierarchies of one shape. -/
theorem Consistent.sameShape (h : c.Consistent) (h' : c'.Consistent)
    (hrequirements : c'.store.requirements.Perm
      (c.store.requirements.map fun r => r.withId (f r.id)))
    (hrenames : c.index.Renames f c'.index) : SameShape f c c' where
  roots := by
    have hkey : ∀ r ∈ c'.unsortedRoots, ∀ q ∈ c'.unsortedRoots,
        Store.requirementKey r = Store.requirementKey q → r = q := by
      intro r hr q hq heq
      obtain ⟨a, -, hr⟩ := List.mem_filterMap.1 hr
      obtain ⟨b, -, hq⟩ := List.mem_filterMap.1 hq
      have hnames : r.name = q.name := congrArg (fun key => key.getLast?.getD "") heq
      exact Keyed.eq_of_key h'.sound.names_nodup (h'.sound.requirement?_iff.1 hr).1
        (h'.sound.requirement?_iff.1 hq).1 hnames
    have hsorted : Store.sortRequirements c'.unsortedRoots =
        (Store.sortRequirements c.unsortedRoots).map fun r => r.withId (f r.id) := by
      unfold Store.sortRequirements
      rw [Text.sortOn_congr (h.unsortedRoots_perm h' hrequirements hrenames) hkey, Text.sortOn_map]
      rfl
    rw [rootRequirements_eq, rootRequirements_eq, hsorted, List.map_map, List.map_map, List.map_map]
    rfl
  depths := by
    intro r hr
    refine hrenames.depth_eq (h.mem_requirements.2 ?_)
    exact Store.requirement_mem_vertices.2 ⟨r, hr, rfl⟩

end Crosswalk.Catalog
