import Crosswalk.Proofs.Entity.Growth
import Crosswalk.Proofs.Store.Put

/-!
# Stores that grow

A store grows when whatever it holds under an identity stays under that identity, perhaps with more
set. Putting an entity makes a sound store grow: the match is filled in, or the entity comes in
beside the others.
-/

namespace Crosswalk.Store

variable {ι : Type}

/-- What the first store holds under an identity, the second one holds as well, perhaps with more
set. -/
structure Grows (s t : Store) : Prop where
  requirements : ∀ id r, s.requirement? id = some r → ∃ r', t.requirement? id = some r' ∧ r.Grows r'
  nodes : ∀ id n, s.node? id = some n → ∃ n', t.node? id = some n' ∧ n.Grows n'

namespace Grows

variable {s t u : Store}

theorem refl (s : Store) : s.Grows s :=
  ⟨fun _ r h => ⟨r, h, .refl r⟩, fun _ n h => ⟨n, h, .refl n⟩⟩

theorem trans (h : s.Grows t) (h' : t.Grows u) : s.Grows u where
  requirements := by
    intro id r hr
    obtain ⟨r', hr', hgrows⟩ := h.requirements id r hr
    obtain ⟨r'', hr'', hgrows'⟩ := h'.requirements id r' hr'
    exact ⟨r'', hr'', hgrows.trans hgrows'⟩
  nodes := by
    intro id n hn
    obtain ⟨n', hn', hgrows⟩ := h.nodes id n hn
    obtain ⟨n'', hn'', hgrows'⟩ := h'.nodes id n' hn'
    exact ⟨n'', hn'', hgrows.trans hgrows'⟩

theorem of_entities (hrequirements : t.requirements = s.requirements) (hnodes : t.nodes = s.nodes) :
    s.Grows t where
  requirements := by
    intro id r hr
    rw [requirement?, ← hrequirements] at hr
    exact ⟨r, hr, .refl r⟩
  nodes := by
    intro id n hn
    rw [node?, ← hnodes] at hn
    exact ⟨n, hn, .refl n⟩

/-- In sound stores it is enough to know that every entity has grown into one that is stored. -/
theorem of_mem (hs : s.Sound) (ht : t.Sound)
    (hrequirements : ∀ r ∈ s.requirements, ∃ r' ∈ t.requirements, r.Grows r')
    (hnodes : ∀ n ∈ s.nodes, ∃ n' ∈ t.nodes, n.Grows n') : s.Grows t where
  requirements := by
    intro id r hr
    obtain ⟨hmem, rfl⟩ := hs.requirement?_iff.1 hr
    obtain ⟨r', hr', hgrows⟩ := hrequirements r hmem
    exact ⟨r', ht.requirement?_iff.2 ⟨hr', hgrows.id⟩, hgrows⟩
  nodes := by
    intro id n hn
    obtain ⟨hmem, rfl⟩ := hs.node?_iff.1 hn
    obtain ⟨n', hn', hgrows⟩ := hnodes n hmem
    exact ⟨n', ht.node?_iff.2 ⟨hn', hgrows.id⟩, hgrows⟩

end Grows

variable {s : Store}

theorem Sound.grows_replaceRequirement (h : s.Sound) {old filled : Requirement StoredId}
    (hold : old ∈ s.requirements) (hgrows : old.Grows filled) :
    s.Grows (s.replaceRequirement filled) := by
  have hsound := (h.replaceRequirement hold hgrows.id hgrows.name).1
  refine .of_mem h hsound (fun r hr => ?_) fun n hn => ⟨n, hn, .refl n⟩
  by_cases hid : r.id = filled.id
  · obtain rfl := Keyed.eq_of_key h.requirementIds_nodup hr hold (hid.trans hgrows.id)
    exact ⟨filled, List.mem_map.2 ⟨r, hr, if_pos hid⟩, hgrows⟩
  · exact ⟨r, List.mem_map.2 ⟨r, hr, if_neg hid⟩, .refl r⟩

theorem Sound.grows_replaceNode (h : s.Sound) {old filled : Node StoredId} (hold : old ∈ s.nodes)
    (hgrows : old.Grows filled) : s.Grows (s.replaceNode filled) := by
  have hsound := (h.replaceNode hold hgrows.id hgrows.key).1
  refine .of_mem h hsound (fun r hr => ⟨r, hr, .refl r⟩) fun n hn => ?_
  by_cases hid : n.id = filled.id
  · obtain rfl := Keyed.eq_of_key h.nodeIds_nodup hn hold (hid.trans hgrows.id)
    exact ⟨filled, List.mem_map.2 ⟨n, hn, if_pos hid⟩, hgrows⟩
  · exact ⟨n, List.mem_map.2 ⟨n, hn, if_neg hid⟩, .refl n⟩

theorem Sound.grows_putRequirement (h : s.Sound) {r : Requirement ι}
    {stored : Requirement StoredId} {s' : Store} (hput : s.putRequirement r = .ok (stored, s')) :
    s.Grows s' := by
  rcases putRequirement_ok h hput with ⟨old, hold, -, ⟨_, hfill⟩, rfl⟩ | ⟨hname, hnew, -, rfl⟩
  · exact h.grows_replaceRequirement hold (Requirement.grows_enrich hfill)
  · exact .of_mem h (h.withRequirement hname hnew).1
      (fun q hq => ⟨q, List.mem_append_left _ hq, .refl q⟩) fun n hn => ⟨n, hn, .refl n⟩

theorem Sound.grows_putNode (h : s.Sound) {n : Node ι} {stored : Node StoredId} {s' : Store}
    (hput : s.putNode n = .ok (stored, s')) : s.Grows s' := by
  rcases putNode_ok h hput with ⟨old, hold, -, ⟨_, hfill⟩, rfl⟩ | ⟨hname, hnew, -, rfl⟩
  · exact h.grows_replaceNode hold (Node.grows_enrich hfill)
  · exact .of_mem h (h.withNode hname hnew).1 (fun q hq => ⟨q, hq, .refl q⟩)
      fun m hm => ⟨m, List.mem_append_left _ hm, .refl m⟩

end Crosswalk.Store
