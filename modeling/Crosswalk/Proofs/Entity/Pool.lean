import Crosswalk.Proofs.Entity.Cover
import Crosswalk.Proofs.Exchange.MergeKey

/-!
# What entities under one merge key add up to

Entities with one merge key are of one sort, and nodes with one merge key are of one kind. Such
entities are filled in from each other as long as none of them sets an attribute differently, and
the result has all that is set in any of them. Hyperlinks are left aside: one that is read replaces
the one read before, so it never conflicts and depends on the order.
-/

namespace Crosswalk

variable {α ι κ : Type}

/-! ### Values that were filled in -/

/-- What agrees with the collected value agrees with each of the values. -/
theorem Collects.forall_agree {blank value incoming : α} {values : Set α}
    (h : Collects blank values value) (hagree : Agree blank value incoming) :
    ∀ v ∈ values, Agree blank v incoming := by
  intro v hv
  rcases h.only v hv with rfl | rfl
  · exact .inl rfl
  · exact hagree

theorem Collects.pairwise {blank value v w : α} {values : Set α} (h : Collects blank values value)
    (hv : v ∈ values) (hw : w ∈ values) : Agree blank v w :=
  h.forall_agree ((h.only w hw).elim (fun hw => .inr (.inl hw)) fun hw => .inr (.inr hw.symm)) v hv

theorem agree_of_fillField {entity field stored incoming : String} {filled : String × Bool}
    (h : fillField entity field stored incoming = .ok filled) : Agree "" stored incoming := by
  by_contra hnot
  rw [fillField_of_not_agree hnot] at h
  cases h

theorem Requirement.agrees_of_enrich {q : Requirement ι} {r : Requirement κ}
    {filled : Requirement ι × Bool} (h : q.enrich r = .ok filled) : q.Agrees r := by
  by_contra hnot
  obtain ⟨c, herror, -⟩ := enrich_of_not_agrees hnot
  rw [herror] at h
  cases h

namespace Node

variable {m : Node ι} {n : Node κ}

theorem agree_of_fillDetail (hkind : m.kind = n.kind) {label : String} {filled : NodeDetail × Bool}
    (h : fillDetail label m.detail n.detail = .ok filled) :
    Agree "" m.sectionId n.sectionId ∧ Agree .unknown m.toolType n.toolType := by
  obtain ⟨mid, mname, mlink, mtags, mdetail⟩ := m
  obtain ⟨nid, nname, nlink, ntags, ndetail⟩ := n
  cases mdetail <;> cases ndetail
  case standard.standard =>
    obtain ⟨_, hfield, -⟩ := map_eq_ok.1 h
    exact ⟨agree_of_fillField hfield, .inl rfl⟩
  case tool.tool _ stored _ _ incoming _ =>
    refine ⟨.inl rfl, ?_⟩
    show Agree .unknown stored incoming
    by_contra hnot
    obtain ⟨hstored, hincoming, hne⟩ : stored ≠ .unknown ∧ incoming ≠ .unknown ∧
        stored ≠ incoming := by simpa [Agree] using hnot
    simp [fillDetail, hstored, hincoming, hne] at h
  case code.code => exact ⟨.inl rfl, .inl rfl⟩
  all_goals cases hkind

/-! ### Nodes without hyperlinks -/

def unlinked (n : Node ι) : Node ι :=
  { n with hyperlink := "" }

/-- What is filled in beside the hyperlink does not depend on hyperlinks. -/
theorem enrich_unlinked (stored : Node ι) (incoming : Node κ) :
    (stored.unlinked.enrich incoming.unlinked).map (·.1) =
      (stored.enrich incoming).map (·.1.unlinked) := by
  unfold enrich
  have hlabel : stored.unlinked.label = stored.label := rfl
  have hstored : stored.unlinked.detail = stored.detail := rfl
  have hincoming : incoming.unlinked.detail = incoming.detail := rfl
  rw [hlabel, hstored, hincoming]
  cases fillDetail stored.label stored.detail incoming.detail <;> rfl

theorem agrees_of_enrich (hkind : m.kind = n.kind) {filled : Node ι × Bool}
    (h : m.enrich n.unlinked = .ok filled) : m.Agrees n.unlinked := by
  obtain ⟨_, _, _, _, hdetail, -⟩ := enrich_ok h
  obtain ⟨hsection, htype⟩ := agree_of_fillDetail (n := n.unlinked) hkind hdetail
  exact ⟨hsection, htype, .inr (.inl rfl)⟩

end Node

theorem kind_of_mergeKey {n m : Node ι} (h : mergeKey (.node n) = mergeKey (.node m)) :
    n.kind = m.kind := by
  have hstart : ∀ k : Node ι, Text.cutFirst '\u001f' (mergeKey (.node k)).toList =
      some (k.kind.text.toList, ((String.singleton '\u001f').intercalate
        [k.name, k.sectionTitle, k.subsection, k.description, k.version]).toList) := by
    intro k
    rw [mergeKey_node, Node.keyParts, String.intercalate_cons_cons, String.toList_append,
      String.toList_append, String.toList_singleton, List.append_assoc]
    exact Text.cutFirst_append (by cases k.kind <;> decide)
  have hcut := (hstart n).symm.trans (h ▸ hstart m)
  simp only [Option.some.injEq, Prod.mk.injEq] at hcut
  exact NodeKind.text_injective (String.toList_inj.1 hcut.1)

/-! ### Entities -/

namespace Entity

/-- The entity without its hyperlink. -/
def unlinked : Entity ι → Entity ι
  | requirement r => requirement r
  | node n => node n.unlinked

theorem mergeKey_unlinked (e : Entity ι) : mergeKey e.unlinked = mergeKey e := by
  cases e <;> rfl

theorem fillEntity_unlinked (stored incoming : Entity Unit) :
    Merged.fillEntity stored.unlinked incoming.unlinked =
      (Merged.fillEntity stored incoming).map unlinked := by
  cases stored with
  | requirement r =>
    cases incoming with
    | requirement q =>
      simp only [Merged.fillEntity, unlinked]
      cases r.enrich q <;> rfl
    | node n => rfl
  | node m =>
    cases incoming with
    | requirement q => rfl
    | node n =>
      have hmap : ∀ x : Except Conflict (Node Unit × Bool),
          x.map (fun p => node p.1) = (x.map (·.1)).map node := by
        intro x
        cases x <;> rfl
      simp only [Merged.fillEntity, unlinked, hmap, Node.enrich_unlinked]
      cases m.enrich n <;> rfl

/-- The entity has all that is set in the entities of its sort in a set. -/
def Pools (es : Set (Entity Unit)) : Entity Unit → Prop
  | requirement q => q.Gathers {r | requirement r ∈ es}
  | node m => m.Gathers {n | node n ∈ es}

variable {e x filled : Entity Unit} {es : Set (Entity Unit)}

theorem pools_singleton (e : Entity Unit) : e.Pools {e} := by
  cases e with
  | requirement q => simpa [Pools] using Requirement.gathers_singleton (q := q) rfl rfl rfl
  | node m => simpa [Pools] using Node.gathers_singleton (m := m) rfl rfl rfl

/-- Entities that add up to one agree. -/
theorem Pools.agrees (h : e.Pools es) (hkeys : ∀ y ∈ es, mergeKey y = mergeKey e)
    {y z : Entity Unit} (hy : y ∈ es) (hz : z ∈ es) : y.Agrees z := by
  cases y <;> cases z
  case requirement.requirement r q =>
    cases e with
    | requirement p =>
      exact ⟨h.externalText.pairwise ⟨r, hy, rfl⟩ ⟨q, hz, rfl⟩,
        h.description.pairwise ⟨r, hy, rfl⟩ ⟨q, hz, rfl⟩⟩
    | node n => exact absurd (hkeys _ hy) (mergeKey_requirement_ne_node r n)
  case node.node n m =>
    cases e with
    | requirement r => exact absurd (hkeys _ hy).symm (mergeKey_requirement_ne_node r n)
    | node p =>
      exact ⟨h.sectionId.pairwise ⟨n, hy, rfl⟩ ⟨m, hz, rfl⟩,
        h.toolType.pairwise ⟨n, hy, rfl⟩ ⟨m, hz, rfl⟩,
        h.hyperlink.pairwise ⟨n, hy, rfl⟩ ⟨m, hz, rfl⟩⟩
  all_goals trivial

/-- One more entity that agrees with all others is filled in. -/
theorem Pools.exists_fill (h : e.Pools es) (hkey : mergeKey e = mergeKey x)
    (hagree : ∀ y ∈ es, y.Agrees x) :
    ∃ filled, Merged.fillEntity e x = .ok filled ∧ filled.Pools (insert x es) := by
  cases e <;> cases x
  case requirement.requirement q r =>
    obtain ⟨filled, changed, henrich, hgathers⟩ := Requirement.Gathers.enrich h
      fun r' hr' => hagree (requirement r') hr'
    refine ⟨requirement filled, ?_, ?_⟩
    · rw [Merged.fillEntity, henrich]
      rfl
    · simpa [Pools, Set.insert_def] using hgathers
  case node.node m n =>
    obtain ⟨filled, changed, henrich, hgathers⟩ := Node.Gathers.enrich h (kind_of_mergeKey hkey)
      fun n' hn' => hagree (node n') hn'
    refine ⟨node filled, ?_, ?_⟩
    · rw [Merged.fillEntity, henrich]
      rfl
    · simpa [Pools, Set.insert_def] using hgathers
  case requirement.node => exact (mergeKey_requirement_ne_node _ _ hkey).elim
  case node.requirement => exact (mergeKey_requirement_ne_node _ _ hkey.symm).elim

/-- What is filled in without a conflict agrees with all others. -/
theorem Pools.agrees_of_fill (h : e.Pools es) (hkey : mergeKey e = mergeKey x)
    (hfill : Merged.fillEntity e x.unlinked = .ok filled) : ∀ y ∈ es, y.Agrees x.unlinked := by
  intro y hy
  cases y <;> cases x
  case requirement.requirement r' r =>
    cases e with
    | requirement q =>
      obtain ⟨_, henrich, -⟩ := map_eq_ok.1 hfill
      obtain ⟨hid, hdescription⟩ := Requirement.agrees_of_enrich henrich
      exact ⟨h.externalText.forall_agree hid _ ⟨r', hy, rfl⟩,
        h.description.forall_agree hdescription _ ⟨r', hy, rfl⟩⟩
    | node m => exact (mergeKey_requirement_ne_node _ _ hkey.symm).elim
  case node.node n' n =>
    cases e with
    | requirement q => exact (mergeKey_requirement_ne_node _ _ hkey).elim
    | node m =>
      obtain ⟨_, henrich, -⟩ := map_eq_ok.1 hfill
      obtain ⟨hsection, htype, hlink⟩ := Node.agrees_of_enrich (kind_of_mergeKey hkey) henrich
      exact ⟨h.sectionId.forall_agree hsection _ ⟨n', hy, rfl⟩,
        h.toolType.forall_agree htype _ ⟨n', hy, rfl⟩,
        h.hyperlink.forall_agree hlink _ ⟨n', hy, rfl⟩⟩
  all_goals trivial

end Entity

end Crosswalk
