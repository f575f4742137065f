import Crosswalk.Proofs.Entity.Enrich

/-!
# What filling in keeps

Filling in never takes anything back. A requirement keeps its name and whatever public identifier and
description it has, a node keeps its key and whatever section number and tool type it has; both keep
their tags. Only the hyperlink of a node may be replaced, and never by an empty one.
-/

namespace Crosswalk

variable {ι κ : Type}

/-! ### Fields -/

theorem fillField_of_set {entity field stored incoming text : String} {changed : Bool}
    (h : fillField entity field stored incoming = .ok (text, changed)) (hset : stored ≠ "") :
    text = stored ∧ changed = false := by
  unfold fillField at h
  split at h
  · cases h
    exact ⟨rfl, rfl⟩
  · cases h

theorem subset_addTags {stored incoming tags : TagSet} {changed : Bool}
    (h : addTags stored incoming = (tags, changed)) : stored.toList ⊆ tags.toList := by
  cases h
  exact fun _ ht => TagSet.mem_union.2 (.inl ht)

/-! ### Requirements -/

namespace Requirement

/-- The second requirement is the first one, perhaps with more set. -/
structure Grows (r r' : Requirement ι) : Prop where
  id : r'.id = r.id
  name : r'.name = r.name
  externalId : r.externalId ≠ none → r'.externalId = r.externalId
  description : r.description ≠ "" → r'.description = r.description
  tags : r.tags.toList ⊆ r'.tags.toList

theorem Grows.refl (r : Requirement ι) : r.Grows r :=
  ⟨rfl, rfl, fun _ => rfl, fun _ => rfl, fun _ ht => ht⟩

theorem Grows.trans {r r' r'' : Requirement ι} (h : r.Grows r') (h' : r'.Grows r'') :
    r.Grows r'' where
  id := h'.id.trans h.id
  name := h'.name.trans h.name
  externalId := by
    intro hset
    have hfirst := h.externalId hset
    exact (h'.externalId (hfirst ▸ hset)).trans hfirst
  description := by
    intro hset
    have hfirst := h.description hset
    exact (h'.description (hfirst ▸ hset)).trans hfirst
  tags := fun _ ht => h'.tags (h.tags ht)

theorem externalText_ne_empty {r : Requirement ι} (h : r.externalId ≠ none) :
    r.externalText ≠ "" := by
  obtain ⟨id, hid⟩ := Option.ne_none_iff_exists'.1 h
  rw [externalText, hid]
  exact id.text_ne_empty

theorem fillExternalId_of_set {stored : Requirement ι} {incoming : Requirement κ}
    {externalId : Option ExternalId} {changed : Bool}
    (h : fillExternalId stored incoming = .ok (externalId, changed))
    (hset : stored.externalId ≠ none) : externalId = stored.externalId := by
  obtain ⟨⟨text, fieldChanged⟩, hfield, hmap⟩ := map_eq_ok.1 h
  obtain ⟨-, rfl⟩ := fillField_of_set hfield (externalText_ne_empty hset)
  cases hmap
  rfl

theorem grows_enrich {stored filled : Requirement ι} {incoming : Requirement κ} {changed : Bool}
    (h : stored.enrich incoming = .ok (filled, changed)) : stored.Grows filled := by
  obtain ⟨externalId, _, description, _, tags, _, hid, htext, htags, rfl, -⟩ := enrich_ok h
  exact ⟨rfl, rfl, fillExternalId_of_set hid, fun hset => (fillField_of_set htext hset).1,
    subset_addTags htags⟩

end Requirement

/-! ### Nodes -/

namespace Node

/-- The second node is the first one, perhaps with more set and with another hyperlink. -/
structure Grows (n n' : Node ι) : Prop where
  id : n'.id = n.id
  /-- The name, the section or rule, the subsection, the kind, the description and the version. -/
  key : n'.key = n.key
  sectionId : n.sectionId ≠ "" → n'.sectionId = n.sectionId
  toolType : ∀ type, n.toolType? = some type → type ≠ .unknown → n'.toolType? = some type
  tags : n.tags.toList ⊆ n'.tags.toList
  hyperlink : n.hyperlink ≠ "" → n'.hyperlink ≠ ""

theorem Grows.refl (n : Node ι) : n.Grows n :=
  ⟨rfl, rfl, fun _ => rfl, fun _ h _ => h, fun _ ht => ht, fun h => h⟩

theorem Grows.trans {n n' n'' : Node ι} (h : n.Grows n') (h' : n'.Grows n'') : n.Grows n'' where
  id := h'.id.trans h.id
  key := h'.key.trans h.key
  sectionId := by
    intro hset
    have hfirst := h.sectionId hset
    exact (h'.sectionId (hfirst ▸ hset)).trans hfirst
  toolType := fun type htype hknown => h'.toolType type (h.toolType type htype hknown) hknown
  tags := fun _ ht => h'.tags (h.tags ht)
  hyperlink := fun hset => h'.hyperlink (h.hyperlink hset)

/-- What is set in the detail of a stored node stays. -/
theorem fillDetail_of_set {n : Node ι} {incoming detail : NodeDetail} {changed : Bool}
    (h : fillDetail n.label n.detail incoming = .ok (detail, changed)) :
    (n.sectionId ≠ "" → ({ n with detail } : Node ι).sectionId = n.sectionId) ∧
      ∀ type, n.toolType? = some type → type ≠ .unknown →
        ({ n with detail } : Node ι).toolType? = some type := by
  obtain ⟨id, name, hyperlink, tags, stored⟩ := n
  rcases fillDetail_cases h with ⟨rfl, -⟩ | ⟨_, _, _, _, _, _, rfl, hfield, rfl⟩ |
    ⟨rule, type, description, rfl, rfl, -⟩
  · exact ⟨fun _ => rfl, fun _ htype _ => htype⟩
  · exact ⟨fun hset => (fillField_of_set hfield hset).1, fun _ htype _ => by cases htype⟩
  · refine ⟨fun _ => rfl, fun _ htype hknown => ?_⟩
    cases htype
    exact absurd rfl hknown

theorem grows_enrich {stored filled : Node ι} {incoming : Node κ} {changed : Bool}
    (h : stored.enrich incoming = .ok (filled, changed)) : stored.Grows filled := by
  have hkey := enrich_key h
  obtain ⟨detail, _, tags, _, hdetail, htags, rfl, -⟩ := enrich_ok h
  obtain ⟨hsection, htype⟩ := fillDetail_of_set hdetail
  refine ⟨rfl, hkey, hsection, htype, subset_addTags htags, fun hset => ?_⟩
  dsimp only
  split
  · rename_i hlink
    rw [Bool.and_eq_true, bne_iff_ne] at hlink
    exact hlink.1
  · exact hset

end Node

end Crosswalk
