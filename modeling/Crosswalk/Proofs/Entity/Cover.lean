import Crosswalk.Proofs.Entity.Gather
import Crosswalk.Proofs.Entity.Growth

/-!
# What filling in brings about

Filling in succeeds exactly if no attribute is set differently in the two entities. The filled entity
then covers the incoming one: whatever is set there is set alike here, so that filling it in once more
changes nothing. Otherwise the conflict names an attribute and the two texts that differ.
-/

namespace Crosswalk

variable {ι κ : Type}

/-! ### Fields -/

section

variable {entity field stored incoming text : String} {changed : Bool}

theorem fillField_of_covered (h : incoming = "" ∨ stored = incoming) :
    fillField entity field stored incoming = .ok (stored, false) := by
  unfold fillField
  rw [if_pos h]

theorem fillField_of_not_agree (h : ¬ Agree "" stored incoming) :
    fillField entity field stored incoming = .error ⟨entity, field, stored, incoming⟩ := by
  obtain ⟨hstored, hincoming, hne⟩ : stored ≠ "" ∧ incoming ≠ "" ∧ stored ≠ incoming := by
    simpa only [Agree, not_or] using h
  unfold fillField
  rw [if_neg (not_or.2 ⟨hincoming, hne⟩), if_neg hstored]

/-- A field that is filled holds the incoming text, unless that is blank. -/
theorem fillField_covers (h : fillField entity field stored incoming = .ok (text, changed)) :
    (incoming = "" ∨ text = incoming) ∧
      (changed = false → text = stored) ∧ (changed = true → incoming ≠ "") := by
  unfold fillField at h
  split at h
  · rename_i hcovered
    cases h
    exact ⟨hcovered, fun _ => rfl, nofun⟩
  · rename_i hnot
    split at h
    · cases h
      exact ⟨.inr rfl, nofun, fun _ => (not_or.1 hnot).1⟩
    · cases h

end

/-! ### Requirements -/

namespace Requirement

variable {q filled : Requirement ι} {r : Requirement κ} {changed : Bool}

/-- Whatever is set in the second requirement is set alike in the first one. -/
structure Covers (q : Requirement ι) (r : Requirement κ) : Prop where
  externalId : r.externalId ≠ none → q.externalId = r.externalId
  description : r.description ≠ "" → q.description = r.description
  tags : r.tags.toList ⊆ q.tags.toList

/-- What is reported when a requirement is not filled in: an attribute that is set in both
requirements, with the two texts, which differ. -/
structure Contradicts (q : Requirement ι) (r : Requirement κ) (c : Conflict) : Prop where
  entity : c.entity = q.label
  differ : ¬ Agree "" c.existing c.incoming
  field : (c.field = "external_id" ∧ c.existing = q.externalText ∧ c.incoming = r.externalText) ∨
    (c.field = "description" ∧ c.existing = q.description ∧ c.incoming = r.description)

theorem Covers.externalText (h : q.Covers r) :
    r.externalText = "" ∨ q.externalText = r.externalText := by
  by_cases hnone : r.externalId = none
  · left
    rw [Requirement.externalText, hnone]
    rfl
  · right
    rw [Requirement.externalText, h.externalId hnone]
    rfl

theorem Covers.enrich (h : q.Covers r) : q.enrich r = .ok (q, false) := by
  have htags : q.tags.union r.tags = q.tags := TagSet.union_eq_left h.tags
  have hdescription : r.description = "" ∨ q.description = r.description :=
    or_iff_not_imp_left.2 h.description
  simp only [Requirement.enrich, fillExternalId, fillField_of_covered h.externalText,
    fillField_of_covered hdescription, addTags, htags, Except.map, bind, Except.bind, pure,
    Except.pure, bne_self_eq_false, Bool.or_false]
  rfl

theorem fillExternalId_covers {externalId : Option ExternalId}
    (h : fillExternalId q r = .ok (externalId, changed)) (hset : r.externalId ≠ none) :
    externalId = r.externalId := by
  obtain ⟨⟨text, fieldChanged⟩, hfield, hmap⟩ := map_eq_ok.1 h
  cases hmap
  obtain ⟨htext, hkept, -⟩ := fillField_covers hfield
  have hincoming : text = r.externalText := htext.resolve_left (externalText_ne_empty hset)
  cases changed with
  | true => rfl
  | false => exact ExternalId.textOf_injective ((hkept rfl).symm.trans hincoming)

theorem covers_of_enrich (h : q.enrich r = .ok (filled, changed)) : filled.Covers r := by
  obtain ⟨externalId, _, description, _, tags, _, hid, htext, htags, rfl, -⟩ := enrich_ok h
  refine ⟨fillExternalId_covers hid, fun hset => ?_, ?_⟩
  · exact (fillField_covers htext).1.resolve_left hset
  · cases htags
    exact fun t ht => TagSet.mem_union.2 (.inr ht)

theorem enrich_of_not_agrees (h : ¬ q.Agrees r) :
    ∃ c, q.enrich r = .error c ∧ q.Contradicts r c := by
  by_cases hid : Agree "" q.externalText r.externalText
  · have hdescription : ¬ Agree "" q.description r.description := fun hd => h ⟨hid, hd⟩
    obtain ⟨externalId, changed, hfill, -⟩ := fillExternalId_of_agree hid
    refine ⟨⟨q.label, "description", q.description, r.description⟩, ?_, rfl, hdescription,
      .inr ⟨rfl, rfl, rfl⟩⟩
    unfold Requirement.enrich
    rw [hfill, fillField_of_not_agree hdescription]
    rfl
  · refine ⟨⟨q.label, "external_id", q.externalText, r.externalText⟩, ?_, rfl, hid,
      .inl ⟨rfl, rfl, rfl⟩⟩
    unfold Requirement.enrich fillExternalId
    rw [fillField_of_not_agree hid]
    rfl

end Requirement

end Crosswalk
