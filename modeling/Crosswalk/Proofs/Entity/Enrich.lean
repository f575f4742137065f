import Crosswalk.Document
import Crosswalk.Proofs.TagSet

/-!
# Filling in entities

Filling in keeps the identity and the natural key of what is stored. When the flag says that nothing
changed, the stored entity is the same as before; an entity with the same attributes changes nothing.
-/

namespace Crosswalk

variable {ι κ : Type}

/-! ### Results -/

section

variable {ε α β γ : Type} {x : Except ε α}

theorem bind_eq_ok {f : α → Except ε β} {b : β} :
    x >>= f = .ok b ↔ ∃ a, x = .ok a ∧ f a = .ok b := by
  cases x <;> simp [bind, Except.bind]

theorem map_eq_ok {f : α → β} {b : β} : x.map f = .ok b ↔ ∃ a, x = .ok a ∧ f a = b := by
  cases x <;> simp [Except.map]

theorem map_eq_error {f : α → β} {e : ε} : x.map f = .error e ↔ x = .error e := by
  cases x <;> simp [Except.map]

theorem exists_ok_of_toOption {f : α → β} {b : β} (h : x.toOption.map f = some b) :
    ∃ a, x = .ok a ∧ f a = b := by
  cases x with
  | error e => cases h
  | ok a => exact ⟨a, rfl, Option.some.inj h⟩

section

variable {f : α → Except ε β} {items : List α} {results : List β}

theorem ok_of_mapM (h : items.mapM f = .ok results) : ∀ a ∈ items, ∃ b, f a = .ok b := by
  induction items generalizing results with
  | nil => simp
  | cons a items ih =>
    rw [List.mapM_cons] at h
    obtain ⟨first, hfirst, h⟩ := bind_eq_ok.1 h
    obtain ⟨rest, hrest, -⟩ := bind_eq_ok.1 h
    simpa using ⟨⟨first, hfirst⟩, ih hrest⟩

theorem mem_mapM (h : items.mapM f = .ok results) {b : β} :
    b ∈ results ↔ ∃ a ∈ items, f a = .ok b := by
  induction items generalizing results with
  | nil =>
    cases h
    simp
  | cons a items ih =>
    rw [List.mapM_cons] at h
    obtain ⟨first, hfirst, h⟩ := bind_eq_ok.1 h
    obtain ⟨rest, hrest, h⟩ := bind_eq_ok.1 h
    cases h
    simp [ih hrest, hfirst, eq_comm]

theorem map_of_mapM {g : α → γ} {g' : β → γ} (hf : ∀ {a b}, f a = .ok b → g' b = g a)
    (h : items.mapM f = .ok results) : results.map g' = items.map g := by
  induction items generalizing results with
  | nil =>
    cases h
    rfl
  | cons a items ih =>
    rw [List.mapM_cons] at h
    obtain ⟨first, hfirst, h⟩ := bind_eq_ok.1 h
    obtain ⟨rest, hrest, h⟩ := bind_eq_ok.1 h
    cases h
    rw [List.map_cons, List.map_cons, hf hfirst, ih hrest]

end

end

/-! ### Fields -/

theorem fillField_unchanged {entity field stored incoming text : String}
    (h : fillField entity field stored incoming = .ok (text, false)) : text = stored := by
  unfold fillField at h
  split at h
  · exact (congrArg Prod.fst (Except.ok.inj h)).symm
  · split at h
    · exact absurd (congrArg Prod.snd (Except.ok.inj h)) (by simp)
    · cases h

theorem fillField_self (entity field text : String) :
    fillField entity field text text = .ok (text, false) := by
  unfold fillField
  rw [if_pos (.inr rfl)]

theorem fillField_blank (entity field text : String) :
    fillField entity field text "" = .ok (text, false) := by
  unfold fillField
  rw [if_pos (.inl rfl)]

theorem addTags_unchanged {stored incoming tags : TagSet}
    (h : addTags stored incoming = (tags, false)) : tags = stored := by
  simp only [addTags, Prod.mk.injEq, bne_eq_false_iff_eq] at h
  rw [← h.1]
  exact TagSet.eq_of_size_union h.2

theorem addTags_self (tags : TagSet) : addTags tags tags = (tags, false) := by
  have h : tags.union tags = tags := TagSet.union_eq_left fun _ ht => ht
  simp [addTags, h]

/-! ### Requirements -/

namespace Requirement

theorem enrich_ok {stored filled : Requirement ι} {incoming : Requirement κ} {changed : Bool}
    (h : stored.enrich incoming = .ok (filled, changed)) :
    ∃ externalId idChanged description textChanged tags tagsChanged,
      fillExternalId stored incoming = .ok (externalId, idChanged) ∧
      fillField stored.label "description" stored.description incoming.description =
        .ok (description, textChanged) ∧
      addTags stored.tags incoming.tags = (tags, tagsChanged) ∧
      filled = { stored with externalId, description, tags } ∧
      changed = (idChanged || textChanged || tagsChanged) := by
  obtain ⟨⟨externalId, idChanged⟩, hid, h⟩ := bind_eq_ok.1 h
  obtain ⟨⟨description, textChanged⟩, htext, h⟩ := bind_eq_ok.1 h
  cases h
  exact ⟨_, _, _, _, _, _, hid, htext, rfl, rfl, rfl⟩

theorem enrich_id {stored filled : Requirement ι} {incoming : Requirement κ} {changed : Bool}
    (h : stored.enrich incoming = .ok (filled, changed)) : filled.id = stored.id := by
  obtain ⟨_, _, _, _, _, _, -, -, -, rfl, -⟩ := enrich_ok h
  rfl

theorem enrich_name {stored filled : Requirement ι} {incoming : Requirement κ} {changed : Bool}
    (h : stored.enrich incoming = .ok (filled, changed)) : filled.name = stored.name := by
  obtain ⟨_, _, _, _, _, _, -, -, -, rfl, -⟩ := enrich_ok h
  rfl

theorem fillExternalId_unchanged {stored : Requirement ι} {incoming : Requirement κ}
    {externalId : Option ExternalId} (h : fillExternalId stored incoming = .ok (externalId, false)) :
    externalId = stored.externalId := by
  obtain ⟨⟨text, changed⟩, -, h⟩ := map_eq_ok.1 h
  obtain ⟨rfl, rfl⟩ := Prod.mk.inj h
  rfl

theorem enrich_unchanged {stored filled : Requirement ι} {incoming : Requirement κ}
    (h : stored.enrich incoming = .ok (filled, false)) : filled = stored := by
  obtain ⟨externalId, idChanged, description, textChanged, tags, tagsChanged, hid, htext, htags,
    rfl, hchanged⟩ := enrich_ok h
  have hall : idChanged = false ∧ textChanged = false ∧ tagsChanged = false := by
    simpa [and_assoc] using hchanged.symm
  obtain ⟨rfl, rfl, rfl⟩ := hall
  rw [fillExternalId_unchanged hid, fillField_unchanged htext, addTags_unchanged htags]

theorem enrich_self {stored : Requirement ι} {incoming : Requirement κ}
    (hid : incoming.externalId = stored.externalId)
    (htext : incoming.description = stored.description) (htags : incoming.tags = stored.tags) :
    stored.enrich incoming = .ok (stored, false) := by
  have hexternal : incoming.externalText = stored.externalText := by
    simp only [externalText, hid]
  simp only [enrich, fillExternalId, hexternal, htext, htags, fillField_self, addTags_self,
    Except.map, bind, Except.bind, pure, Except.pure]
  rfl

end Requirement

/-! ### Nodes -/

namespace Node

theorem enrich_ok {stored filled : Node ι} {incoming : Node κ} {changed : Bool}
    (h : stored.enrich incoming = .ok (filled, changed)) :
    ∃ detail detailChanged tags tagsChanged,
      fillDetail stored.label stored.detail incoming.detail = .ok (detail, detailChanged) ∧
      addTags stored.tags incoming.tags = (tags, tagsChanged) ∧
      filled = { stored with
        hyperlink :=
          if incoming.hyperlink != "" && stored.hyperlink != incoming.hyperlink then
            incoming.hyperlink else stored.hyperlink
        tags, detail } ∧
      changed = (detailChanged ||
        (incoming.hyperlink != "" && stored.hyperlink != incoming.hyperlink) || tagsChanged) := by
  obtain ⟨⟨detail, detailChanged⟩, hdetail, h⟩ := bind_eq_ok.1 h
  cases h
  exact ⟨_, _, _, _, hdetail, rfl, rfl, rfl⟩

/-- Filling in a detail leaves it as it is, fills the section number or tells an unknown type. -/
theorem fillDetail_cases {label : String} {stored incoming detail : NodeDetail} {changed : Bool}
    (h : fillDetail label stored incoming = .ok (detail, changed)) :
    (detail = stored ∧ changed = false) ∨
    (∃ title subsection sectionId incomingId filledId version,
      stored = .standard title subsection sectionId version ∧
      fillField label "section_id" sectionId incomingId = .ok (filledId, changed) ∧
      detail = .standard title subsection filledId version) ∨
    (∃ rule type description, stored = .tool rule .unknown description ∧
      detail = .tool rule type description ∧ changed = true) := by
  unfold fillDetail at h
  split at h
  · obtain ⟨⟨filledId, fieldChanged⟩, hfield, hmap⟩ := map_eq_ok.1 h
    cases hmap
    exact .inr (.inl ⟨_, _, _, _, _, _, rfl, hfield, rfl⟩)
  · split at h
    · cases h
      exact .inl ⟨rfl, rfl⟩
    · split at h
      · rename_i hunknown
        cases h
        exact .inr (.inr ⟨_, _, _, by rw [hunknown], rfl, rfl⟩)
      · cases h
  · cases h
    exact .inl ⟨rfl, rfl⟩

theorem fillDetail_ok {label : String} {stored incoming detail : NodeDetail} {changed : Bool}
    (h : fillDetail label stored incoming = .ok (detail, changed)) :
    (changed = false → detail = stored) ∧
      ∀ (n : Node ι), n.detail = stored → ({ n with detail } : Node ι).key = n.key := by
  rcases fillDetail_cases h with ⟨rfl, -⟩ | ⟨title, subsection, _, _, _, version, rfl, hfield, rfl⟩ |
    ⟨rule, type, description, rfl, rfl, rfl⟩
  · exact ⟨fun _ => rfl, fun n hn => by rw [← hn]⟩
  · refine ⟨?_, fun n hn => ?_⟩
    · rintro rfl
      rw [fillField_unchanged hfield]
    · simp [Node.key, Node.sectionTitle, Node.subsection, Node.kind, Node.description,
        Node.version, NodeDetail.kind, hn]
  · refine ⟨fun hc => absurd hc (by simp), fun n hn => ?_⟩
    simp [Node.key, Node.sectionTitle, Node.subsection, Node.kind, Node.description,
      Node.version, NodeDetail.kind, hn]

theorem fillDetail_self (label : String) (detail : NodeDetail) :
    fillDetail label detail detail = .ok (detail, false) := by
  cases detail with
  | standard title subsection sectionId version =>
    simp only [fillDetail, fillField_self, Except.map]
  | tool rule type description => simp only [fillDetail, or_true, if_true]
  | code description => rfl

theorem enrich_id {stored filled : Node ι} {incoming : Node κ} {changed : Bool}
    (h : stored.enrich incoming = .ok (filled, changed)) : filled.id = stored.id := by
  obtain ⟨_, _, _, _, -, -, rfl, -⟩ := enrich_ok h
  rfl

theorem enrich_key {stored filled : Node ι} {incoming : Node κ} {changed : Bool}
    (h : stored.enrich incoming = .ok (filled, changed)) : filled.key = stored.key := by
  obtain ⟨detail, _, _, _, hdetail, -, rfl, -⟩ := enrich_ok h
  exact (fillDetail_ok hdetail).2 stored rfl

theorem enrich_unchanged {stored filled : Node ι} {incoming : Node κ}
    (h : stored.enrich incoming = .ok (filled, false)) : filled = stored := by
  obtain ⟨detail, detailChanged, tags, tagsChanged, hdetail, htags, rfl, hchanged⟩ := enrich_ok h
  have hall := hchanged.symm
  rw [Bool.or_eq_false_iff, Bool.or_eq_false_iff] at hall
  obtain ⟨⟨rfl, hlink⟩, rfl⟩ := hall
  rw [hlink, (fillDetail_ok (ι := ι) hdetail).1 rfl, addTags_unchanged htags]
  rfl

theorem enrich_self {stored : Node ι} {incoming : Node κ}
    (hlink : incoming.hyperlink = stored.hyperlink) (htags : incoming.tags = stored.tags)
    (hdetail : incoming.detail = stored.detail) :
    stored.enrich incoming = .ok (stored, false) := by
  simp [enrich, hlink, htags, hdetail, fillDetail_self, addTags_self, bind, Except.bind, pure,
    Except.pure]

end Node

end Crosswalk
