import Crosswalk.Exchange.Merge
import Crosswalk.Proofs.Entity.Enrich

/-!
# What a sheet holds of an entity

A sheet holds neither identities nor tags, and of a requirement that is named as the other end of a
link it holds the name and the public identifier only. Entities that are read from a sheet for one
entity fill each other in without a conflict, whatever their order.
-/

namespace Crosswalk

variable {ι : Type}

/-- The requirement without its identity and tags. -/
def Requirement.bare (r : Requirement ι) : Requirement Unit :=
  ⟨(), r.externalId, r.name, r.description, .empty⟩

/-- The requirement as it is named at the other end of a link. -/
def Requirement.stub (r : Requirement ι) : Requirement Unit :=
  ⟨(), r.externalId, r.name, "", .empty⟩

/-- The node without its identity and tags. -/
def Node.bare (n : Node ι) : Node Unit :=
  ⟨(), n.name, n.hyperlink, .empty, n.detail⟩

namespace Entity

/-- The entity without its identity and tags. -/
def bare : Entity ι → Entity Unit
  | requirement r => requirement r.bare
  | node n => node n.bare

/-- The entity as it is named at the other end of a link. -/
def stub : Entity ι → Entity Unit
  | requirement r => requirement r.stub
  | node n => node n.bare

/-- Whether an entity was read from a sheet for the given one. -/
def Shows (e : Entity ι) (shown : Entity Unit) : Prop :=
  shown = e.bare ∨ shown = e.stub

theorem Shows.mergeKey {e : Entity ι} {shown : Entity Unit} (h : e.Shows shown) :
    mergeKey shown = mergeKey e := by
  rcases h with rfl | rfl <;> cases e <;> rfl

/-- What is read twice is complete if it was complete once. -/
theorem fillEntity_of_shows {e : Entity ι} {stored incoming : Entity Unit} (h : e.Shows stored)
    (h' : e.Shows incoming) :
    ∃ filled, Merged.fillEntity stored incoming = .ok filled ∧ e.Shows filled ∧
      (filled = e.bare ↔ stored = e.bare ∨ incoming = e.bare) := by
  cases e with
  | node n =>
    have hstored : stored = .node n.bare := by rcases h with rfl | rfl <;> rfl
    have hincoming : incoming = .node n.bare := by rcases h' with rfl | rfl <;> rfl
    subst hstored hincoming
    refine ⟨.node n.bare, ?_, .inl rfl, iff_of_true rfl (.inl rfl)⟩
    unfold Merged.fillEntity
    dsimp only
    rw [Node.enrich_self rfl rfl rfl]
    rfl
  | requirement r =>
    have hfill : ∀ a b : Requirement Unit, a.externalId = b.externalId → a.tags = b.tags →
        ∀ text changed, fillField a.label "description" a.description b.description =
          .ok (text, changed) →
        Merged.fillEntity (.requirement a) (.requirement b) =
          .ok (.requirement { a with description := text }) := by
      intro a b hid htags text changed htext
      have hexternal : b.externalText = a.externalText := by
        simp only [Requirement.externalText, hid]
      unfold Merged.fillEntity Requirement.enrich Requirement.fillExternalId
      simp only [hexternal, ← htags, fillField_self, htext, addTags_self, Except.map, bind,
        Except.bind, pure, Except.pure]
      rfl
    rcases h with rfl | rfl <;> rcases h' with rfl | rfl
    · exact ⟨_, hfill r.bare r.bare rfl rfl _ _ (fillField_self ..), .inl rfl,
        iff_of_true rfl (.inl rfl)⟩
    · exact ⟨_, hfill r.bare r.stub rfl rfl _ _ (fillField_blank ..), .inl rfl,
        iff_of_true rfl (.inl rfl)⟩
    · -- the name came first, and the whole requirement fills it in
      have htext : ∃ changed, fillField r.stub.label "description" "" r.description =
          .ok (r.description, changed) := by
        by_cases hblank : r.description = ""
        · rw [hblank]
          exact ⟨_, fillField_self ..⟩
        · unfold fillField
          rw [if_neg (not_or.2 ⟨hblank, Ne.symm hblank⟩), if_pos rfl]
          exact ⟨_, rfl⟩
      obtain ⟨changed, htext⟩ := htext
      exact ⟨_, hfill r.stub r.bare rfl rfl _ _ htext, .inl rfl, iff_of_true rfl (.inr rfl)⟩
    · refine ⟨_, hfill r.stub r.stub rfl rfl _ _ (fillField_self ..), .inr rfl, ?_⟩
      rw [or_self]
      rfl

end Entity

end Crosswalk
