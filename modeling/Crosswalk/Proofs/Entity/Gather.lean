import Crosswalk.Proofs.Entity.Enrich
import Mathlib.Data.Set.Image

/-!
# What agreeing entities add up to

Entities agree when no attribute is set in two of them to different values. Such entities add up to
one: each attribute has the value that is set in some of them and is blank if there is none, and the
tags are those of all of them. Filling in adds one more entity to those that a stored one has
gathered. What is gathered depends on the entities alone and not on the order in which they come.
-/

namespace Crosswalk

variable {α ι κ : Type}

/-! ### Values -/

/-- Two values agree when they are equal or one of them is blank. -/
def Agree (blank v w : α) : Prop :=
  v = blank ∨ w = blank ∨ v = w

instance [DecidableEq α] (blank v w : α) : Decidable (Agree blank v w) :=
  inferInstanceAs (Decidable (v = blank ∨ w = blank ∨ v = w))

/-- A value collects some values when no other one of them is set, and it is one of them if it is set
itself. -/
structure Collects (blank : α) (values : Set α) (value : α) : Prop where
  only : ∀ v ∈ values, v = blank ∨ v = value
  source : value = blank ∨ value ∈ values

/-- The stored value, or the incoming one in the place of a blank. -/
def fill [DecidableEq α] (blank stored incoming : α) : α :=
  if stored = blank then incoming else stored

namespace Collects

variable {blank value value' incoming : α} {values : Set α}

theorem singleton (blank value : α) : Collects blank {value} value :=
  ⟨fun _ hv => .inr hv, .inr rfl⟩

theorem agree (h : Collects blank values value) (hagree : ∀ v ∈ values, Agree blank v incoming) :
    Agree blank value incoming :=
  h.source.elim .inl fun hmem => hagree value hmem

theorem insert [DecidableEq α] (h : Collects blank values value)
    (hagree : Agree blank value incoming) :
    Collects blank (insert incoming values) (fill blank value incoming) := by
  unfold fill
  split
  · rename_i hblank
    refine ⟨fun v hv => ?_, .inr (Set.mem_insert _ _)⟩
    rcases Set.mem_insert_iff.1 hv with rfl | hv
    · exact .inr rfl
    · exact .inl ((h.only v hv).elim id fun hv => hv.trans hblank)
  · rename_i hset
    refine ⟨fun v hv => ?_, .inr (Set.mem_insert_of_mem _ (h.source.resolve_left hset))⟩
    rcases Set.mem_insert_iff.1 hv with rfl | hv
    · exact (hagree.resolve_left hset).imp id Eq.symm
    · exact h.only v hv

theorem unique (h : Collects blank values value) (h' : Collects blank values value') :
    value = value' := by
  rcases h.source with hblank | hmem
  · rcases h'.source with hblank' | hmem'
    · exact hblank.trans hblank'.symm
    · exact ((h.only value' hmem').elim (·.trans hblank.symm) id).symm
  · rcases h'.only value hmem with hblank | heq
    · rcases h'.source with hblank' | hmem'
      · exact hblank.trans hblank'.symm
      · exact ((h.only value' hmem').elim (·.trans hblank.symm) id).symm
    · exact heq

end Collects

theorem fillField_of_agree {entity field stored incoming : String}
    (h : Agree "" stored incoming) :
    fillField entity field stored incoming =
      .ok (fill "" stored incoming, decide (stored = "" ∧ incoming ≠ "")) := by
  unfold fillField fill
  by_cases hstored : stored = ""
  · by_cases hincoming : incoming = "" <;> simp [hstored, hincoming, eq_comm]
  · have hkeep : incoming = "" ∨ stored = incoming := h.resolve_left hstored
    simp [hstored, hkeep]

/-! ### Requirements -/

namespace Requirement

/-- No attribute is set differently in the two requirements. -/
def Agrees (r : Requirement ι) (r' : Requirement κ) : Prop :=
  Agree "" r.externalText r'.externalText ∧ Agree "" r.description r'.description

instance (r : Requirement ι) (r' : Requirement κ) : Decidable (r.Agrees r') :=
  inferInstanceAs (Decidable (_ ∧ _))

/-- The attributes of a requirement are those that are set in some requirements, and its tags are
the tags of these. -/
structure Gathers (q : Requirement ι) (rs : Set (Requirement κ)) : Prop where
  externalText : Collects "" (externalText '' rs) q.externalText
  description : Collects "" (description '' rs) q.description
  tags : ∀ t, t ∈ q.tags.toList ↔ ∃ r ∈ rs, t ∈ r.tags.toList

variable {q q' : Requirement ι} {r : Requirement κ} {rs : Set (Requirement κ)}

theorem gathers_singleton (hid : q.externalId = r.externalId)
    (hdescription : q.description = r.description) (htags : q.tags = r.tags) : q.Gathers {r} where
  externalText := by
    have htext : q.externalText = r.externalText := congrArg ExternalId.textOf hid
    rw [Set.image_singleton, htext]
    exact .singleton ..
  description := by
    rw [Set.image_singleton, hdescription]
    exact .singleton ..
  tags := fun t => by simp [htags]

theorem fillExternalId_of_agree (h : Agree "" q.externalText r.externalText) :
    ∃ externalId changed, fillExternalId q r = .ok (externalId, changed) ∧
      ExternalId.textOf externalId = fill "" q.externalText r.externalText := by
  unfold fillExternalId
  rw [fillField_of_agree h]
  refine ⟨_, _, rfl, ?_⟩
  unfold fill
  by_cases hq : q.externalText = ""
  · by_cases hr : r.externalText = ""
    · simp only [hq, hr, ne_eq, not_true_eq_false, and_false, decide_false, Bool.false_eq_true,
        if_false, if_true]
      exact hq
    · simp only [hq, hr, ne_eq, not_false_eq_true, and_self, decide_true, if_true]
      rfl
  · simp only [hq, false_and, decide_false, Bool.false_eq_true, if_false]
    rfl

/-- A requirement that agrees with a stored one is filled in. -/
theorem enrich_of_agrees (h : q.Agrees r) :
    ∃ externalId changed, ExternalId.textOf externalId = fill "" q.externalText r.externalText ∧
      q.enrich r = .ok ({ q with
        externalId
        description := fill "" q.description r.description
        tags := q.tags.union r.tags }, changed) := by
  obtain ⟨externalId, idChanged, hfill, htext⟩ := fillExternalId_of_agree h.1
  refine ⟨externalId, ?_⟩
  unfold Requirement.enrich
  rw [hfill, fillField_of_agree h.2]
  exact ⟨_, htext, rfl⟩

namespace Gathers

/-- A requirement that agrees with all that have been gathered is gathered as well. -/
theorem enrich (h : q.Gathers rs) (hagree : ∀ r' ∈ rs, r'.Agrees r) :
    ∃ filled changed, q.enrich r = .ok (filled, changed) ∧ filled.Gathers (insert r rs) := by
  have hid : Agree "" q.externalText r.externalText :=
    h.externalText.agree (Set.forall_mem_image.2 fun r' hr' => (hagree r' hr').1)
  have hdescription : Agree "" q.description r.description :=
    h.description.agree (Set.forall_mem_image.2 fun r' hr' => (hagree r' hr').2)
  obtain ⟨externalId, changed, htext, henrich⟩ := enrich_of_agrees ⟨hid, hdescription⟩
  refine ⟨_, changed, henrich, ?_, ?_, fun t => ?_⟩
  · rw [Set.image_insert_eq]
    have hinsert := h.externalText.insert hid
    rw [← htext] at hinsert
    exact hinsert
  · rw [Set.image_insert_eq]
    exact h.description.insert hdescription
  · simp only [TagSet.mem_union, h.tags, Set.exists_mem_insert]
    exact or_comm

theorem unique (h : q.Gathers rs) (h' : q'.Gathers rs) (hname : q'.name = q.name) :
    q' = q.withId q'.id := by
  have hid : q'.externalId = q.externalId :=
    ExternalId.textOf_injective (h'.externalText.unique h.externalText)
  have hdescription : q'.description = q.description := h'.description.unique h.description
  have htags : q'.tags = q.tags := TagSet.ext_mem fun t => (h'.tags t).trans (h.tags t).symm
  obtain ⟨id, externalId, name, description, tags⟩ := q'
  simp only [withId, Requirement.mk.injEq, true_and]
  exact ⟨hid, hname, hdescription, htags⟩

end Gathers

end Requirement

/-! ### Nodes -/

namespace Node

/-- The type of a tool; where there is none it is not known. -/
def toolType (n : Node ι) : ToolType :=
  n.toolType?.getD .unknown

/-- No attribute beside the key is set differently in the two nodes. -/
def Agrees (n : Node ι) (n' : Node κ) : Prop :=
  Agree "" n.sectionId n'.sectionId ∧ Agree .unknown n.toolType n'.toolType ∧
    Agree "" n.hyperlink n'.hyperlink

instance (n : Node ι) (n' : Node κ) : Decidable (n.Agrees n') :=
  inferInstanceAs (Decidable (_ ∧ _ ∧ _))

/-- The attributes of a node beside its key are those that are set in some nodes, and its tags are
the tags of these. -/
structure Gathers (m : Node ι) (ns : Set (Node κ)) : Prop where
  sectionId : Collects "" (sectionId '' ns) m.sectionId
  toolType : Collects .unknown (toolType '' ns) m.toolType
  hyperlink : Collects "" (hyperlink '' ns) m.hyperlink
  tags : ∀ t, t ∈ m.tags.toList ↔ ∃ n ∈ ns, t ∈ n.tags.toList

variable {m m' : Node ι} {n : Node κ} {ns : Set (Node κ)}

theorem gathers_singleton (hdetail : m.detail = n.detail) (hlink : m.hyperlink = n.hyperlink)
    (htags : m.tags = n.tags) : m.Gathers {n} where
  sectionId := by
    have hid : m.sectionId = n.sectionId := by rw [Node.sectionId, hdetail, Node.sectionId]
    rw [Set.image_singleton, hid]
    exact .singleton ..
  toolType := by
    have htype : m.toolType = n.toolType := by
      rw [Node.toolType, toolType?, hdetail, Node.toolType, toolType?]
    rw [Set.image_singleton, htype]
    exact .singleton ..
  hyperlink := by
    rw [Set.image_singleton, hlink]
    exact .singleton ..
  tags := fun t => by simp [htags]

theorem fillDetail_of_agree (hkind : m.kind = n.kind) (hid : Agree "" m.sectionId n.sectionId)
    (htype : Agree .unknown m.toolType n.toolType) :
    ∃ detail changed, fillDetail m.label m.detail n.detail = .ok (detail, changed) ∧
      ({ m with detail } : Node ι).sectionId = fill "" m.sectionId n.sectionId ∧
      ({ m with detail } : Node ι).toolType = fill .unknown m.toolType n.toolType := by
  obtain ⟨mid, mname, mlink, mtags, mdetail⟩ := m
  obtain ⟨nid, nname, nlink, ntags, ndetail⟩ := n
  cases mdetail <;> cases ndetail
  case standard.standard title subsection stored version title' subsection' incoming version' =>
    have hid' : Agree "" stored incoming := hid
    unfold fillDetail
    dsimp only
    rw [fillField_of_agree hid']
    exact ⟨_, _, rfl, rfl, rfl⟩
  case tool.tool rule stored description rule' incoming description' =>
    have htype' : Agree .unknown stored incoming := htype
    unfold fillDetail
    dsimp only
    by_cases hkeep : incoming = .unknown ∨ stored = incoming
    · rw [if_pos hkeep]
      refine ⟨_, _, rfl, rfl, ?_⟩
      show stored = fill .unknown stored incoming
      unfold fill
      split
      · rename_i hblank
        exact hkeep.elim (hblank.trans ·.symm) fun hsame => hsame
      · rfl
    · have hblank : stored = .unknown := htype'.resolve_right hkeep
      rw [if_neg hkeep, if_pos hblank]
      refine ⟨_, _, rfl, rfl, ?_⟩
      show incoming = fill .unknown stored incoming
      rw [fill, if_pos hblank]
  case code.code =>
    exact ⟨_, _, rfl, rfl, rfl⟩
  all_goals cases hkind

theorem hyperlink_of_agree (h : Agree "" m.hyperlink n.hyperlink) :
    (if (n.hyperlink != "" && m.hyperlink != n.hyperlink) = true then n.hyperlink
      else m.hyperlink) = fill "" m.hyperlink n.hyperlink := by
  unfold fill
  by_cases hm : m.hyperlink = ""
  · by_cases hn : n.hyperlink = "" <;> simp [hm, hn]
  · rcases h.resolve_left hm with hn | hn
    · simp [hm, hn]
    · simp [hm, ← hn]

/-- The key, the section number and the type of the tool are all there is to the detail. -/
theorem detail_eq (hkey : m'.key = m.key) (hsection : m'.sectionId = m.sectionId)
    (htype : m'.toolType = m.toolType) : m'.detail = m.detail := by
  simp only [key, NodeKey.mk.injEq, sectionTitle, subsection, kind, description, version,
    Node.sectionId, Node.toolType, toolType?] at hkey hsection htype
  cases hm : m.detail <;> cases hm' : m'.detail <;> simp_all [NodeDetail.kind]

namespace Gathers

/-- A node that has the same kind and agrees with all that have been gathered is gathered as well. -/
theorem enrich (h : m.Gathers ns) (hkind : m.kind = n.kind) (hagree : ∀ n' ∈ ns, n'.Agrees n) :
    ∃ filled changed, m.enrich n = .ok (filled, changed) ∧ filled.Gathers (insert n ns) := by
  have hid : Agree "" m.sectionId n.sectionId :=
    h.sectionId.agree (Set.forall_mem_image.2 fun n' hn' => (hagree n' hn').1)
  have htype : Agree .unknown m.toolType n.toolType :=
    h.toolType.agree (Set.forall_mem_image.2 fun n' hn' => (hagree n' hn').2.1)
  have hlink : Agree "" m.hyperlink n.hyperlink :=
    h.hyperlink.agree (Set.forall_mem_image.2 fun n' hn' => (hagree n' hn').2.2)
  obtain ⟨detail, detailChanged, hfill, hsection, htool⟩ := fillDetail_of_agree hkind hid htype
  have henrich : ∃ changed, m.enrich n = .ok ({ m with
      hyperlink := fill "" m.hyperlink n.hyperlink
      tags := m.tags.union n.tags
      detail }, changed) := by
    unfold Node.enrich
    rw [hfill, ← hyperlink_of_agree hlink]
    exact ⟨_, rfl⟩
  obtain ⟨changed, henrich⟩ := henrich
  refine ⟨_, changed, henrich, ?_, ?_, ?_, fun t => ?_⟩
  · rw [Set.image_insert_eq]
    exact hsection ▸ h.sectionId.insert hid
  · rw [Set.image_insert_eq]
    exact htool ▸ h.toolType.insert htype
  · rw [Set.image_insert_eq]
    exact h.hyperlink.insert hlink
  · simp only [TagSet.mem_union, h.tags, Set.exists_mem_insert]
    exact or_comm

theorem unique (h : m.Gathers ns) (h' : m'.Gathers ns) (hkey : m'.key = m.key) :
    m' = m.withId m'.id := by
  have hid : m'.sectionId = m.sectionId := h'.sectionId.unique h.sectionId
  have htype : m'.toolType = m.toolType := h'.toolType.unique h.toolType
  have hlink : m'.hyperlink = m.hyperlink := h'.hyperlink.unique h.hyperlink
  have htags : m'.tags = m.tags := TagSet.ext_mem fun t => (h'.tags t).trans (h.tags t).symm
  have hdetail : m'.detail = m.detail := detail_eq hkey hid htype
  obtain ⟨id, name, hyperlink, tags, detail⟩ := m'
  simp only [withId, Node.mk.injEq, true_and]
  exact ⟨congrArg NodeKey.name hkey, hlink, htags, hdetail⟩

end Gathers

end Node

/-! ### Entities -/

namespace Entity

/-- No attribute is set differently in the two entities, if they are of one sort. -/
def Agrees : Entity ι → Entity κ → Prop
  | requirement r, requirement r' => r.Agrees r'
  | node n, node n' => n.Agrees n'
  | requirement _, node _ => True
  | node _, requirement _ => True

instance : (e : Entity ι) → (e' : Entity κ) → Decidable (e.Agrees e')
  | requirement r, requirement r' => inferInstanceAs (Decidable (r.Agrees r'))
  | node n, node n' => inferInstanceAs (Decidable (n.Agrees n'))
  | requirement _, node _ => inferInstanceAs (Decidable True)
  | node _, requirement _ => inferInstanceAs (Decidable True)

end Entity

end Crosswalk
