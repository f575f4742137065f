import Crosswalk.Proofs.Entity.Growth
import Crosswalk.Proofs.Exchange.Merge
import Mathlib.Data.Set.Basic

/-!
# What links tell

A link tells of a relation and of the natural key of the entity at its other end. Entities without
identities are one exactly when their natural keys are equal, so adding a link to a document adds
what it tells, whether or not the document holds such a link already.
-/

namespace Crosswalk

variable {ι : Type}

/-! ### Natural keys -/

/-- By what entities without identities are told apart. -/
inductive NaturalKey where
  | requirement (externalText name : String)
  | node (key : NodeKey)
deriving DecidableEq

namespace Entity

def naturalKey : Entity ι → NaturalKey
  | requirement r => .requirement r.externalText r.name
  | node n => .node n.key

theorem sameEntity_iff {a b : Entity Unit} : sameEntity a b = true ↔ a.naturalKey = b.naturalKey := by
  cases a <;> cases b <;> simp [sameEntity, naturalKey, Identity.agree, and_comm]

/-- A requirement with the natural key of an entity. -/
theorem eq_requirement_of_naturalKey {e : Entity ι} {externalText name : String}
    (h : e.naturalKey = .requirement externalText name) :
    ∃ r, e = requirement r ∧ r.externalText = externalText ∧ r.name = name := by
  cases e with
  | requirement r =>
    obtain ⟨hid, hname⟩ := NaturalKey.requirement.inj h
    exact ⟨r, rfl, hid, hname⟩
  | node n => cases h

end Entity

/-! ### Links -/

def Link.told (l : Link ι) : Relation × NaturalKey :=
  (l.relation, l.peer.entity.naturalKey)

/-- What the links of a document tell. -/
def Document.told (d : Document ι) : Set (Relation × NaturalKey) :=
  {x | ∃ l ∈ d.links, l.told = x}

namespace Document

variable {d : Document Unit} {l : Link Unit} {x : Relation × NaturalKey}

theorem hasLink_iff : d.hasLink l = true ↔ l.told ∈ d.told := by
  simp only [hasLink, List.any_eq_true, Bool.and_eq_true, decide_eq_true_eq, Entity.sameEntity_iff,
    told, Link.told, Set.mem_ofPred_eq, Prod.mk.injEq]

theorem mem_told_addLink : x ∈ (d.addLink l).told ↔ x ∈ d.told ∨ l.told = x := by
  unfold addLink
  split
  · rename_i h
    refine (or_iff_left_of_imp ?_).symm
    rintro rfl
    exact hasLink_iff.1 h
  · simp [told, links, or_and_right, exists_or]

theorem mem_told_foldl_addLink {links : List (Link Unit)} :
    x ∈ (links.foldl addLink d).told ↔ x ∈ d.told ∨ ∃ l ∈ links, l.told = x := by
  induction links generalizing d with
  | nil => simp
  | cons l links ih => simp [ih, mem_told_addLink, or_assoc]

end Document

end Crosswalk
