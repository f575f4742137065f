import Crosswalk.Proofs.Catalog.Run
import Crosswalk.Proofs.Entity.Cover

/-!
# What putting a requirement comes to

Names tell requirements apart, since putting looks for the name whatever else it looks for. So a
requirement that is put is refused only if the one of its name has an attribute set differently, and
then nothing changes. Otherwise exactly one requirement bears the name afterwards. It covers what was
put, everything else is as before, and putting the same once more changes nothing.
-/

namespace Crosswalk

variable {ι κ : Type}

namespace Store

variable {s s' : Store} {r : Requirement ι} {q stored : Requirement StoredId}

/-- What a store has become when a requirement has been put, and what is returned. -/
structure RequirementPut (s : Store) (r : Requirement ι) (stored : Requirement StoredId)
    (s' : Store) : Prop where
  /-- The returned requirement is the only one of the name. -/
  named : s'.requirements.filter (fun q => q.name = Text.trim r.name) = [stored]
  covers : stored.Covers r
  others : s'.requirements.filter (fun q => q.name ≠ Text.trim r.name) =
    s.requirements.filter fun q => q.name ≠ Text.trim r.name
  nodes : s'.nodes = s.nodes
  links : s'.links = s.links
  again : s'.putRequirement r = .ok (stored, s')

namespace Sound

/-- A requirement that covers what is put is returned, and nothing changes. -/
theorem putRequirement_covered (h : s.Sound) (hq : q ∈ s.requirements)
    (hname : q.name = Text.trim r.name) (hcovers : q.Covers r) :
    s.putRequirement r = .ok (q, s) := by
  rw [putRequirement_known h hq hname, hcovers.enrich]
  dsimp only
  rw [replaceRequirement_of_mem h hq]

theorem named_eq (h : s.Sound) (hq : q ∈ s.requirements) (hname : q.name = Text.trim r.name) :
    s.requirements.filter (fun p => p.name = Text.trim r.name) = [q] := by
  rw [← hname]
  exact Keyed.filter_key h.names_nodup hq

/-- The requirement of the name is filled in. -/
theorem requirementPut_known (h : s.Sound) (hq : q ∈ s.requirements)
    (hname : q.name = Text.trim r.name) {changed : Bool}
    (hfill : q.enrich r = .ok (stored, changed)) :
    s.RequirementPut r stored (s.replaceRequirement stored) := by
  have hid : stored.id = q.id := Requirement.enrich_id hfill
  have hstored : stored.name = q.name := Requirement.enrich_name hfill
  have hsound : (s.replaceRequirement stored).Sound := (h.replaceRequirement hq hid hstored).1
  have hmem : stored ∈ (s.replaceRequirement stored).requirements :=
    Keyed.mem_replace.2 (.inl ⟨rfl, q, hq, hid.symm⟩)
  have hcovers := Requirement.covers_of_enrich hfill
  have hnamed := hstored.trans hname
  refine ⟨hsound.named_eq hmem hnamed, hcovers, ?_, rfl, rfl,
    hsound.putRequirement_covered hmem hnamed hcovers⟩
  refine Keyed.filter_replace (by simp [hnamed]) fun p hp hpid => ?_
  obtain rfl := Keyed.eq_of_key h.requirementIds_nodup hp hq (hpid.trans hid)
  simp [hname]

/-- A requirement of a new name comes in behind the others. -/
theorem requirementPut_new (h : s.Sound) (hname : Text.trim r.name ≠ "")
    (hnew : ∀ q ∈ s.requirements, q.name ≠ Text.trim r.name) :
    s.RequirementPut r (s.freshRequirement r) (s.withRequirement r) := by
  have hsound : (s.withRequirement r).Sound := (h.withRequirement hname hnew).1
  have hmem : s.freshRequirement r ∈ (s.withRequirement r).requirements :=
    List.mem_append_right _ (List.mem_singleton_self _)
  have hcovers : (s.freshRequirement r).Covers r := ⟨fun _ => rfl, fun _ => rfl, fun _ ht => ht⟩
  refine ⟨hsound.named_eq hmem rfl, hcovers, ?_, rfl, rfl,
    hsound.putRequirement_covered hmem rfl hcovers⟩
  show (s.requirements ++ [s.freshRequirement r]).filter _ = _
  rw [List.filter_append, List.filter_cons_of_neg (by simp [freshRequirement]), List.filter_nil,
    List.append_nil]

/-- A requirement that agrees with the one of its name, if there is one, is put. -/
theorem exists_requirementPut (h : s.Sound) (hname : Text.trim r.name ≠ "")
    (hagree : ∀ q ∈ s.requirements, q.name = Text.trim r.name → q.Agrees r) :
    ∃ stored s', s.putRequirement r = .ok (stored, s') ∧ s.RequirementPut r stored s' := by
  by_cases hold : ∃ q ∈ s.requirements, q.name = Text.trim r.name
  · obtain ⟨q, hq, hqname⟩ := hold
    obtain ⟨_, _, -, hfill⟩ := Requirement.enrich_of_agrees (hagree q hq hqname)
    exact ⟨_, _, by rw [putRequirement_known h hq hqname, hfill],
      h.requirementPut_known hq hqname hfill⟩
  · have hnew : ∀ q ∈ s.requirements, q.name ≠ Text.trim r.name := fun q hq heq =>
      hold ⟨q, hq, heq⟩
    exact ⟨_, _, putRequirement_new h hname hnew, h.requirementPut_new hname hnew⟩

/-- A requirement that does not agree with the one of its name is refused. -/
theorem putRequirement_of_not_agrees (h : s.Sound) (hq : q ∈ s.requirements)
    (hname : q.name = Text.trim r.name) (hagree : ¬ q.Agrees r) :
    ∃ conflict, s.putRequirement r = .error (.conflict conflict) ∧ q.Contradicts r conflict := by
  obtain ⟨conflict, herror, hcontradicts⟩ := Requirement.enrich_of_not_agrees hagree
  exact ⟨conflict, by rw [putRequirement_known h hq hname, herror], hcontradicts⟩

end Sound

end Store

namespace Catalog

variable {c : Catalog}

/-- What the store refuses changes nothing in the catalogue. -/
theorem Consistent.after_putRequirement (h : c.Consistent) {r : Requirement ι}
    {failure : Failure} (herror : c.store.putRequirement r = .error failure) :
    c.after (.putRequirement r) = c := by
  have hperform : c.perform (.putRequirement r) = .error failure := by
    simp only [Catalog.perform, Catalog.putRequirement, h.guarded]
    unfold Catalog.storeRequirement
    rw [herror]
    rfl
  exact h.after_of_error hperform

/-- What putting a requirement whose name is not blank comes to at any point of a run. Stored names are
trimmed and no two of them are the same. If the stored requirement of the name has a public identifier
or a description set differently, there is a conflict about one of these, and nothing changes.
Otherwise the requirement is put: exactly one requirement bears the name then, the one that is
returned, everything else is as before, and putting the same again changes nothing. -/
theorem run_putRequirement (serial itemsPerPage : Nat) (ops : List (Operation κ))
    (r : Requirement ι) (hname : Text.trim r.name ≠ "") :
    let c := (fresh serial itemsPerPage).run ops
    (c.store.requirements.map (·.name)).Nodup ∧
      (∀ q ∈ c.store.requirements, Text.trim q.name = q.name) ∧
      (∀ q ∈ c.store.requirements, q.name = Text.trim r.name → ¬ q.Agrees r →
        ∃ conflict, c.store.putRequirement r = .error (.conflict conflict) ∧
          q.Contradicts r conflict ∧ c.after (.putRequirement r) = c) ∧
      ((∀ q ∈ c.store.requirements, q.name = Text.trim r.name → q.Agrees r) →
        ∃ stored s', c.store.putRequirement r = .ok (stored, s') ∧
          c.store.RequirementPut r stored s') := by
  intro c
  have h : c.Consistent := (consistent_fresh serial itemsPerPage).run ops
  refine ⟨h.sound.names_nodup, fun q hq => ?_, fun q hq hqname hagree => ?_,
    h.sound.exists_requirementPut hname⟩
  · exact (h.sound.names_trimmed q.name (List.mem_map_of_mem hq)).1
  · obtain ⟨conflict, herror, hcontradicts⟩ :=
      h.sound.putRequirement_of_not_agrees hq hqname hagree
    exact ⟨conflict, herror, hcontradicts, h.after_putRequirement herror⟩

/-- A requirement with a public identifier and no description. -/
def login (id : ExternalId) : Requirement Unit :=
  ⟨(), some id, " Login ", "", .empty⟩

/-- With its public identifier or without it, the requirement is filled in; it is refused with
another one. -/
theorem run_putRequirement_login :
    let c := (fresh 0 20).run [.putRequirement (login ⟨"111-111", by decide⟩)]
    let told : Requirement Unit := ⟨(), none, "Login\n", "Sign in", .empty⟩
    let denied := login ⟨"222-222", by decide⟩
    (∃ stored s', c.store.putRequirement told = .ok (stored, s') ∧
      c.store.RequirementPut told stored s') ∧
    ∃ conflict, c.store.putRequirement denied = .error (.conflict conflict) ∧
      c.after (.putRequirement denied) = c := by
  intro c told denied
  obtain ⟨-, -, -, htold⟩ := run_putRequirement 0 20
    [.putRequirement (login ⟨"111-111", by decide⟩)] told (by decide +kernel)
  obtain ⟨-, -, hdenied, -⟩ := run_putRequirement 0 20
    [.putRequirement (login ⟨"111-111", by decide⟩)] denied (by decide +kernel)
  refine ⟨htold (by decide +kernel), ?_⟩
  obtain ⟨q, hq, hname, hnot⟩ : ∃ q ∈ c.store.requirements,
      q.name = Text.trim denied.name ∧ ¬ q.Agrees denied := by decide +kernel
  obtain ⟨conflict, herror, -, hafter⟩ := hdenied q hq hname hnot
  exact ⟨conflict, herror, hafter⟩

end Catalog

end Crosswalk
