import Crosswalk.Proofs.Index.Mirror
import Crosswalk.StoredLink
import Mathlib.Data.List.Pairwise

/-!
# What the schema lets into the link table

The checks of the schema see of a row its kind and the texts of its identity and of its ends. A row
passes beside others exactly if its identity is new, no other row of its kind joins the same two ends,
and its source is a requirement; so a table is accepted if this holds of any two of its rows. What the
texts are makes no difference to this.
-/

namespace Crosswalk

namespace LinkKey

variable {τ : Type} [DecidableEq τ] {isRequirement : τ → Bool} {j k : LinkKey τ}
  {keys others before after : List (LinkKey τ)}

/-- Whether two rows do not join the same two ends. -/
def Apart (j k : LinkKey τ) : Prop :=
  ¬ (j.kind = k.kind ∧ k.kind.joins k.source k.target j.source j.target = true)

instance : Decidable (j.Apart k) :=
  inferInstanceAs (Decidable (¬ _))

theorem Apart.symm (h : j.Apart k) : k.Apart j := by
  obtain ⟨jid, jkind, jsource, jtarget⟩ := j
  obtain ⟨kid, kkind, ksource, ktarget⟩ := k
  unfold Apart LinkKind.joins at *
  cases jkind <;> cases kkind <;> grind

/-- The key of a row in another form. -/
def map {σ : Type} (f : σ → τ) (k : LinkKey σ) : LinkKey τ :=
  ⟨f k.id, k.kind, f k.source, f k.target⟩

/-- What the unique indexes ask for: no identity is used twice, and no two rows join the same two
ends. -/
def Unique (keys : List (LinkKey τ)) : Prop :=
  keys.Pairwise fun j k => j.id ≠ k.id ∧ j.Apart k

instance : Decidable (Unique keys) :=
  inferInstanceAs (Decidable (keys.Pairwise _))

/-- What is told apart in another form has been different before. -/
theorem Unique.of_map {σ : Type} [DecidableEq σ] {f : σ → τ} {keys : List (LinkKey σ)}
    (h : Unique (keys.map (map f))) : Unique keys := by
  refine (List.pairwise_map.1 h).imp fun {j k} hjk => ⟨fun hid => hjk.1 (congrArg f hid), ?_⟩
  rintro ⟨hkind, hjoins⟩
  refine hjk.2 ⟨hkind, ?_⟩
  obtain ⟨jid, jkind, jsource, jtarget⟩ := j
  obtain ⟨kid, kkind, ksource, ktarget⟩ := k
  simp only [map, LinkKind.joins] at hjoins ⊢
  cases kkind <;> grind

theorem unique_middle : Unique (before ++ k :: after) ↔
    Unique (before ++ after) ∧ (∀ o ∈ before ++ after, o.id ≠ k.id) ∧
      ∀ o ∈ before ++ after, k.Apart o := by
  have hsymm : ∀ {j k : LinkKey τ}, (j.id ≠ k.id ∧ j.Apart k) → k.id ≠ j.id ∧ k.Apart j :=
    fun h => ⟨h.1.symm, h.2.symm⟩
  rw [Unique, Unique, List.pairwise_middle hsymm, List.pairwise_cons, forall₂_and, and_comm]
  exact and_congr_right fun _ => and_congr_left fun _ => forall₂_congr fun o _ => ne_comm

theorem fault?_eq_none_iff : k.fault? isRequirement others = none ↔
    (∀ o ∈ others, o.id ≠ k.id) ∧ (∀ o ∈ others, k.Apart o) ∧ isRequirement k.source = true := by
  have hapart : (∀ o ∈ others, k.Apart o) ↔
      (¬ ∃ o ∈ others, (o.kind = k.kind ∧ o.source = k.source) ∧ o.target = k.target) ∧
        ¬ ∃ o ∈ others, (o.kind = k.kind ∧ o.kind = .internal) ∧
          o.kind.joins o.source o.target k.source k.target = true := by
    simp only [not_exists, not_and, ← forall_and, Apart]
    refine forall₂_congr fun o _ => ?_
    obtain ⟨oid, okind, osource, otarget⟩ := o
    obtain ⟨kid, kkind, ksource, ktarget⟩ := k
    cases okind <;> cases kkind <;> simp [LinkKind.joins]
  unfold fault?
  simp only [List.any_eq_true, Bool.and_eq_true, decide_eq_true_eq]
  rw [hapart]
  have hsome : ∀ {fault : StorageFault}, some fault ≠ none := fun h => by cases h
  split
  · rename_i hid
    obtain ⟨o, ho, heq⟩ := hid
    exact iff_of_false hsome fun h => h.1 o ho heq
  rename_i hid
  split
  · rename_i hends
    exact iff_of_false hsome fun h => h.2.1.1 hends
  rename_i hends
  split
  · rename_i hpair
    exact iff_of_false hsome fun h => h.2.1.2 hpair
  rename_i hpair
  split
  · rename_i hsource
    exact iff_of_true rfl ⟨fun o ho heq => hid ⟨o, ho, heq⟩, ⟨hends, hpair⟩, hsource⟩
  · rename_i hsource
    exact iff_of_false hsome fun h => hsource h.2.2

/-- Every row passes the checks of the schema beside the other rows. -/
def Accepted (isRequirement : τ → Bool) (keys : List (LinkKey τ)) : Prop :=
  ∀ before k after, keys = before ++ k :: after → k.fault? isRequirement (before ++ after) = none

/-- A table is accepted when it keeps to the unique indexes and every source is a requirement. -/
theorem accepted_iff : Accepted isRequirement keys ↔
    Unique keys ∧ ∀ k ∈ keys, isRequirement k.source = true := by
  constructor
  · intro h
    constructor
    · induction keys with
      | nil => exact .nil
      | cons k keys ih =>
        obtain ⟨hid, hapart, -⟩ := fault?_eq_none_iff.1 (h [] k keys rfl)
        refine List.pairwise_cons.2 ⟨fun m hm => ⟨(hid m hm).symm, hapart m hm⟩, ih ?_⟩
        intro before m after hkeys
        obtain ⟨hid, hapart, hsource⟩ :=
          fault?_eq_none_iff.1 (h (k :: before) m after (congrArg (List.cons k) hkeys))
        exact fault?_eq_none_iff.2 ⟨fun o ho => hid o (List.mem_cons_of_mem k ho),
          fun o ho => hapart o (List.mem_cons_of_mem k ho), hsource⟩
    · intro k hk
      obtain ⟨before, after, hkeys⟩ := List.append_of_mem hk
      exact (fault?_eq_none_iff.1 (h before k after hkeys)).2.2
  · rintro ⟨hpairs, hsources⟩ before k after rfl
    obtain ⟨-, hid, hapart⟩ := unique_middle.1 hpairs
    exact fault?_eq_none_iff.2
      ⟨hid, hapart, hsources k (List.mem_append_right _ List.mem_cons_self)⟩

/-- A row may be inserted into an accepted table, or put in the place of another one, exactly if it
passes the checks beside the other rows. -/
theorem accepted_middle : Accepted isRequirement (before ++ k :: after) ↔
    Accepted isRequirement (before ++ after) ∧ k.fault? isRequirement (before ++ after) = none := by
  have hsources : (∀ j ∈ before ++ k :: after, isRequirement j.source = true) ↔
      isRequirement k.source = true ∧ ∀ j ∈ before ++ after, isRequirement j.source = true := by
    rw [List.forall_mem_append, List.forall_mem_cons, List.forall_mem_append]
    tauto
  rw [accepted_iff, accepted_iff, unique_middle, hsources, fault?_eq_none_iff]
  tauto

instance : Decidable (Accepted isRequirement keys) :=
  decidable_of_iff _ accepted_iff.symm

end LinkKey

namespace StoredLink

variable {l m : StoredLink}

/-- The links that join the same two entities are those that are not apart. -/
theorem joins_iff : l.kind = m.kind ∧ m.joins l.source l.target = true ↔ ¬ l.Apart m := by
  obtain ⟨lid, lkind, lsource, ltarget, lrelation, lspelling⟩ := l
  obtain ⟨mid, mkind, msource, mtarget, mrelation, mspelling⟩ := m
  cases lkind <;> cases mkind <;>
    grind [Apart, joins, LinkKind.joins, sourceVertex, targetVertex]

/-- What joins the same two entities need not look so in the link table, but what looks so does. -/
theorem Apart.key (h : l.Apart m) : l.key.Apart m.key := by
  rintro ⟨hkind, hjoins⟩
  refine joins_iff.1 ⟨hkind, ?_⟩ h
  obtain ⟨lid, lkind, lsource, ltarget, lrelation, lspelling⟩ := l
  obtain ⟨mid, mkind, msource, mtarget, mrelation, mspelling⟩ := m
  cases mkind <;> grind [joins, LinkKind.joins, StoredLink.key]

/-- In plain spelling there is no difference. -/
theorem apart_of_key (hl : l.spelling = .plain) (hm : m.spelling = .plain) (h : l.key.Apart m.key) :
    l.Apart m := by
  by_contra hapart
  obtain ⟨hkind, hjoins⟩ := joins_iff.2 hapart
  refine h ⟨hkind, ?_⟩
  obtain ⟨lid, lkind, lsource, ltarget, lrelation, lspelling⟩ := l
  obtain ⟨mid, mkind, msource, mtarget, mrelation, mspelling⟩ := m
  subst hl hm
  cases mkind <;> grind [joins, LinkKind.joins, StoredLink.key, LinkSpelling.plain]

end StoredLink

end Crosswalk
