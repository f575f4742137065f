import Crosswalk.Proofs.Graph.Leaving
import Crosswalk.Proofs.Graph.Strong
import Crosswalk.Proofs.Index.Evolution

/-!
# The cycle that is reported

A graph whose flag has fallen reports a cycle: requirements that reach each other along arrows, one
that contains itself if there is only one. They are a whole component, so that a single one has no
other way back to itself, and the components that are passed over are those without a cycle.
-/

namespace Crosswalk

/-- Requirements that lie on a common cycle: each reaches each of them along some arrows, and a single
one is its own parent. -/
structure Graph.Knot (arrows : List (StoredId × StoredId)) (ids : List StoredId) : Prop where
  ne_nil : ids ≠ []
  nodup : ids.Nodup
  reaches : ∀ a ∈ ids, ∀ b ∈ ids, Relation.TransGen (Graph.Arrow arrows) a b
  loop : ∀ a, ids = [a] → (a, a) ∈ arrows

namespace Index

variable {ix : Index} {vertices : List StoredId} {a : StoredId}

/-- The filter lets through the components of the requirements on a cycle. -/
theorem isCycle_strongComponent (hends : ∀ p c, (p, c) ∈ ix.hierarchy → c ∈ vertices)
    (hnodup : vertices.Nodup) (ha : a ∈ vertices) :
    ix.isCycle (Graph.strongComponent ix.hierarchy vertices a) = true ↔
      Relation.TransGen (Graph.Arrow ix.hierarchy) a a := by
  have hself : a ∈ Graph.strongComponent ix.hierarchy vertices a :=
    Graph.mem_strongComponent.2 ⟨ha, .refl a⟩
  have hcomponent : (Graph.strongComponent ix.hierarchy vertices a).Nodup :=
    Graph.strongComponent_nodup hnodup
  -- each further requirement of the component lies on a cycle with the first
  have hother : ∀ b ∈ Graph.strongComponent ix.hierarchy vertices a, b ≠ a →
      Relation.TransGen (Graph.Arrow ix.hierarchy) a a := fun b hb hne => by
    obtain ⟨hab, hba⟩ := (Graph.mem_strongComponent.1 hb).2
    rcases Relation.reflTransGen_iff_eq_or_transGen.1 hab with heq | hab
    · exact absurd heq hne
    · exact hab.trans_left hba
  unfold isCycle
  rw [Bool.or_eq_true, decide_eq_true_eq]
  constructor
  · rintro (hlength | hhead)
    · obtain ⟨b, hb, hne⟩ : ∃ b ∈ Graph.strongComponent ix.hierarchy vertices a, b ≠ a := by
        by_contra! hall
        have hsub : (Graph.strongComponent ix.hierarchy vertices a).Subperm [a] :=
          List.subperm_of_subset hcomponent fun b hb => List.mem_singleton.2 (hall b hb)
        exact absurd hsub.length_le (by simpa using hlength)
      exact hother b hb hne
    · obtain ⟨b, hhead, hloop⟩ := (Option.any_eq_true _ _).1 hhead
      by_cases hba : b = a
      · subst hba
        exact .single (show (b, b) ∈ ix.hierarchy from of_decide_eq_true hloop)
      · exact hother b (List.mem_of_head? hhead) hba
  · intro hcycle
    obtain ⟨b, hab, hba⟩ := Relation.TransGen.head'_iff.1 hcycle
    have hb : b ∈ Graph.strongComponent ix.hierarchy vertices a :=
      Graph.mem_strongComponent.2 ⟨hends a b hab, .single hab, hba⟩
    cases hc : Graph.strongComponent ix.hierarchy vertices a with
    | nil =>
      rw [hc] at hself
      cases hself
    | cons c cs =>
      cases cs with
      | cons d ds => exact .inl (by simp)
      | nil =>
        rw [hc, List.mem_singleton] at hself hb
        subst hself hb
        exact .inr (decide_eq_true hab)

/-- The component of a requirement on a cycle is a knot. -/
theorem knot_strongComponent (hends : ∀ p c, (p, c) ∈ ix.hierarchy → c ∈ vertices)
    (hnodup : vertices.Nodup) (ha : a ∈ vertices)
    (hcycle : Relation.TransGen (Graph.Arrow ix.hierarchy) a a) :
    Graph.Knot ix.hierarchy (Graph.strongComponent ix.hierarchy vertices a) := by
  have hself : a ∈ Graph.strongComponent ix.hierarchy vertices a :=
    Graph.mem_strongComponent.2 ⟨ha, .refl a⟩
  refine ⟨List.ne_nil_of_mem hself, Graph.strongComponent_nodup hnodup, fun b hb c hc => ?_,
    fun b hb => ?_⟩
  · -- from one to the other, once around the cycle
    have hba := (Graph.mem_strongComponent.1 hb).2.2
    have hac := (Graph.mem_strongComponent.1 hc).2.1
    exact (Relation.TransGen.trans_right hba hcycle).trans_left hac
  · obtain ⟨c, hac, hca⟩ := Relation.TransGen.head'_iff.1 hcycle
    have hc : c ∈ Graph.strongComponent ix.hierarchy vertices a :=
      Graph.mem_strongComponent.2 ⟨hends a c hac, .single hac, hca⟩
    rw [hb, List.mem_singleton] at hself hc
    subst hself hc
    exact hac

theorem findCycle_eq_none (h : ix.acyclic = true) : ix.findCycle = none := by
  unfold findCycle
  rw [if_pos h]

/-- A fallen flag comes with a cycle. -/
theorem Coherent.exists_findCycle (h : ix.Coherent) (hflag : ix.acyclic = false) :
    ∃ ids, ix.findCycle = some (ids.map .requirement) ∧ Graph.Knot ix.hierarchy ids := by
  have hcyclic : ¬ Graph.Acyclic ix.hierarchy := fun ha => by
    rw [h.flag.2 ha] at hflag
    cases hflag
  obtain ⟨a, ha⟩ : ∃ a, Relation.TransGen (Graph.Arrow ix.hierarchy) a a := by
    rw [Graph.Acyclic, not_forall] at hcyclic
    obtain ⟨a, ha⟩ := hcyclic
    exact ⟨a, not_not.1 ha⟩
  have hlisted : ∀ {b}, b ∈ ix.requirements →
      b ∈ Graph.leavingOrder ix.children ix.requirements := Graph.mem_leavingOrder
  have hends : ∀ p c, (p, c) ∈ ix.hierarchy →
      c ∈ Graph.leavingOrder ix.children ix.requirements := fun p c hpc =>
    hlisted (h.ends p c hpc).2
  have hnodup := Graph.leavingOrder_nodup ix.children ix.requirements
  obtain ⟨b, hab, -⟩ := Relation.TransGen.head'_iff.1 ha
  have hcomponent : (ix.strongComponents.find? ix.isCycle).isSome = true :=
    List.find?_isSome.2 ⟨_, Graph.mem_strongComponents.2 ⟨a, hlisted (h.ends a b hab).1, rfl⟩,
      (isCycle_strongComponent hends hnodup (hlisted (h.ends a b hab).1)).2 ha⟩
  obtain ⟨component, hfind⟩ := Option.isSome_iff_exists.1 hcomponent
  obtain ⟨c, hc, rfl⟩ := Graph.mem_strongComponents.1 (List.mem_of_find?_eq_some hfind)
  refine ⟨_, ?_, knot_strongComponent hends hnodup hc
    ((isCycle_strongComponent hends hnodup hc).1 (List.find?_some hfind))⟩
  unfold findCycle
  rw [hflag, if_neg Bool.false_ne_true, hfind]
  rfl

end Index

end Crosswalk
