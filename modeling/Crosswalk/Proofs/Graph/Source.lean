import Crosswalk.Proofs.Graph.Reachability

/-!
# Sources of acyclic graphs

Walking back against the arrows of a finite graph without cycles comes to an end, and it ends in a
vertex that no arrow leads to. What grows along an arrow is the number of arrows behind a vertex:
those behind the start are behind the end too, and the arrow itself is behind the end only.
-/

namespace Crosswalk.Graph

variable {α : Type} {arrows : List (α × α)} {a b : α}

/-- A vertex that no arrow leads to. -/
def IsSource (arrows : List (α × α)) (a : α) : Prop :=
  ∀ b, ¬ Arrow arrows b a

variable [DecidableEq α]

/-- The arrows whose ends lead to a vertex. -/
def arrowsBehind (arrows : List (α × α)) (a : α) : List (α × α) :=
  arrows.filter fun p => reaches arrows p.2 a

theorem mem_arrowsBehind {p : α × α} :
    p ∈ arrowsBehind arrows a ↔ p ∈ arrows ∧ Relation.ReflTransGen (Arrow arrows) p.2 a := by
  rw [arrowsBehind, List.mem_filter, reaches_iff]

theorem Acyclic.length_arrowsBehind_lt (h : Acyclic arrows) (hab : Arrow arrows a b) :
    (arrowsBehind arrows a).length < (arrowsBehind arrows b).length := by
  have heq : arrowsBehind arrows a =
      (arrowsBehind arrows b).filter fun p => reaches arrows p.2 a := by
    unfold arrowsBehind
    rw [List.filter_filter]
    refine List.filter_congr fun p _ => ?_
    rw [Bool.eq_iff_iff, Bool.and_eq_true, reaches_iff, reaches_iff]
    exact ⟨fun hpa => ⟨hpa, hpa.tail hab⟩, fun hboth => hboth.1⟩
  have hself : (a, b) ∈ arrowsBehind arrows b := mem_arrowsBehind.2 ⟨hab, .refl⟩
  rw [heq, List.length_filter_lt_length_iff_exists]
  refine ⟨(a, b), hself, fun hback => h a ?_⟩
  exact Relation.TransGen.head' hab (reaches_iff.1 hback)

/-- Every vertex of a graph without cycles is reached from a source. -/
theorem Acyclic.exists_source (h : Acyclic arrows) (a : α) :
    ∃ source, IsSource arrows source ∧ Relation.ReflTransGen (Arrow arrows) source a := by
  -- on the number of arrows behind the vertex
  induction hn : (arrowsBehind arrows a).length using Nat.strongRecOn generalizing a with
  | _ n ih =>
    by_cases hback : ∃ b, Arrow arrows b a
    · obtain ⟨b, hba⟩ := hback
      have hlt := h.length_arrowsBehind_lt hba
      rw [hn] at hlt
      obtain ⟨source, hsource, hpath⟩ := ih _ hlt b rfl
      exact ⟨source, hsource, hpath.tail hba⟩
    · exact ⟨a, fun b hba => hback ⟨b, hba⟩, .refl⟩

end Crosswalk.Graph
