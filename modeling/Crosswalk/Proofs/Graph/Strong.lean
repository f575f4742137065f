import Crosswalk.Graph.Strong
import Crosswalk.Proofs.Graph.Reachability

/-!
# Strongly connected components are classes

Two vertices are in one component exactly if each reaches the other. The components that are listed
are those of all vertices: the one of a vertex is listed where the last vertex that shares it stands.
-/

namespace Crosswalk.Graph

variable {α : Type} {arrows : List (α × α)} {vertices as : List α} {a b : α}

/-- Whether two vertices reach each other. -/
def Mutual (arrows : List (α × α)) (a b : α) : Prop :=
  Relation.ReflTransGen (Arrow arrows) a b ∧ Relation.ReflTransGen (Arrow arrows) b a

theorem Mutual.refl (a : α) : Mutual arrows a a :=
  ⟨.refl, .refl⟩

theorem Mutual.symm (h : Mutual arrows a b) : Mutual arrows b a :=
  ⟨h.2, h.1⟩

theorem Mutual.trans {c : α} (hab : Mutual arrows a b) (hbc : Mutual arrows b c) :
    Mutual arrows a c :=
  ⟨hab.1.trans hbc.1, hbc.2.trans hab.2⟩

variable [DecidableEq α]

theorem mutual_iff :
    ((reachable arrows a).contains b && reaches arrows b a) = true ↔ Mutual arrows a b := by
  rw [Bool.and_eq_true, reaches_iff, ← reaches, reaches_iff]
  rfl

theorem mem_strongComponent :
    b ∈ strongComponent arrows vertices a ↔ b ∈ vertices ∧ Mutual arrows a b := by
  unfold strongComponent
  dsimp only
  rw [List.mem_filter, mutual_iff]

theorem strongComponent_nodup (h : vertices.Nodup) : (strongComponent arrows vertices a).Nodup :=
  h.sublist List.filter_sublist

theorem strongComponent_congr (h : Mutual arrows a b) :
    strongComponent arrows vertices a = strongComponent arrows vertices b := by
  unfold strongComponent
  dsimp only
  refine List.filter_congr fun c hc => Bool.eq_iff_iff.2 ?_
  rw [mutual_iff, mutual_iff]
  exact ⟨h.symm.trans, h.trans⟩

theorem exists_of_mem_componentsEndingIn {component : List α}
    (h : component ∈ componentsEndingIn arrows vertices as) :
    ∃ a ∈ as, component = strongComponent arrows vertices a := by
  induction as with
  | nil => cases h
  | cons b as ih =>
    rw [componentsEndingIn] at h
    have hrest : component ∈ componentsEndingIn arrows vertices as →
        ∃ a ∈ b :: as, component = strongComponent arrows vertices a := fun hmem => by
      obtain ⟨a, ha, heq⟩ := ih hmem
      exact ⟨a, List.mem_cons_of_mem b ha, heq⟩
    split at h
    · rcases List.mem_cons.1 h with heq | hmem
      · exact ⟨b, List.mem_cons_self, heq⟩
      · exact hrest hmem
    · exact hrest h

/-- The component of a vertex is listed where the last vertex that shares it stands. -/
theorem strongComponent_mem_componentsEndingIn (ha : a ∈ as) :
    strongComponent arrows vertices a ∈ componentsEndingIn arrows vertices as := by
  induction as generalizing a with
  | nil => cases ha
  | cons b as ih =>
    rw [componentsEndingIn]
    by_cases hlast : strongComponent arrows as b = []
    · rw [if_pos (List.isEmpty_iff.2 hlast)]
      rcases List.mem_cons.1 ha with rfl | ha
      · exact List.mem_cons_self
      · exact List.mem_cons_of_mem _ (ih ha)
    · rw [if_neg (mt List.isEmpty_iff.1 hlast)]
      rcases List.mem_cons.1 ha with rfl | ha
      · obtain ⟨c, hc⟩ := List.exists_mem_of_ne_nil _ hlast
        obtain ⟨hc, hmutual⟩ := mem_strongComponent.1 hc
        rw [strongComponent_congr hmutual]
        exact ih hc
      · exact ih ha

theorem mem_strongComponents {component : List α} :
    component ∈ strongComponents arrows vertices ↔
      ∃ a ∈ vertices, component = strongComponent arrows vertices a := by
  refine ⟨exists_of_mem_componentsEndingIn, ?_⟩
  rintro ⟨a, ha, rfl⟩
  exact strongComponent_mem_componentsEndingIn ha

end Crosswalk.Graph
