import Crosswalk.Graph.Path
import Mathlib.Data.List.Nodup
import Mathlib.Tactic.Tauto

/-!
# The order of leaving

A search into depth leaves every vertex that it sees, and leaves it once. So the order in which
vertices are left lists every vertex from which the search is started, without repetitions, however
the successors of a vertex are ordered.
-/

namespace Crosswalk.Graph

variable {α : Type} {s t u : List α × List α}

/-- What a part of the search does to the vertices seen and the vertices left: what it sees anew, it
leaves. -/
structure Explores (s t : List α × List α) : Prop where
  seen : s.1 ⊆ t.1
  left : ∀ a, a ∈ t.2 ↔ a ∈ s.2 ∨ (a ∈ t.1 ∧ a ∉ s.1)
  nodup : s.2 ⊆ s.1 → s.2.Nodup → t.2.Nodup

namespace Explores

theorem refl (s : List α × List α) : Explores s s where
  seen := fun _ h => h
  left := by tauto
  nodup := fun _ h => h

theorem left_subset (h : Explores s t) (hs : s.2 ⊆ s.1) : t.2 ⊆ t.1 := by
  intro a ha
  rcases (h.left a).1 ha with ha | ha
  · exact h.seen (hs ha)
  · exact ha.1

theorem trans (h : Explores s t) (h' : Explores t u) : Explores s u where
  seen := fun _ ha => h'.seen (h.seen ha)
  left := by
    intro a
    have hst : a ∈ s.1 → a ∈ t.1 := fun ha => h.seen ha
    have htu : a ∈ t.1 → a ∈ u.1 := fun ha => h'.seen ha
    rw [h'.left, h.left]
    tauto
  nodup := fun hs hnodup => h'.nodup (h.left_subset hs) (h.nodup hs hnodup)

/-- A vertex that has not been seen is seen, what lies below it is explored, and it is left. -/
theorem cons {a : α} (ha : a ∉ s.1) (h : Explores (a :: s.1, s.2) t) :
    Explores s (t.1, a :: t.2) where
  seen := fun _ hb => h.seen (List.mem_cons_of_mem a hb)
  left := by
    intro b
    have hat : a ∈ t.1 := h.seen List.mem_cons_self
    rw [List.mem_cons, h.left, List.mem_cons]
    by_cases hba : b = a
    · subst hba
      tauto
    · tauto
  nodup := by
    intro hs hnodup
    rw [List.nodup_cons]
    refine ⟨fun hat => ?_, h.nodup (fun _ hb => List.mem_cons_of_mem a (hs hb)) hnodup⟩
    rcases (h.left a).1 hat with hmem | hmem
    · exact ha (hs hmem)
    · exact hmem.2 List.mem_cons_self

end Explores

theorem explores_foldl {visit : α → List α × List α → List α × List α}
    (h : ∀ a s, Explores s (visit a s)) (as : List α) (s : List α × List α) :
    Explores s (as.foldl (fun state a => visit a state) s) := by
  induction as generalizing s with
  | nil => exact .refl s
  | cons a as ih => exact (h a s).trans (ih _)

variable [DecidableEq α]

theorem explores_visit (next : α → List α) (depth : Nat) (a : α) (s : List α × List α) :
    Explores s (visit next depth a s) := by
  induction depth generalizing a s with
  | zero => exact .refl s
  | succ depth ih =>
    obtain ⟨seen, left⟩ := s
    rw [visit]
    split
    · exact .refl _
    · rename_i ha
      exact .cons (by simpa using ha) (explores_foldl (fun b t => ih b t) (next a) _)

theorem mem_seen_visit (next : α → List α) (depth : Nat) (a : α) (s : List α × List α) :
    a ∈ (visit next (depth + 1) a s).1 := by
  obtain ⟨seen, left⟩ := s
  rw [visit]
  split
  · rename_i ha
    exact List.contains_iff_mem.1 ha
  · exact (explores_foldl (fun b t => explores_visit next depth b t) (next a) _).seen
      List.mem_cons_self

theorem explores_leavingOrder (next : α → List α) (vertices : List α) :
    Explores ([], []) (vertices.foldl (fun state a => visit next (vertices.length + 1) a state)
      ([], [])) :=
  explores_foldl (fun a s => explores_visit next (vertices.length + 1) a s) vertices _

theorem leavingOrder_nodup (next : α → List α) (vertices : List α) :
    (leavingOrder next vertices).Nodup :=
  List.nodup_reverse.2
    ((explores_leavingOrder next vertices).nodup (List.Subset.refl []) List.nodup_nil)

theorem mem_leavingOrder {next : α → List α} {vertices : List α} {a : α} (ha : a ∈ vertices) :
    a ∈ leavingOrder next vertices := by
  have hseen : ∀ (as : List α) (s : List α × List α), a ∈ as →
      a ∈ (as.foldl (fun state b => visit next (vertices.length + 1) b state) s).1 := by
    intro as
    induction as with
    | nil => exact fun s h => absurd h List.not_mem_nil
    | cons b as ih =>
      intro s h
      rcases List.mem_cons.1 h with rfl | h
      · exact (explores_foldl (fun b t => explores_visit next _ b t) as _).seen
          (mem_seen_visit next _ a s)
      · exact ih _ h
  refine List.mem_reverse.2 (((explores_leavingOrder next vertices).left a).2 (.inr ⟨?_, ?_⟩))
  · exact hseen vertices _ ha
  · exact List.not_mem_nil

end Crosswalk.Graph
