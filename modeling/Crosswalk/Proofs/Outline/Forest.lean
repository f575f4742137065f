import Crosswalk.Proofs.Graph.Reachability
import Mathlib.Data.List.Nodup

/-!
# Ordered forests

The names in a forest are listed with a parent before its children. Where they differ, every name
but those of the roots is the child in one pair of a parent and a child, and a parent always comes
before its children, so the pairs have no cycle.
-/

namespace Crosswalk

/-- An ordered forest of names: the first root, the forest below it and the trees after it. -/
inductive Forest where
  | nil
  | cons (name : String) (children siblings : Forest)
deriving DecidableEq

namespace Forest

variable {f : Forest} {p c : String}

def height : Forest → Nat
  | nil => 0
  | cons _ children siblings => max (children.height + 1) siblings.height

def roots : Forest → List String
  | nil => []
  | cons name _ siblings => name :: siblings.roots

/-- Every name with the names of its children, a parent before its children. -/
def families : Forest → List (String × List String)
  | nil => []
  | cons name children siblings =>
    (name, children.roots) :: (children.families ++ siblings.families)

def names (f : Forest) : List String :=
  f.families.map (·.1)

/-- The pairs of a parent and a child. -/
def edges (f : Forest) : List (String × String) :=
  f.families.flatMap fun family => family.2.map (family.1, ·)

@[simp]
theorem names_cons (name : String) (children siblings : Forest) :
    (cons name children siblings).names = name :: (children.names ++ siblings.names) := by
  simp [names, families]

@[simp]
theorem edges_cons (name : String) (children siblings : Forest) :
    (cons name children siblings).edges =
      children.roots.map (name, ·) ++ (children.edges ++ siblings.edges) := by
  simp [edges, families]

theorem roots_subset (f : Forest) : f.roots ⊆ f.names := by
  induction f with
  | nil => simp [roots]
  | cons name children siblings _ ih =>
    rw [names_cons, roots]
    exact List.cons_subset_cons _ (List.subset_append_of_subset_right _ ih)

/-- Every name is a root or the child of one parent. -/
theorem perm_names (f : Forest) : (f.roots ++ f.edges.map (·.2)).Perm f.names := by
  induction f with
  | nil => exact .refl _
  | cons name children siblings ihc ihs =>
    have hchildren : (children.roots.map (name, ·)).map (·.2) = children.roots := by
      simp [Function.comp_def]
    rw [names_cons, roots, edges_cons, List.map_append, List.map_append, hchildren,
      List.cons_append]
    have hregroup := List.perm_append_comm_assoc siblings.roots
      (children.roots ++ children.edges.map (·.2)) (siblings.edges.map (·.2))
    rw [List.append_assoc] at hregroup
    exact .cons _ (hregroup.trans (ihc.append ihs))

/-- A parent comes before its children. -/
theorem names_split (h : (p, c) ∈ f.edges) :
    ∃ before after, f.names = before ++ after ∧ p ∈ before ∧ c ∈ after := by
  induction f with
  | nil => cases h
  | cons name children siblings ihc ihs =>
    rw [names_cons]
    simp only [edges_cons, List.mem_append, List.mem_map, Prod.mk.injEq] at h
    rcases h with ⟨r, hr, rfl, rfl⟩ | h | h
    · exact ⟨[name], _, rfl, List.mem_singleton_self _,
        List.mem_append_left _ (roots_subset _ hr)⟩
    · obtain ⟨before, after, hnames, hp, hc⟩ := ihc h
      exact ⟨name :: before, after ++ siblings.names, by simp [hnames],
        List.mem_cons_of_mem _ hp, List.mem_append_left _ hc⟩
    · obtain ⟨before, after, hnames, hp, hc⟩ := ihs h
      exact ⟨name :: (children.names ++ before), after, by simp [hnames],
        List.mem_cons_of_mem _ (List.mem_append_right _ hp), hc⟩

theorem mem_names_of_edge (h : (p, c) ∈ f.edges) : p ∈ f.names ∧ c ∈ f.names := by
  obtain ⟨before, after, hnames, hp, hc⟩ := names_split h
  rw [hnames]
  exact ⟨List.mem_append_left _ hp, List.mem_append_right _ hc⟩

section

variable (hnodup : f.names.Nodup)

include hnodup

theorem idxOf_lt_of_edge (h : (p, c) ∈ f.edges) : f.names.idxOf p < f.names.idxOf c := by
  obtain ⟨before, after, hnames, hp, hc⟩ := names_split h
  rw [hnames] at hnodup ⊢
  have hnot : c ∉ before := fun hmem => (List.nodup_append.1 hnodup).2.2 c hmem c hc rfl
  rw [List.idxOf_append_of_mem hp, List.idxOf_append_of_notMem hnot]
  exact Nat.lt_add_right _ (List.idxOf_lt_length_iff.2 hp)

theorem acyclic_edges : Graph.Acyclic f.edges :=
  Graph.acyclic_of_rank f.names.idxOf fun _ _ => idxOf_lt_of_edge hnodup

theorem edges_nodup : f.edges.Nodup := by
  have hchildren := ((perm_names f).nodup_iff.2 hnodup)
  exact .of_map (·.2) (List.nodup_append.1 hchildren).2.1

end

end Forest

end Crosswalk
