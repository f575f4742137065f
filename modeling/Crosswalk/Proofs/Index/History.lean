import Crosswalk.Proofs.Index.Closing
import Crosswalk.Proofs.Index.Cycle

/-!
# What a history leaves behind

The arrows of a graph are told by its history alone: a parent stands above a child when a link that
says so has come and no internal link between the two has gone since, whatever else has come and
gone in between. The flag, which single changes bring up to date, and the cycle that is reported are
exact for these arrows at every point of the history.
-/

namespace Crosswalk.Index

variable {history : List Change} {parent child : StoredId}

/-- Whether a history leaves a parent above a child: an internal link that says so has been added, and
no internal link between the two has been removed since. -/
def Stands (history : List Change) (parent child : StoredId) : Prop :=
  ∃ before l later, history = before ++ .addEdge l :: later ∧
    l.kind = .internal ∧ l.relation.ordered? l.source l.target = some (parent, child) ∧
    ∀ m, .removeEdge m ∈ later → m.kind = .internal → s(m.source, m.target) ≠ s(parent, child)

theorem arrow?_eq_some_iff_ordered {l : StoredLink} : l.arrow? = some (parent, child) ↔
    l.kind = .internal ∧ l.relation.ordered? l.source l.target = some (parent, child) := by
  cases hkind : l.kind with
  | internal => simp [StoredLink.arrow?_internal hkind]
  | external => simp [StoredLink.arrow?, hkind]

/-! ### One more change -/

theorem evolve_concat (history : List Change) (step : Change) :
    evolve (history ++ [step]) = (evolve history).change step :=
  List.foldl_concat ..

/-- The last change brings an arrow, or leaves one that stood before. -/
theorem stands_concat {step : Change} : Stands (history ++ [step]) parent child ↔
    (∃ l, step = .addEdge l ∧ l.arrow? = some (parent, child)) ∨
      Stands history parent child ∧ ∀ m, step = .removeEdge m → m.kind = .internal →
        s(m.source, m.target) ≠ s(parent, child) := by
  constructor
  · rintro ⟨before, l, later, hhistory, hkind, hordered, hkept⟩
    rcases List.eq_nil_or_concat' later with rfl | ⟨later, last, rfl⟩
    · obtain ⟨-, hstep⟩ := List.append_inj' hhistory rfl
      exact .inl ⟨l, List.singleton_inj.1 hstep, arrow?_eq_some_iff_ordered.2 ⟨hkind, hordered⟩⟩
    · rw [← List.cons_append, ← List.append_assoc] at hhistory
      obtain ⟨rfl, hstep⟩ := List.append_inj' hhistory rfl
      obtain rfl := List.singleton_inj.1 hstep
      refine .inr ⟨⟨before, l, later, rfl, hkind, hordered, fun m hm => ?_⟩, fun m hm => ?_⟩
      · exact hkept m (List.mem_append_left _ hm)
      · exact hkept m (List.mem_append_right _ (hm ▸ List.mem_singleton_self _))
  · rintro (⟨l, rfl, harrow⟩ | ⟨⟨before, l, later, rfl, hkind, hordered, hkept⟩, hlast⟩)
    · obtain ⟨hkind, hordered⟩ := arrow?_eq_some_iff_ordered.1 harrow
      exact ⟨history, l, [], rfl, hkind, hordered, fun m hm => absurd hm List.not_mem_nil⟩
    · refine ⟨before, l, later ++ [step], List.append_assoc .., hkind, hordered, fun m hm => ?_⟩
      rcases List.mem_append.1 hm with hm | hm
      · exact hkept m hm
      · exact hlast m (List.mem_singleton.1 hm).symm

/-- The arrows of a graph are those that its history leaves behind. -/
theorem mem_hierarchy_evolve :
    (parent, child) ∈ (evolve history).hierarchy ↔ Stands history parent child := by
  induction history using List.reverseRecOn with
  | nil =>
    refine iff_of_false List.not_mem_nil ?_
    rintro ⟨before, l, later, hhistory, -⟩
    exact List.append_ne_nil_of_right_ne_nil before (List.cons_ne_nil _ later) hhistory.symm
  | append_singleton history step ih =>
    rw [evolve_concat, stands_concat, ← ih]
    cases step with
    | addVertex v =>
      rw [change, addVertex_hierarchy]
      simp
    | addEdge l =>
      rw [change, mem_hierarchy_addEdge]
      simp [or_comm]
    | removeEdge l =>
      have hpair : s(l.source, l.target) ≠ s(parent, child) ↔
          ¬ (parent = l.source ∧ child = l.target) ∧ ¬ (parent = l.target ∧ child = l.source) := by
        rw [ne_eq, eq_comm, Sym2.eq_iff, not_or]
      rw [change, mem_hierarchy_removeEdge, ← hpair]
      simp

/-! ### The flag and the cycle -/

/-- However vertices and links have come and gone, the arrows of the graph are those that its history
leaves behind, and the flag is up exactly if they form no cycle. A cycle is reported exactly when the
flag has fallen; it consists of requirements that reach each other along arrows, and of one that is
its own parent if it is the only one. -/
theorem acyclic_and_findCycle_of_history (history : List Change) :
    let ix := evolve history
    (∀ parent child, (parent, child) ∈ ix.hierarchy ↔ Stands history parent child) ∧
      (ix.acyclic = true ↔ Graph.Acyclic ix.hierarchy) ∧
      (ix.findCycle.isSome = true ↔ ix.acyclic = false) ∧
      ∀ cycle, ix.findCycle = some cycle →
        ∃ ids, cycle = ids.map .requirement ∧ Graph.Knot ix.hierarchy ids := by
  intro ix
  have h : ix.Coherent := coherent_evolve history
  refine ⟨fun _ _ => mem_hierarchy_evolve, h.flag, ?_⟩
  cases hflag : ix.acyclic with
  | true =>
    rw [findCycle_eq_none hflag]
    exact ⟨by simp, fun cycle hcycle => by cases hcycle⟩
  | false =>
    obtain ⟨ids, hfind, hknot⟩ := h.exists_findCycle hflag
    rw [hfind]
    refine ⟨by simp, fun cycle hcycle => ?_⟩
    cases hcycle
    exact ⟨ids, rfl, hknot⟩

end Crosswalk.Index
