import Crosswalk.Proofs.Graph.Component
import Crosswalk.Proofs.Graph.Walk
import Crosswalk.Proofs.Index.Evolution
import Mathlib.Data.Sym.Sym2

/-!
# Cycles foretold

Before a link is written, a search that leaves out what joins its two ends already tells whether it
would close a cycle. The search foretells the flag: it finds a path exactly when the flag falls once
the link has replaced what joins the two. The path it returns can be followed along arrows that
are there.
-/

namespace Crosswalk

/-- The parent and the child when one requirement relates to another hierarchically. -/
def Relation.ordered? (relation : Relation) (a b : StoredId) : Option (StoredId × StoredId) :=
  match relation with
  | .contains => some (a, b)
  | .partOf => some (b, a)
  | _ => none

variable {a b p c : StoredId} {relation : Relation}

theorem Relation.ordered?_ends (h : relation.ordered? a b = some (p, c)) :
    (p = a ∧ c = b) ∨ (p = b ∧ c = a) := by
  cases relation <;> cases h
  · exact .inr ⟨rfl, rfl⟩
  · exact .inl ⟨rfl, rfl⟩

theorem StoredLink.arrow?_internal {l : StoredLink} (h : l.kind = .internal) :
    l.arrow? = l.relation.ordered? l.source l.target := by
  obtain ⟨id, kind, source, target, lrelation⟩ := l
  obtain rfl : kind = .internal := h
  cases lrelation <;> rfl

namespace Index

variable {ix : Index}

theorem mem_dropArrows_iff_sym2 {arrows : List (StoredId × StoredId)} {x y : StoredId} :
    (x, y) ∈ dropArrows a b arrows ↔ (x, y) ∈ arrows ∧ s(x, y) ≠ s(a, b) := by
  rw [mem_dropArrows, ne_eq, Sym2.eq_iff, not_or]

/-! ### The search -/

theorem closingPath?_eq_none (h : relation.ordered? a b = none) :
    ix.closingPath? a b relation = none := by
  cases relation <;> first | rfl | cases h

/-- The search starts from the child and leaves out what joins the two. -/
theorem closingPath?_eq (h : relation.ordered? a b = some (p, c)) :
    ix.closingPath? a b relation =
      if p = c then some [.requirement p, .requirement p]
      else if c ∈ ix.requirements ∧ p ∈ ix.requirements then
        (Graph.shortestPath? (dropArrows a b ix.hierarchy) c p).map fun path =>
          (p :: path).map .requirement
      else none := by
  cases relation <;> cases h <;> rfl

/-- Where the ends of a path are known, the search finds one if there is one. -/
theorem isSome_closingPath? (h : relation.ordered? a b = some (p, c))
    (hknown : p ≠ c → Relation.ReflTransGen (Graph.Arrow (dropArrows a b ix.hierarchy)) c p →
      c ∈ ix.requirements ∧ p ∈ ix.requirements) :
    (ix.closingPath? a b relation).isSome = true ↔
      Relation.ReflTransGen (Graph.Arrow (dropArrows a b ix.hierarchy)) c p := by
  rw [closingPath?_eq h]
  split
  · rename_i hpc
    subst hpc
    exact iff_of_true rfl .refl
  · rename_i hpc
    split
    · rw [Option.isSome_map]
      exact Graph.isSome_shortestPath?
    · rename_i hunknown
      exact iff_of_false Bool.false_ne_true fun hpath => hunknown (hknown hpc hpath)

/-- A path that is found goes from the parent to the child and from there along arrows that do not
join the two back to the parent. -/
theorem closingPath?_isWalk {path : List Vertex} (h : relation.ordered? a b = some (p, c))
    (hpath : ix.closingPath? a b relation = some path) :
    ∃ walk, path = (p :: walk).map .requirement ∧
      Graph.IsWalk (fun x y => (x, y) ∈ ix.hierarchy ∧ s(x, y) ≠ s(a, b)) c p walk := by
  rw [closingPath?_eq h] at hpath
  split at hpath
  · rename_i hpc
    subst hpc
    cases hpath
    exact ⟨[p], rfl, .single _ p⟩
  · split at hpath
    · obtain ⟨walk, hwalk, rfl⟩ := Option.map_eq_some_iff.1 hpath
      obtain ⟨hwalk, -⟩ := Graph.shortestPath?_eq_some hwalk
      exact ⟨walk, rfl, hwalk.head, hwalk.last,
        hwalk.chain.imp fun x y hxy => mem_dropArrows_iff_sym2.1 hxy⟩
    · cases hpath

/-- On a graph whose arrows know their ends the search finds each path back. -/
theorem Coherent.isSome_closingPath?_iff (h : ix.Coherent) :
    (ix.closingPath? a b relation).isSome = true ↔
      ∃ p c, relation.ordered? a b = some (p, c) ∧
        Relation.ReflTransGen (Graph.Arrow (dropArrows a b ix.hierarchy)) c p := by
  cases hordered : relation.ordered? a b with
  | none =>
    rw [closingPath?_eq_none hordered]
    exact iff_of_false Bool.false_ne_true fun ⟨p, c, hpc, _⟩ => by cases hpc
  | some arrow =>
    obtain ⟨p, c⟩ := arrow
    rw [isSome_closingPath? hordered]
    · constructor
      · exact fun hpath => ⟨p, c, rfl, hpath⟩
      · rintro ⟨_, _, hpc, hpath⟩
        cases hpc
        exact hpath
    · -- the first and the last arrow of the path know its ends
      intro hne hpath
      obtain ⟨d, hcd, -⟩ := (Relation.ReflTransGen.cases_head hpath).resolve_left hne.symm
      obtain ⟨e, -, hep⟩ := (Relation.ReflTransGen.cases_tail hpath).resolve_left hne
      exact ⟨(h.ends c d (mem_dropArrows.1 hcd).1).1, (h.ends e p (mem_dropArrows.1 hep).1).2⟩

/-! ### The link in the place of another -/

/-- When a link has taken the place of what led between its ends, the flag has fallen exactly if
the search had found a path. -/
theorem Coherent.acyclic_iff_closingPath? (h : ix.Coherent) (hflag : ix.acyclic = true)
    {after : Index} (hafter : after.FlagExact)
    (harrows : ∀ x y, (x, y) ∈ after.hierarchy ↔
      (x, y) ∈ dropArrows a b ix.hierarchy ∨ relation.ordered? a b = some (x, y)) :
    after.acyclic = true ↔ ix.closingPath? a b relation = none := by
  have hacyclic : Graph.Acyclic (dropArrows a b ix.hierarchy) :=
    (h.flag.1 hflag).anti (List.filter_subset_self _)
  have hexact : after.acyclic = true ↔ Graph.Acyclic after.hierarchy := hafter
  rw [hexact, ← Option.not_isSome_iff_eq_none, h.isSome_closingPath?_iff]
  cases hordered : relation.ordered? a b with
  | none =>
    refine iff_of_true (hacyclic.anti fun arrow harrow => ?_) fun ⟨p, c, hpc, _⟩ => by cases hpc
    exact ((harrows _ _).1 harrow).resolve_right fun hpc => by
      rw [hordered] at hpc
      cases hpc
  | some arrow =>
    obtain ⟨p, c⟩ := arrow
    have hmem : ∀ {x y}, (x, y) ∈ after.hierarchy ↔
        (x, y) ∈ (p, c) :: dropArrows a b ix.hierarchy := by
      intro x y
      rw [harrows, hordered, List.mem_cons, Option.some.injEq, or_comm, eq_comm]
    have hcons : Graph.Acyclic after.hierarchy ↔
        Graph.Acyclic ((p, c) :: dropArrows a b ix.hierarchy) :=
      ⟨fun ha => ha.anti fun _ hx => hmem.2 hx, fun ha => ha.anti fun _ hx => hmem.1 hx⟩
    rw [hcons, Graph.acyclic_cons, and_iff_right hacyclic, not_iff_not]
    constructor
    · exact fun hpath => ⟨p, c, rfl, hpath⟩
    · rintro ⟨_, _, hpc, hpath⟩
      cases hpc
      exact hpath

/-- The arrows after an internal link between two requirements has given way to another one. -/
theorem mem_hierarchy_replace {old : StoredLink} (hold : old.kind = .internal)
    (hjoins : old.joins a b = true) (id : StoredId) (spelling : LinkSpelling) {x y : StoredId} :
    (x, y) ∈ ((ix.removeEdge old).addEdge ⟨id, .internal, a, b, relation, spelling⟩).hierarchy ↔
      (x, y) ∈ dropArrows a b ix.hierarchy ∨ relation.ordered? a b = some (x, y) := by
  simp only [StoredLink.joins, LinkKind.joins, hold, Bool.or_eq_true, Bool.and_eq_true,
    decide_eq_true_eq] at hjoins
  rw [mem_hierarchy_addEdge, StoredLink.arrow?_internal rfl, mem_hierarchy_removeEdge,
    mem_dropArrows, hold]
  rcases hjoins with ⟨hs, ht⟩ | ⟨hs, ht⟩ <;> rw [hs, ht] <;> tauto

/-! ### Connected requirements -/

theorem mem_joined {v w : Vertex} : (v, w) ∈ ix.joined ↔ ix.Linked v w := by
  rw [joined, Graph.mem_undirected]
  simp only [List.mem_map, Prod.mk.injEq, Linked]
  rw [← exists_or]
  exact exists_congr fun e => and_or_left.symm

/-- Edges are followed in both directions. -/
instance : Std.Symm (Graph.Arrow ix.joined) :=
  inferInstanceAs (Std.Symm (Graph.Arrow (Graph.undirected _)))

/-- Requirements that a walk along arrows leads from one to the other are connected. -/
theorem Coherent.hasPath (h : ix.Coherent) (hne : a ≠ b)
    (hpath : Relation.ReflTransGen (Graph.Arrow ix.hierarchy) a b) :
    ix.hasPath (.requirement a) (.requirement b) = true ∧
      ix.hasPath (.requirement b) (.requirement a) = true := by
  obtain ⟨d, had, -⟩ := (Relation.ReflTransGen.cases_head hpath).resolve_left hne
  obtain ⟨e, -, heb⟩ := (Relation.ReflTransGen.cases_tail hpath).resolve_left hne.symm
  have ha : ix.contains (.requirement a) = true :=
    List.contains_iff_mem.2 (mem_requirements_iff.1 (h.ends a d had).1)
  have hb : ix.contains (.requirement b) = true :=
    List.contains_iff_mem.2 (mem_requirements_iff.1 (h.ends e b heb).2)
  have hjoined : Relation.ReflTransGen (Graph.Arrow ix.joined) (.requirement a) (.requirement b) :=
    Relation.ReflTransGen.lift Vertex.requirement (fun x y hxy => mem_joined.2 (h.linked x y hxy))
      a b hpath
  have hback := Std.Symm.symm _ _ hjoined
  unfold Index.hasPath
  rw [ha, hb, Graph.reaches_iff.2 hjoined, Graph.reaches_iff.2 hback]
  exact ⟨rfl, rfl⟩

/-! ### What is foretold -/

/-- On a graph without a cycle, however it has come about, the check for a link between two
requirements always answers. It foretells what the flag says once the link has taken the place of
an internal link between the two, and a cycle that it reports goes from the parent to the child and
from there back along arrows that do not join the two, which are then connected. -/
theorem introducesCycle_foretells (changes : List Change)
    (hflag : (evolve changes).acyclic = true) (a b : StoredId) (relation : Relation) :
    ∃ answer, (evolve changes).introducesCycle a b relation = .ok answer ∧
      (∀ (old : StoredLink) (id : StoredId) (spelling : LinkSpelling),
        old.kind = .internal → old.joins a b = true →
        (answer.isSome = true ↔
          (((evolve changes).removeEdge old).addEdge
            ⟨id, .internal, a, b, relation, spelling⟩).acyclic = false)) ∧
      ∀ path, answer = some path → ∃ parent child walk,
        relation.ordered? a b = some (parent, child) ∧
        path = (parent :: walk).map .requirement ∧
        Graph.IsWalk (fun x y => (x, y) ∈ (evolve changes).hierarchy ∧ s(x, y) ≠ s(a, b))
          child parent walk ∧
        (a ≠ b → (evolve changes).hasPath (.requirement a) (.requirement b) = true) := by
  have h := coherent_evolve changes
  generalize evolve changes = ix at hflag h
  refine ⟨ix.closingPath? a b relation, by rw [introducesCycle, if_pos hflag], ?_, ?_⟩
  · intro old id spelling hold hjoins
    have hexact := ((h.removeEdge old).addEdge ⟨id, .internal, a, b, relation, spelling⟩).flag
    rw [← Bool.not_eq_true, h.acyclic_iff_closingPath? hflag hexact fun x y =>
      mem_hierarchy_replace hold hjoins id spelling, ← ne_eq, Option.ne_none_iff_isSome]
  · intro path hpath
    obtain ⟨p, c, hordered, hreach⟩ := h.isSome_closingPath?_iff.1 (Option.isSome_of_eq_some hpath)
    obtain ⟨walk, hwalk⟩ := closingPath?_isWalk hordered hpath
    refine ⟨p, c, walk, hordered, hwalk.1, hwalk.2, fun hne => ?_⟩
    have hsub : dropArrows a b ix.hierarchy ⊆ ix.hierarchy := List.filter_subset_self _
    have hup := Relation.ReflTransGen.mono (Graph.arrow_le hsub) c p hreach
    rcases Relation.ordered?_ends hordered with ⟨rfl, rfl⟩ | ⟨rfl, rfl⟩
    · exact (h.hasPath hne.symm hup).2
    · exact (h.hasPath hne hup).1

/-- Three requirements that contain each other in a row, after a link that closed a cycle between
the ends has come and gone. -/
def row : List Change :=
  [.addVertex (.requirement ⟨0⟩),
    .addEdge ⟨⟨10⟩, .internal, ⟨0⟩, ⟨1⟩, .contains, .plain⟩,
    .addEdge ⟨⟨11⟩, .internal, ⟨2⟩, ⟨1⟩, .partOf, .plain⟩,
    .addEdge ⟨⟨12⟩, .internal, ⟨0⟩, ⟨2⟩, .partOf, .plain⟩,
    .removeEdge ⟨⟨12⟩, .internal, ⟨0⟩, ⟨2⟩, .partOf, .plain⟩]

theorem introducesCycle_foretells_row :
    (evolve row).acyclic = true ∧
      (evolve row).introducesCycle ⟨2⟩ ⟨0⟩ .contains =
        .ok (some ([⟨2⟩, ⟨0⟩, ⟨1⟩, ⟨2⟩].map .requirement)) ∧
      (∀ (old : StoredLink) (id : StoredId) (spelling : LinkSpelling),
        old.kind = .internal → old.joins ⟨2⟩ ⟨0⟩ = true →
        (((evolve row).removeEdge old).addEdge
          ⟨id, .internal, ⟨2⟩, ⟨0⟩, .contains, spelling⟩).acyclic = false) ∧
      (evolve row).hasPath (.requirement ⟨2⟩) (.requirement ⟨0⟩) = true := by
  have hflag : (evolve row).acyclic = true := by decide +kernel
  have hfound : (evolve row).introducesCycle ⟨2⟩ ⟨0⟩ .contains =
      .ok (some ([⟨2⟩, ⟨0⟩, ⟨1⟩, ⟨2⟩].map .requirement)) := by
    rw [introducesCycle, if_pos hflag]
    exact congrArg Except.ok (by decide +kernel)
  obtain ⟨answer, hanswer, hforetold, hpath⟩ := introducesCycle_foretells row hflag ⟨2⟩ ⟨0⟩ .contains
  obtain rfl := Except.ok.inj (hfound.symm.trans hanswer)
  obtain ⟨_, _, _, -, -, -, hconnected⟩ := hpath _ rfl
  exact ⟨hflag, hfound,
    fun old id spelling hold hjoins => (hforetold old id spelling hold hjoins).1 rfl,
    hconnected (by decide)⟩

end Index

end Crosswalk
