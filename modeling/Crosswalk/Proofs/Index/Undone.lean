import Crosswalk.Catalog
import Crosswalk.Proofs.Index.Edges
import Crosswalk.Proofs.Store.Entries

/-!
# Changes that are taken back

A link is written into the graph before the store has kept it. If the store refuses at last, the
graph is changed back: the link goes, and the link whose place it had taken comes again. Nothing
between other ends is touched on the way, and between the ends of the link nothing is left but what
stood there at first. The flag has risen and fallen with the changes, but as it is exact after every
one of them, it is as before as well.
-/

namespace Crosswalk

/-- What writing a link does to the graph. -/
theorem Catalog.index_writeLink {c c' : Catalog} {old : Option StoredLink} {l : StoredLink}
    {outcome : LinkOutcome} (h : c.writeLink old l = .ok (outcome, c')) :
    c'.index = c.index.replaceEdge old l := by
  unfold writeLink transactLink at h
  cases hstore : c.store.writeLink old l <;> rw [hstore] at h <;> cases h
  rfl

namespace Index

variable {ix : Index} {l m : StoredLink} {old : Option StoredLink}

/-! ### Between the ends of a link and elsewhere -/

/-- Whether an edge joins the ends of a link, in either direction. -/
def isBetween (l : StoredLink) (e : Edge) : Bool :=
  s(e.source, e.target) = l.pair

/-- Whether an arrow joins the ends of a link, in either direction. -/
def isArrowBetween (l : StoredLink) (arrow : StoredId × StoredId) : Bool :=
  s(Vertex.requirement arrow.1, Vertex.requirement arrow.2) = l.pair

def edgesElsewhere (ix : Index) (l : StoredLink) : List Edge :=
  ix.edges.filter fun e => !isBetween l e

def arrowsElsewhere (ix : Index) (l : StoredLink) : List (StoredId × StoredId) :=
  ix.hierarchy.filter fun arrow => !isArrowBetween l arrow

/-- The ends of a link are joined as an old link has it, and not at all if there is none. -/
structure JoinedBy (ix : Index) (l : StoredLink) (old : Option StoredLink) : Prop where
  edges : ix.edges.filter (isBetween l) = old.toList.map StoredLink.edge
  arrows : ix.hierarchy.filter (isArrowBetween l) = old.toList.filterMap StoredLink.arrow?

/-- An old link that joins the ends of a new one is of its kind and on the same two entities. -/
theorem JoinedBy.pair_eq (h : ix.JoinedBy l old) (hm : old = some m) : m.pair = l.pair := by
  subst hm
  have hmem : m.edge ∈ ix.edges.filter (isBetween l) := by
    rw [h.edges]
    exact List.mem_singleton_self _
  exact of_decide_eq_true (List.mem_filter.1 hmem).2

/-! ### A link that goes -/

theorem edges_removeEdge (h : m.pair = l.pair) : (ix.removeEdge m).edges = ix.edgesElsewhere l := by
  have hedges : (ix.removeEdge m).edges = dropEdges m.sourceVertex m.targetVertex ix.edges := by
    unfold removeEdge
    dsimp only
    split <;> rfl
  rw [hedges, edgesElsewhere]
  refine List.filter_congr fun e _ => ?_
  rw [Bool.eq_iff_iff, keeps_edge_iff, isBetween, ← h, StoredLink.pair, Bool.not_eq_true',
    decide_eq_false_iff_not, Sym2.eq_iff, not_or]

theorem hierarchy_removeEdge (h : m.pair = l.pair) :
    (ix.removeEdge m).hierarchy = ix.arrowsElsewhere l := by
  unfold arrowsElsewhere isArrowBetween
  rw [← h]
  unfold removeEdge
  dsimp only
  split
  · rename_i hkind
    refine List.filter_congr fun arrow _ => ?_
    rw [StoredLink.pair, StoredLink.targetVertex_of_internal hkind, StoredLink.sourceVertex]
    simp [Bool.decide_or]
  · -- a link to a node joins no two requirements
    rename_i hkind
    refine (List.filter_eq_self.2 fun arrow _ => ?_).symm
    rw [StoredLink.pair, StoredLink.targetVertex_of_external hkind]
    simp

/-- What an old link leaves when it goes, and what there is without one. -/
theorem JoinedBy.cleared (h : ix.JoinedBy l old) :
    (old.elim ix ix.removeEdge).edges = ix.edgesElsewhere l ∧
      (old.elim ix ix.removeEdge).hierarchy = ix.arrowsElsewhere l := by
  cases hold : old with
  | some m => exact ⟨edges_removeEdge (h.pair_eq hold), hierarchy_removeEdge (h.pair_eq hold)⟩
  | none =>
    subst hold
    have hedges := List.filter_eq_nil_iff.1 h.edges
    have harrows := List.filter_eq_nil_iff.1 h.arrows
    constructor
    · exact (List.filter_eq_self.2 fun e he => by simpa using hedges e he).symm
    · exact (List.filter_eq_self.2 fun a ha => by simpa using harrows a ha).symm

/-! ### A link that comes -/

theorem isBetween_edge (h : m.pair = l.pair) : isBetween l m.edge = true :=
  decide_eq_true h

theorem isArrowBetween_arrow (h : m.pair = l.pair) {arrow : StoredId × StoredId}
    (harrow : m.arrow? = some arrow) : isArrowBetween l arrow = true := by
  refine decide_eq_true ?_
  rw [← h, StoredLink.pair]
  rcases StoredLink.vertices_of_arrow? harrow with ⟨hs, ht⟩ | ⟨hs, ht⟩ <;> rw [hs, ht]
  exact Sym2.eq_swap

/-- A link between ends that nothing joins comes last. -/
theorem edges_addEdge_of_apart (h : m.pair = l.pair) (hix : ∀ e ∈ ix.edges, isBetween l e = false) :
    (ix.addEdge m).edges = ix.edges ++ [m.edge] := by
  rw [edges_addEdge]
  refine setEdge_of_forall_ne fun e he hends => ?_
  have hbetween : isBetween l e = isBetween l m.edge := by
    rw [isBetween, isBetween, hends.1, hends.2]
  rw [hix e he, isBetween_edge h] at hbetween
  cases hbetween

theorem hierarchy_addEdge_of_apart (h : m.pair = l.pair)
    (hix : ∀ a ∈ ix.hierarchy, isArrowBetween l a = false) :
    (ix.addEdge m).hierarchy = ix.hierarchy ++ m.arrow?.toList := by
  unfold addEdge
  dsimp only
  split
  · rename_i parent child harrow
    rw [addArrow_hierarchy]
    dsimp only
    rw [addVertex_hierarchy, addVertex_hierarchy, if_neg, harrow]
    · rfl
    · intro hmem
      have hnot := hix _ hmem
      rw [isArrowBetween_arrow h harrow] at hnot
      cases hnot
  · rename_i hnone
    rw [hnone]
    show ((ix.addVertex _).addVertex _).hierarchy = _
    rw [addVertex_hierarchy, addVertex_hierarchy]
    exact (List.append_nil _).symm

theorem vertices_addEdge_of_mem (hs : l.sourceVertex ∈ ix.vertices)
    (ht : l.targetVertex ∈ ix.vertices) : (ix.addEdge l).vertices = ix.vertices := by
  have hsource : ix.addVertex l.sourceVertex = ix := if_pos hs
  have htarget : ix.addVertex l.targetVertex = ix := if_pos ht
  rw [vertices_addEdge, hsource, htarget]

theorem filter_not_append {α : Type} {p : α → Bool} {xs ys : List α} (hxs : ∀ x ∈ xs, p x = false)
    (hys : ∀ y ∈ ys, p y = true) : (xs ++ ys).filter (fun x => !p x) = xs := by
  have hkept : xs.filter (fun x => !p x) = xs :=
    List.filter_eq_self.2 fun x hx => by simp [hxs x hx]
  have hgone : ys.filter (fun x => !p x) = [] :=
    List.filter_eq_nil_iff.2 fun y hy => by simp [hys y hy]
  rw [List.filter_append, hkept, hgone, List.append_nil]

/-- A link that comes between ends that nothing joins and goes again leaves no trace in edges and
arrows. -/
theorem removeEdge_addEdge_of_apart (hedges : ∀ e ∈ ix.edges, isBetween l e = false)
    (harrows : ∀ a ∈ ix.hierarchy, isArrowBetween l a = false) :
    ((ix.addEdge l).removeEdge l).edges = ix.edges ∧
      ((ix.addEdge l).removeEdge l).hierarchy = ix.hierarchy := by
  constructor
  · rw [edges_removeEdge rfl, edgesElsewhere, edges_addEdge_of_apart rfl hedges]
    exact filter_not_append hedges (List.forall_mem_singleton.2 (isBetween_edge rfl))
  · rw [hierarchy_removeEdge rfl, arrowsElsewhere, hierarchy_addEdge_of_apart rfl harrows]
    exact filter_not_append harrows fun a ha => isArrowBetween_arrow rfl (Option.mem_toList.1 ha)

/-! ### There and back -/

theorem Coherent.there_and_back (h : ix.Coherent) (old : Option StoredLink) (l : StoredLink) :
    ((ix.replaceEdge old l).takeBack old l).Coherent := by
  have hback := (h.replaceEdge old l).removeEdge l
  cases old with
  | none => exact hback
  | some m => exact hback.addEdge m

theorem JoinedBy.vertices_eq (h : ix.JoinedBy l old) (hs : l.sourceVertex ∈ ix.vertices)
    (ht : l.targetVertex ∈ ix.vertices) :
    ((ix.replaceEdge old l).takeBack old l).vertices = ix.vertices := by
  cases hold : old with
  | none =>
    show ((ix.addEdge l).removeEdge l).vertices = ix.vertices
    rw [vertices_removeEdge, vertices_addEdge_of_mem hs ht]
  | some m =>
    show ((((ix.removeEdge m).addEdge l).removeEdge l).addEdge m).vertices = ix.vertices
    have hplaced : (((ix.removeEdge m).addEdge l).removeEdge l).vertices = ix.vertices := by
      rw [vertices_removeEdge, vertices_addEdge_of_mem] <;> rw [vertices_removeEdge] <;> assumption
    have hends : m.sourceVertex ∈ ix.vertices ∧ m.targetVertex ∈ ix.vertices := by
      rcases Sym2.eq_iff.1 (h.pair_eq hold) with ⟨hsource, htarget⟩ | ⟨hsource, htarget⟩ <;>
        rw [hsource, htarget]
      · exact ⟨hs, ht⟩
      · exact ⟨ht, hs⟩
    rw [← hplaced] at hends
    rw [vertices_addEdge_of_mem hends.1 hends.2, hplaced]

/-- What is between the ends of a link comes last when a replacement by it has been taken back. -/
theorem JoinedBy.there_and_back (h : ix.JoinedBy l old) :
    ((ix.replaceEdge old l).takeBack old l).edges =
        ix.edgesElsewhere l ++ old.toList.map StoredLink.edge ∧
      ((ix.replaceEdge old l).takeBack old l).hierarchy =
        ix.arrowsElsewhere l ++ old.toList.filterMap StoredLink.arrow? := by
  obtain ⟨hedges, hhierarchy⟩ := h.cleared
  have hapart : ∀ e ∈ (old.elim ix ix.removeEdge).edges, isBetween l e = false := by
    rw [hedges]
    exact fun e he => by simpa using (List.mem_filter.1 he).2
  have hapart' : ∀ a ∈ (old.elim ix ix.removeEdge).hierarchy, isArrowBetween l a = false := by
    rw [hhierarchy]
    exact fun a ha => by simpa using (List.mem_filter.1 ha).2
  obtain ⟨hgone, hgone'⟩ := removeEdge_addEdge_of_apart hapart hapart'
  rw [replaceEdge, takeBack, ← hedges, ← hhierarchy]
  cases hold : old with
  | none =>
    rw [hold] at hgone hgone'
    exact ⟨hgone.trans (List.append_nil _).symm, hgone'.trans (List.append_nil _).symm⟩
  | some m =>
    rw [hold] at hgone hgone' hapart hapart'
    have hpair := h.pair_eq hold
    dsimp only [Option.elim_some] at hgone hgone' hapart hapart' ⊢
    rw [edges_addEdge_of_apart hpair (hgone ▸ hapart),
      hierarchy_addEdge_of_apart hpair (hgone' ▸ hapart'), hgone, hgone']
    refine ⟨rfl, ?_⟩
    cases harrow : m.arrow? <;> simp [harrow]

theorem JoinedBy.undone (h : ix.JoinedBy l old) (hix : ix.Coherent)
    (hs : l.sourceVertex ∈ ix.vertices) (ht : l.targetVertex ∈ ix.vertices) :
    let back := (ix.replaceEdge old l).takeBack old l
    back.vertices = ix.vertices ∧ back.edges.Perm ix.edges ∧
      back.hierarchy.Perm ix.hierarchy ∧ back.acyclic = ix.acyclic := by
  intro back
  obtain ⟨hedges, hhierarchy⟩ := h.there_and_back
  have hback : back.Coherent := hix.there_and_back old l
  have harrows : back.hierarchy.Perm ix.hierarchy := by
    rw [show back.hierarchy = _ from hhierarchy, ← h.arrows]
    exact List.perm_append_comm.trans (List.filter_append_perm _ _)
  refine ⟨?_, ?_, harrows, ?_⟩
  · exact h.vertices_eq hs ht
  · rw [show back.edges = _ from hedges, ← h.edges]
    exact List.perm_append_comm.trans (List.filter_append_perm _ _)
  · -- the flag is exact before and after, and the arrows are the same
    have hexact : back.acyclic = true ↔ Graph.Acyclic back.hierarchy := hback.flag
    have hexact' : ix.acyclic = true ↔ Graph.Acyclic ix.hierarchy := hix.flag
    rw [Bool.eq_iff_iff, hexact, hexact']
    exact Graph.Acyclic.congr harrows

/-- However a graph has been changed, a link that takes the place of what joins its ends, or of
nothing, and is taken back leaves the vertices, edges and arrows of the graph as they were, and the
flag as well, even if cycles have been closed or opened on the way. -/
theorem takeBack_replaceEdge (history : List Change) (old : Option StoredLink) (l : StoredLink)
    (hsource : l.sourceVertex ∈ (evolve history).vertices)
    (htarget : l.targetVertex ∈ (evolve history).vertices)
    (hjoined : (evolve history).JoinedBy l old) :
    let ix := evolve history
    let back := (ix.replaceEdge old l).takeBack old l
    back.vertices = ix.vertices ∧ back.edges.Perm ix.edges ∧
      back.hierarchy.Perm ix.hierarchy ∧ back.acyclic = ix.acyclic := by
  intro ix back
  exact hjoined.undone (coherent_evolve history) hsource htarget

/-- Three requirements in a ring. -/
def ring : List Change :=
  [.addEdge ⟨⟨10⟩, .internal, ⟨0⟩, ⟨1⟩, .contains, .plain⟩,
    .addEdge ⟨⟨11⟩, .internal, ⟨1⟩, ⟨2⟩, .contains, .plain⟩,
    .addEdge ⟨⟨12⟩, .internal, ⟨2⟩, ⟨0⟩, .contains, .plain⟩]

/-- The link that closes a ring gives way to one that goes back and opens it, and comes again. -/
theorem takeBack_replaceEdge_ring :
    let old : StoredLink := ⟨⟨12⟩, .internal, ⟨2⟩, ⟨0⟩, .contains, .plain⟩
    let l : StoredLink := ⟨⟨12⟩, .internal, ⟨0⟩, ⟨2⟩, .related, .plain⟩
    let ix := evolve ring
    let back := (ix.replaceEdge (some old) l).takeBack (some old) l
    l.sourceVertex ∈ ix.vertices ∧ l.targetVertex ∈ ix.vertices ∧ ix.JoinedBy l (some old) ∧
      ix.acyclic = false ∧ (ix.replaceEdge (some old) l).acyclic = true ∧
      back.vertices = ix.vertices ∧ back.edges.Perm ix.edges ∧
      back.hierarchy.Perm ix.hierarchy ∧ back.acyclic = ix.acyclic := by
  intro old l ix back
  have hsource : l.sourceVertex ∈ ix.vertices := by decide +kernel
  have htarget : l.targetVertex ∈ ix.vertices := by decide +kernel
  have hjoined : ix.JoinedBy l (some old) := ⟨by decide +kernel, by decide +kernel⟩
  exact ⟨hsource, htarget, hjoined, by decide +kernel, by decide +kernel,
    takeBack_replaceEdge ring (some old) l hsource htarget hjoined⟩

end Index

/-- A link that the store refuses, at once or when all has been written, leaves the catalogue as it
was, but for the order of what joins its ends. -/
theorem Catalog.transactLink_refused {c : Catalog} {old : Option StoredLink} {l : StoredLink}
    (hjoined : c.index.JoinedBy l old) (hindex : c.index.Coherent)
    (hsource : l.sourceVertex ∈ c.index.vertices) (htarget : l.targetVertex ∈ c.index.vertices)
    (failure : Failure) :
    let c' := (c.transactLink (.error failure) old l).2
    c'.store = c.store ∧ c'.index.vertices = c.index.vertices ∧
      c'.index.edges.Perm c.index.edges ∧ c'.index.hierarchy.Perm c.index.hierarchy ∧
      c'.index.acyclic = c.index.acyclic := by
  unfold transactLink
  cases c.store.writeLink old l with
  | error refused => exact ⟨rfl, rfl, .refl _, .refl _, rfl⟩
  | ok store => exact ⟨rfl, hjoined.undone hindex hsource htarget⟩

end Crosswalk
