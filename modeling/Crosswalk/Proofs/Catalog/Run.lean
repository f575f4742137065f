import Crosswalk.Proofs.Catalog.Consistent
import Crosswalk.Proofs.Catalog.Import
import Mathlib.Data.Sym.Sym2

/-!
# Runs

A run starts from a catalogue without entities and puts, links, imports and opens again, in any
order and with any arguments; an operation that fails changes nothing, but that an import keeps what
it has brought in before it fails. Every operation keeps a
catalogue consistent, and so every run does. Hence the graph is at all times the one that would be
built from what is stored, and no operation ever meets a cycle in the stored hierarchy.
-/

namespace Crosswalk

/-- What can be done to a catalogue. -/
inductive Operation (ι : Type) where
  | putRequirement (r : Requirement ι)
  | putNode (n : Node ι)
  | linkRequirements (a b : StoredId) (relation : Relation)
  | linkNode (requirement node : StoredId) (relation : Relation)
  | importAll (documents : List (Document ι))
  | reopen

/-- The containments that are stored between requirements, as parent and child. -/
def Store.containments (s : Store) : List (StoredId × StoredId) :=
  (s.links.filter fun l => l.kind = .internal && l.relation = .contains).map
    fun l => (l.source, l.target)

/-- Two graphs with the same vertices, edges and arrows, in any order, and the same flag. -/
structure Index.Agrees (ix built : Index) : Prop where
  vertices : ix.vertices.Perm built.vertices
  edges : ix.edges.Perm built.edges
  hierarchy : ix.hierarchy.Perm built.hierarchy
  acyclic : ix.acyclic = built.acyclic

theorem Store.Sound.arrows_eq {s : Store} (h : s.Sound) : s.arrows = s.containments := by
  have hall := h.no_parts
  unfold Store.arrows Store.containments
  generalize s.links = links at hall ⊢
  induction links with
  | nil => rfl
  | cons l ls ih =>
    have hl := hall l List.mem_cons_self
    have hls := ih fun m hm => hall m (List.mem_cons_of_mem _ hm)
    obtain ⟨id, kind, source, target, relation, spelling⟩ := l
    cases kind <;> cases relation <;>
      simp_all [StoredLink.arrow?, List.filterMap_cons]

/-- Links as they may be stored: containment between requirements has no cycle and no part is
stored, no two links join the same two requirements in either direction or the same requirement and
node, and both ends are stored. -/
structure Store.WellLinked (s : Store) : Prop where
  acyclic : Graph.Acyclic s.containments
  no_loops : ∀ p ∈ s.containments, p.1 ≠ p.2
  no_parts : ∀ l ∈ s.links, l.kind = .internal → l.relation ≠ .partOf
  requirements_once : (s.links.filter fun l => l.kind = .internal).Pairwise
    fun l m => s(l.source, l.target) ≠ s(m.source, m.target)
  nodes_once : (s.links.filter fun l => l.kind = .external).Pairwise
    fun l m => (l.source, l.target) ≠ (m.source, m.target)
  ends : ∀ l ∈ s.links,
    (s.entity? l.sourceVertex).isSome = true ∧ (s.entity? l.targetVertex).isSome = true

theorem Store.Sound.wellLinked {s : Store} (h : s.Sound) : s.WellLinked where
  acyclic := by
    rw [← h.arrows_eq]
    exact h.acyclic
  no_loops := by
    intro p hp
    rw [← h.arrows_eq] at hp
    exact h.acyclic.ne hp
  no_parts := h.no_parts
  requirements_once := by
    refine (h.apart.sublist List.filter_sublist).imp_of_mem fun {l m} hl hm hapart hpair => ?_
    obtain ⟨-, hl⟩ := List.mem_filter.1 hl
    obtain ⟨-, hm⟩ := List.mem_filter.1 hm
    rw [decide_eq_true_eq] at hl hm
    rw [StoredLink.Apart, StoredLink.sourceVertex, StoredLink.sourceVertex,
      StoredLink.targetVertex, StoredLink.targetVertex, hl, hm] at hapart
    rcases Sym2.eq_iff.1 hpair with ⟨hs, ht⟩ | ⟨hs, ht⟩
    · exact hapart.1 ⟨congrArg _ hs, congrArg _ ht⟩
    · exact hapart.2 ⟨congrArg _ hs, congrArg _ ht⟩
  nodes_once := by
    refine (h.apart.sublist List.filter_sublist).imp_of_mem fun {l m} hl hm hapart hpair => ?_
    obtain ⟨-, hl⟩ := List.mem_filter.1 hl
    obtain ⟨-, hm⟩ := List.mem_filter.1 hm
    rw [decide_eq_true_eq] at hl hm
    rw [StoredLink.Apart, StoredLink.sourceVertex, StoredLink.sourceVertex,
      StoredLink.targetVertex, StoredLink.targetVertex, hl, hm] at hapart
    obtain ⟨hs, ht⟩ := Prod.mk.inj hpair
    exact hapart.1 ⟨congrArg _ hs, congrArg _ ht⟩
  ends := fun l hl => ⟨isSome_entity?.2 (h.ends l hl).1, isSome_entity?.2 (h.ends l hl).2⟩

namespace Catalog

variable {ι : Type} {c : Catalog}

/-- What an operation makes of a catalogue. -/
def perform (c : Catalog) : Operation ι → Except Failure Catalog
  | .putRequirement r => (c.putRequirement r).map (·.2)
  | .putNode n => (c.putNode n).map (·.2)
  | .linkRequirements a b relation => (c.linkRequirements a b relation).map (·.2)
  | .linkNode requirement node relation => (c.linkNode requirement node relation).map (·.2)
  | .importAll documents => (c.importAll documents).map (·.1)
  | .reopen => .ok c.reopen

/-- The catalogue after an operation that fails: nothing has changed, but that an import has kept what
it had brought in. -/
def afterFailure (c : Catalog) : Operation ι → Catalog
  | .importAll documents => c.afterImport documents
  | _ => c

def after (c : Catalog) (op : Operation ι) : Catalog :=
  match c.perform op with
  | .ok c' => c'
  | .error _ => c.afterFailure op

/-- The catalogue after some operations. -/
def run (c : Catalog) (ops : List (Operation ι)) : Catalog :=
  ops.foldl after c

namespace Consistent

/-! ### Importing -/

theorem joinEntities (h : c.Consistent) (stored peer : Entity StoredId) (relation : Relation) :
    (∃ failure, c.joinEntities stored peer relation = .error failure ∧
      ∀ cycle, failure ≠ .fatalState cycle) ∨
    ∃ outcome c', c.joinEntities stored peer relation = .ok (outcome, c') ∧ c'.Consistent := by
  cases stored with
  | requirement a =>
    cases peer with
    | requirement b =>
      rcases h.joinRequirements a.id b.id relation with ⟨v, hv⟩ | hok
      · exact .inl ⟨_, hv, fun _ hf => by cases hf⟩
      · exact .inr hok
    | node n =>
      rcases h.joinNode a.id n.id relation with ⟨v, hv⟩ | hok
      · exact .inl ⟨_, hv, fun _ hf => by cases hf⟩
      · exact .inr hok
  | node n =>
    cases peer with
    | requirement b =>
      rcases h.joinNode b.id n.id relation.inverse with ⟨v, hv⟩ | hok
      · exact .inl ⟨_, hv, fun _ hf => by cases hf⟩
      · exact .inr hok
    | node m => exact .inl ⟨_, rfl, fun _ hf => by cases hf⟩

theorem ne_fatalState_of_put {failure : Failure}
    (h : failure = .emptyName ∨ ∃ conflict, failure = .conflict conflict) (cycle : List Vertex) :
    failure ≠ .fatalState cycle := by
  rcases h with rfl | ⟨conflict, rfl⟩ <;> exact fun hf => by cases hf

theorem importStable (stored : Entity StoredId) : ImportStable ι stored Consistent where
  entity := fun h hput => h.storeEntity hput
  join := fun h peer relation => h.joinEntities stored peer relation

theorem importAll (h : c.Consistent) (documents : List (Document ι)) :
    ∃ c' report, c.importAll documents = .ok (c', report) ∧ c'.Consistent := by
  have hstart : ((c, {}) : Catalog × ImportReport).1.Consistent := h
  obtain ⟨⟨c', report⟩, hdocuments, h'⟩ :=
    importDocuments_of_stable importStable hstart documents
  exact ⟨c', report, (importAll_eq_ok h.guardWrite_eq_ok).2 hdocuments, h'⟩

/-! ### Operations -/

theorem guarded {α : Type} (h : c.Consistent) (result : Except Failure α) :
    (do c.guardWrite; result) = result := by
  rw [h.guardWrite_eq_ok]
  rfl

/-- An operation leaves a consistent catalogue or fails, but not because of a stored cycle. -/
theorem perform (h : c.Consistent) (op : Operation ι) :
    (∃ c', c.perform op = .ok c' ∧ c'.Consistent) ∨
      ∃ failure, c.perform op = .error failure ∧ ∀ cycle, failure ≠ .fatalState cycle := by
  cases op with
  | putRequirement r =>
    simp only [Catalog.perform, Catalog.putRequirement, h.guarded]
    cases hstore : c.storeRequirement r with
    | ok result => exact .inl ⟨_, rfl, h.storeRequirement hstore⟩
    | error failure =>
      exact .inr ⟨_, rfl, ne_fatalState_of_put (h.storeRequirement_error hstore)⟩
  | putNode n =>
    simp only [Catalog.perform, Catalog.putNode, h.guarded]
    cases hstore : c.storeNode n with
    | ok result => exact .inl ⟨_, rfl, h.storeNode hstore⟩
    | error failure => exact .inr ⟨_, rfl, ne_fatalState_of_put (h.storeNode_error hstore)⟩
  | linkRequirements a b relation =>
    simp only [Catalog.perform, Catalog.linkRequirements, h.guarded]
    rcases h.joinRequirements a b relation with ⟨v, hv⟩ | ⟨outcome, c', hok, h'⟩
    · rw [hv]
      exact .inr ⟨_, rfl, fun _ hf => by cases hf⟩
    · rw [hok]
      exact .inl ⟨_, rfl, h'⟩
  | linkNode requirement node relation =>
    simp only [Catalog.perform, Catalog.linkNode, h.guarded]
    rcases h.joinNode requirement node relation with ⟨v, hv⟩ | ⟨outcome, c', hok, h'⟩
    · rw [hv]
      exact .inr ⟨_, rfl, fun _ hf => by cases hf⟩
    · rw [hok]
      exact .inl ⟨_, rfl, h'⟩
  | importAll documents =>
    obtain ⟨c', report, hok, h'⟩ := h.importAll documents
    simp only [Catalog.perform, hok]
    exact .inl ⟨_, rfl, h'⟩
  | reopen => exact .inl ⟨_, rfl, h.reopen⟩

/-- An operation that fails is none that leaves anything behind, since an import does not fail. -/
theorem after_of_error (h : c.Consistent) {op : Operation ι} {failure : Failure}
    (herror : c.perform op = .error failure) : c.after op = c := by
  unfold Catalog.after
  rw [herror]
  cases op with
  | importAll documents =>
    obtain ⟨c', report, hok, -⟩ := h.importAll documents
    simp only [Catalog.perform, hok] at herror
    cases herror
  | _ => rfl

theorem after (h : c.Consistent) (op : Operation ι) : (c.after op).Consistent := by
  rcases h.perform op with ⟨c', hok, h'⟩ | ⟨failure, herror, -⟩
  · unfold Catalog.after
    rw [hok]
    exact h'
  · rw [h.after_of_error herror]
    exact h

theorem run (h : c.Consistent) (ops : List (Operation ι)) : (c.run ops).Consistent := by
  induction ops generalizing c with
  | nil => exact h
  | cons op ops ih => exact ih (h.after op)

/-! ### The graph of a consistent catalogue -/

theorem agrees_build (h : c.Consistent) :
    c.index.Agrees (Index.build c.store.vertices c.store.links) := by
  have hbuild := h.reopen.mirrors
  change (Index.build c.store.vertices c.store.links).Mirrors c.store.vertices c.store.links
    at hbuild
  refine ⟨h.mirrors.vertices.trans hbuild.vertices.symm, h.mirrors.edges.trans hbuild.edges.symm,
    h.mirrors.hierarchy.trans hbuild.hierarchy.symm, ?_⟩
  rw [Bool.eq_iff_iff, h.mirrors.acyclic_iff, hbuild.acyclic_iff]

theorem linkProblems_eq_nil (h : c.Consistent) {l : StoredLink} (hl : l ∈ c.store.links) :
    c.linkProblems l = [] := by
  obtain ⟨hs, ht⟩ := h.sound.ends l hl
  have hsource : (c.store.entity? l.sourceVertex).isNone = false :=
    Option.isNone_eq_false_iff.2 (Store.isSome_entity?.2 hs)
  have htarget : (c.store.entity? l.targetVertex).isNone = false :=
    Option.isNone_eq_false_iff.2 (Store.isSome_entity?.2 ht)
  have hedge : l.edge ∈ c.index.edges := h.mirrors.edges.mem_iff.2 (List.mem_map_of_mem hl)
  unfold linkProblems
  rw [hsource, htarget, if_pos hedge]
  rfl

theorem check_eq_nil (h : c.Consistent) : c.check = [] := by
  have hvertices : c.index.vertices.length = c.store.requirements.length + c.store.nodes.length := by
    rw [h.mirrors.vertices.length_eq, (Store.vertices_perm c.store).length_eq, List.length_append,
      List.length_map, List.length_map]
  have hedges : c.index.edges.length = c.store.links.length := by
    rw [h.mirrors.edges.length_eq, List.length_map]
  have hlinks : c.store.links.flatMap c.linkProblems = [] :=
    List.flatMap_eq_nil_iff.2 fun l hl => h.linkProblems_eq_nil hl
  unfold check Store.counts Index.size
  simp only [hvertices, hedges, hlinks, h.findCycle_eq_none, if_true, Option.map_none,
    Option.toList_none, List.append_nil]

end Consistent

/-! ### Runs from a catalogue without entities -/

/-- The graph that is kept up to date by a run is the one that would be built from what is stored,
its arrows are the stored containments, and the check finds nothing wrong. -/
theorem run_index_agrees (serial itemsPerPage : Nat) (ops : List (Operation ι)) :
    let c := (fresh serial itemsPerPage).run ops
    c.index.Agrees (Index.build c.store.vertices c.store.links) ∧
      c.index.hierarchy.Perm c.store.containments ∧ c.check = [] := by
  have h := (consistent_fresh serial itemsPerPage).run ops
  refine ⟨h.agrees_build, ?_, h.check_eq_nil⟩
  rw [← h.sound.arrows_eq]
  exact h.mirrors.hierarchy

/-- A run stores links as they may be stored, and what is done next never fails because of a cycle
among them. -/
theorem run_wellLinked (serial itemsPerPage : Nat) (ops : List (Operation ι)) :
    let c := (fresh serial itemsPerPage).run ops
    c.store.WellLinked ∧
      ∀ (op : Operation ι) (cycle : List Vertex), c.perform op ≠ .error (.fatalState cycle) := by
  have h := (consistent_fresh serial itemsPerPage).run ops
  refine ⟨h.sound.wellLinked, fun op cycle hfatal => ?_⟩
  rcases h.perform op with ⟨c', hok, -⟩ | ⟨failure, herror, hne⟩
  · rw [hok] at hfatal
    cases hfatal
  · rw [herror] at hfatal
    exact hne cycle (Except.error.inj hfatal)

end Catalog

end Crosswalk
