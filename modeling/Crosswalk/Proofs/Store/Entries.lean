import Crosswalk.Proofs.Store.Link
import Crosswalk.Proofs.Store.View
import Crosswalk.Proofs.Text.Order
import Mathlib.Data.Sym.Sym2

/-!
# Entries of an entity

An entity lists an entry for every link that it sees, in order. Which entries it lists for which
pairs of entities depends on the links between these pairs alone: leaving out entries is the same as
leaving out links. In a sound store an entity lists one entry for every other entity that it is
linked with.
-/

namespace Crosswalk

namespace StoredLink

/-- The two entities that a link joins, in no order. -/
def pair (l : StoredLink) : Sym2 Vertex :=
  s(l.sourceVertex, l.targetVertex)

variable {l m : StoredLink} {v w : Vertex} {relation : Relation}

theorem apart_iff : l.Apart m ↔ l.pair ≠ m.pair := by
  rw [Apart, pair, pair, ne_eq, Sym2.eq_iff, not_or]

theorem pair_of_seenFrom (h : (w, relation) ∈ l.seenFrom v) : l.pair = s(v, w) := by
  rcases mem_seenFrom.1 h with ⟨rfl, rfl, -⟩ | ⟨rfl, rfl, -⟩
  · rfl
  · exact Sym2.eq_swap

/-- A link between two different entities is seen once from either end. -/
theorem seenFrom_eq (h : (w, relation) ∈ l.seenFrom v) (hne : v ≠ w) :
    l.seenFrom v = [(w, relation)] := by
  rcases mem_seenFrom.1 h with ⟨hs, ht, hrel⟩ | ⟨ht, hs, hrel⟩
  · rw [seenFrom, hs, ht, hrel, if_pos rfl, if_neg hne.symm]
    rfl
  · rw [seenFrom, hs, ht, hrel, if_pos rfl, if_neg hne.symm]
    rfl

end StoredLink

/-- The vertex of the entity at the far end of a link. -/
def Link.far (entry : Link StoredId) : Vertex :=
  entry.peer.entity.vertex

namespace Store

variable {s t : Store} {v w : Vertex} {relation : Relation}

/-- The store with some of its links left out. -/
def keepLinks (s : Store) (p : StoredLink → Bool) : Store :=
  { s with links := s.links.filter p }

/-! ### Leaving out -/

/-- What is looked up for some ends and sorted is left out with the ends. -/
theorem filter_sortOn_filterMap {α : Type} {find : StoredId → Option α} {idOf : α → StoredId}
    (hfind : ∀ {id a}, find id = some a → idOf a = id) (key : α × Relation → List String)
    (p : StoredId → Bool) (ends : List (StoredId × Relation)) :
    (Text.sortOn key (ends.filterMap fun e => (find e.1).map (·, e.2))).filter
        (fun peer => p (idOf peer.1)) =
      Text.sortOn key ((ends.filter fun e => p e.1).filterMap fun e => (find e.1).map (·, e.2)) := by
  rw [Text.sortOn_filter, List.filter_filterMap, List.filterMap_filter]
  refine congrArg _ (List.filterMap_congr fun e _ => ?_)
  obtain ⟨id, relation⟩ := e
  cases hfound : find id with
  | none => simp
  | some a => cases hp : p id <;> simp [hfind hfound, hp]

theorem filter_peerRequirements (p : StoredId → Bool) (ends : List (StoredId × Relation)) :
    (s.peerRequirements ends).filter (fun peer => p peer.1.id) =
      s.peerRequirements (ends.filter fun e => p e.1) := by
  refine filter_sortOn_filterMap (fun h => ?_) _ p ends
  have hid := List.find?_some h
  exact of_decide_eq_true hid

theorem filter_peerNodes (p : StoredId → Bool) (ends : List (StoredId × Relation)) :
    (s.peerNodes ends).filter (fun peer => p peer.1.id) =
      s.peerNodes (ends.filter fun e => p e.1) := by
  refine filter_sortOn_filterMap (fun h => ?_) _ p ends
  have hid := List.find?_some h
  exact of_decide_eq_true hid

theorem filter_map_filter {α β : Type} {items : List α} {p q : α → Bool} {f : α → β}
    {p' : β → Bool} (h : ∀ a ∈ items, p a = true → p' (f a) = q a) :
    ((items.filter p).map f).filter p' = ((items.filter q).filter p).map f := by
  rw [List.filter_map, List.filter_filter, List.filter_filter]
  refine congrArg _ (List.filter_congr fun a ha => ?_)
  cases hp : p a with
  | false => rw [Bool.and_false, Bool.false_and]
  | true =>
    rw [Bool.and_true, Bool.true_and]
    exact h a ha hp

/-- To leave out the entries for some pairs of entities is to leave out the links between them. -/
theorem filter_linksOf (s : Store) (v : Vertex) (p : Sym2 Vertex → Bool) :
    (s.linksOf v).filter (fun entry => p s(v, entry.far)) =
      (s.keepLinks fun l => p l.pair).linksOf v := by
  have hrequirements : ∀ ends, ((s.peerRequirements ends).map linkToRequirement).filter
      (fun entry => p s(v, entry.far)) =
      (s.peerRequirements (ends.filter fun e => p s(v, .requirement e.1))).map
        linkToRequirement := by
    intro ends
    rw [List.filter_map, ← filter_peerRequirements fun id => p s(v, .requirement id)]
    rfl
  have hnodes : ∀ ends, ((s.peerNodes ends).map linkToNode).filter
      (fun entry => p s(v, entry.far)) =
      (s.peerNodes (ends.filter fun e => p s(v, .node e.1))).map linkToNode := by
    intro ends
    rw [List.filter_map, ← filter_peerNodes fun id => p s(v, .node id)]
    rfl
  have hto : ∀ (kind : LinkKind) (id : StoredId) (vertex : StoredId → Vertex),
      (∀ l : StoredLink, l.kind = kind → l.targetVertex = vertex l.target) →
      (s.outgoing kind id).filter (fun e => p s(.requirement id, vertex e.1)) =
        (s.keepLinks fun l => p l.pair).outgoing kind id := by
    intro kind id vertex hvertex
    refine filter_map_filter fun l _ hl => ?_
    rw [Bool.and_eq_true, Bool.and_eq_true, decide_eq_true_eq, decide_eq_true_eq] at hl
    rw [StoredLink.pair, hvertex l hl.1.1, StoredLink.sourceVertex, hl.1.2]
  have hfrom : ∀ (kind : LinkKind) (id : StoredId) (vertex : StoredId → Vertex),
      (∀ l : StoredLink, l.kind = kind → l.targetVertex = vertex l.target) →
      (s.incoming kind id).filter (fun e => p s(vertex id, .requirement e.1)) =
        (s.keepLinks fun l => p l.pair).incoming kind id := by
    intro kind id vertex hvertex
    refine filter_map_filter fun l _ hl => ?_
    rw [Bool.and_eq_true, Bool.and_eq_true, decide_eq_true_eq, decide_eq_true_eq] at hl
    rw [StoredLink.pair, hvertex l hl.1.1, hl.1.2, StoredLink.sourceVertex, Sym2.eq_swap]
  have hinternal : ∀ l : StoredLink, l.kind = .internal → l.targetVertex = .requirement l.target :=
    fun _ => StoredLink.targetVertex_of_internal
  have hexternal : ∀ l : StoredLink, l.kind = .external → l.targetVertex = .node l.target :=
    fun _ => StoredLink.targetVertex_of_external
  cases v with
  | requirement id =>
    rw [linksOf, List.filter_append, List.filter_append, hrequirements, hrequirements, hnodes,
      hto .internal id _ hinternal, hfrom .internal id _ hinternal, hto .external id _ hexternal]
    rfl
  | node id =>
    rw [linksOf, hrequirements, hfrom .external id _ hexternal]
    rfl

/-- Stores with the same entities and links list the same entries. -/
theorem linksOf_congr (hrequirements : t.requirements = s.requirements) (hnodes : t.nodes = s.nodes)
    (hlinks : t.links = s.links) (v : Vertex) : t.linksOf v = s.linksOf v := by
  obtain ⟨requirements, nodes, links, drawn⟩ := s
  obtain ⟨requirements', nodes', links', drawn'⟩ := t
  subst hrequirements hnodes hlinks
  rfl

/-- Stores that differ in the links between some pairs of entities only list the same entries for
all others. -/
theorem filter_linksOf_congr (hrequirements : t.requirements = s.requirements)
    (hnodes : t.nodes = s.nodes) {p : Sym2 Vertex → Bool}
    (hlinks : t.links.filter (fun l => p l.pair) = s.links.filter fun l => p l.pair) (v : Vertex) :
    (t.linksOf v).filter (fun entry => p s(v, entry.far)) =
      (s.linksOf v).filter fun entry => p s(v, entry.far) := by
  rw [filter_linksOf, filter_linksOf]
  exact linksOf_congr (s := s.keepLinks _) (t := t.keepLinks _) hrequirements hnodes hlinks v

/-! ### The entry for an entity -/

/-- Of the links of a store, each of them once, one joins the entities that it joins. -/
theorem LinksOnce.filter_pair (h : s.LinksOnce) {l : StoredLink} (hl : l ∈ s.links) :
    s.links.filter (fun m => m.pair = l.pair) = [l] := by
  refine List.perm_singleton.1 ((List.perm_ext_iff_of_nodup ?_ (List.nodup_singleton l)).2 fun m => ?_)
  · exact h.ids_nodup.of_map.sublist List.filter_sublist
  · rw [List.mem_filter, decide_eq_true_eq, List.mem_singleton]
    constructor
    · rintro ⟨hm, hpair⟩
      exact h.link_eq_of_not_apart hm hl fun hapart => StoredLink.apart_iff.1 hapart hpair
    · rintro rfl
      exact ⟨hl, rfl⟩

/-- For an entity that it is linked with, another one lists one entry, with what it sees of the
link. -/
theorem LinksOnce.linksOf_between (h : s.LinksOnce) {l : StoredLink} (hl : l ∈ s.links)
    (hseen : (w, relation) ∈ l.seenFrom v) (hne : v ≠ w) {e : Entity StoredId}
    (he : s.entity? w = some e) :
    (s.linksOf v).filter (fun entry => entry.far = w) = [.mk relation (.ofEntity e)] := by
  have hpair := StoredLink.pair_of_seenFrom hseen
  have hsame : (s.linksOf v).filter (fun entry => entry.far = w) =
      (s.linksOf v).filter fun entry => s(v, entry.far) = l.pair := by
    refine List.filter_congr fun entry _ => ?_
    rw [hpair, decide_eq_decide, Sym2.congr_right]
  have hlinks : (s.keepLinks fun m => m.pair = l.pair).links = [l] := h.filter_pair hl
  have hperm := linksOf_perm (s := s.keepLinks fun m => m.pair = l.pair)
    (fun m hm => h.plain m (List.mem_filter.1 hm).1) v
  rw [seen, hlinks, List.flatMap_singleton, StoredLink.seenFrom_eq hseen hne] at hperm
  have hentry : (s.keepLinks fun m => m.pair = l.pair).linkTo? (w, relation) =
      some (.mk relation (.ofEntity e)) := Option.map_eq_some_iff.2 ⟨e, he, rfl⟩
  rw [List.filterMap_cons_some hentry, List.filterMap_nil] at hperm
  rw [hsame, filter_linksOf s v fun pair => decide (pair = l.pair)]
  exact List.perm_singleton.1 hperm

end Store

end Crosswalk
