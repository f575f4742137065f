import Crosswalk.Proofs.Index.Renaming
import Crosswalk.Proofs.Store.Entries

/-!
# Links turned towards the end that is listed later

A link between requirements shows itself to both of its ends. That of a parent and a child tells
from either end which of them is the parent; what direction any other link was stored in, its ends
cannot tell. Read from the end that is listed first, such a link leads from there. The store in which
all links have been turned that way is as sound and has the same hierarchy, but may have other roots.
-/

namespace Crosswalk

variable {f : StoredId → StoredId}

namespace StoredLink

variable {l : StoredLink}

/-- The link between two requirements as the other end would have stored it. -/
def reversed (l : StoredLink) : StoredLink :=
  { l with
    source := l.target
    target := l.source
    relation := l.relation.inverse
    spelling := { l.spelling with source := l.spelling.target, target := l.spelling.source } }

theorem kind_of_targetVertex {id : StoredId} (h : l.targetVertex = .requirement id) :
    l.kind = .internal := by
  cases hkind : l.kind with
  | internal => rfl
  | external =>
    rw [targetVertex_of_external hkind] at h
    cases h

theorem edge_reversed (h : l.kind = .internal) :
    l.reversed.edge = ⟨l.targetVertex, l.sourceVertex, l.relation.inverse⟩ := by
  rw [targetVertex_of_internal h]
  simp [edge, reversed, sourceVertex, targetVertex, h]

theorem pair_reversed (h : l.kind = .internal) : l.reversed.pair = l.pair := by
  have hedge := edge_reversed h
  have hs : l.reversed.sourceVertex = l.targetVertex := congrArg Edge.source hedge
  have ht : l.reversed.targetVertex = l.sourceVertex := congrArg Edge.target hedge
  rw [pair, hs, ht, pair, Sym2.eq_swap]

theorem arrow?_of_not_hierarchical (h : l.relation.isHierarchical = false) : l.arrow? = none := by
  obtain ⟨id, kind, source, target, relation⟩ := l
  cases kind <;> cases relation <;> first | rfl | cases h

theorem isHierarchical_inverse (relation : Relation) :
    relation.inverse.isHierarchical = relation.isHierarchical := by
  cases relation <;> rfl

/-- Between a requirement and itself the direction of a link makes no difference. -/
theorem lowerEnd?_reversed (hkind : l.kind = .internal) (hself : l.sourceVertex = l.targetVertex) :
    Index.lowerEnd? l.reversed.edge = Index.lowerEnd? l.edge := by
  rw [edge_reversed hkind, edge, hself]
  cases l.relation <;> rfl

end StoredLink

namespace Store

variable {s t : Store} {k l : StoredLink}

/-- Whether a link leads from the end that is listed first. -/
def LeadsOnward (s : Store) (l : StoredLink) : Prop :=
  s.vertices.idxOf l.sourceVertex ≤ s.vertices.idxOf l.targetVertex

instance : Decidable (s.LeadsOnward l) :=
  inferInstanceAs (Decidable (_ ≤ _))

/-- Whether a link is stored as it is read from the end that is listed first. -/
def InOrder (s : Store) (l : StoredLink) : Prop :=
  l.kind = .internal → l.relation.isHierarchical = false → s.LeadsOnward l

instance : Decidable (s.InOrder l) :=
  inferInstanceAs (Decidable (_ → _))

/-- The link as it is read from the end that is listed first. -/
def turn (s : Store) (l : StoredLink) : StoredLink :=
  if s.InOrder l then l else l.reversed

/-- The store whose links are read from the ends that are listed first. -/
def turned (s : Store) : Store :=
  { s with links := s.links.map s.turn }

theorem not_inOrder_iff :
    ¬ s.InOrder l ↔ l.kind = .internal ∧ l.relation.isHierarchical = false ∧ ¬ s.LeadsOnward l := by
  unfold InOrder
  tauto

theorem turn_of_inOrder (h : s.InOrder l) : s.turn l = l :=
  if_pos h

theorem turn_of_not_inOrder (h : ¬ s.InOrder l) : s.turn l = l.reversed :=
  if_neg h

/-! ### What turning keeps -/

theorem turn_id (s : Store) (l : StoredLink) : (s.turn l).id = l.id := by
  unfold turn
  split <;> rfl

theorem turn_spelling (h : l.spelling = .plain) : (s.turn l).spelling = .plain := by
  unfold turn
  split
  · exact h
  · rw [StoredLink.reversed, h]
    rfl

theorem turn_pair (s : Store) (l : StoredLink) : (s.turn l).pair = l.pair := by
  by_cases h : s.InOrder l
  · rw [turn_of_inOrder h]
  · rw [turn_of_not_inOrder h, StoredLink.pair_reversed (not_inOrder_iff.1 h).1]

theorem turn_arrow? (s : Store) (l : StoredLink) : (s.turn l).arrow? = l.arrow? := by
  by_cases h : s.InOrder l
  · rw [turn_of_inOrder h]
  · have hrelation := (not_inOrder_iff.1 h).2.1
    have hreversed : l.reversed.relation.isHierarchical = false :=
      (StoredLink.isHierarchical_inverse l.relation).trans hrelation
    rw [turn_of_not_inOrder h, StoredLink.arrow?_of_not_hierarchical hreversed,
      StoredLink.arrow?_of_not_hierarchical hrelation]

theorem turn_ne_partOf (h : l.kind = .internal → l.relation ≠ .partOf) :
    (s.turn l).kind = .internal → (s.turn l).relation ≠ .partOf := by
  by_cases horder : s.InOrder l
  · rw [turn_of_inOrder horder]
    exact h
  · rw [turn_of_not_inOrder horder]
    intro _ hpart
    have hrelation := (not_inOrder_iff.1 horder).2.1
    rw [← StoredLink.isHierarchical_inverse] at hrelation
    rw [show l.relation.inverse = .partOf from hpart] at hrelation
    cases hrelation

theorem turned_arrows (s : Store) : s.turned.arrows = s.arrows := by
  unfold arrows turned
  rw [List.filterMap_map]
  exact List.filterMap_congr fun l _ => s.turn_arrow? l

theorem Sound.turned (h : s.Sound) : s.turned.Sound := by
  have hids : s.turned.ids = s.ids := by
    unfold ids Store.turned
    rw [List.map_map]
    exact congrArg _ (List.map_congr_left fun l _ => s.turn_id l)
  exact {
    drawn := hids ▸ h.drawn
    ids_nodup := hids ▸ h.ids_nodup
    names_nodup := h.names_nodup
    keys_nodup := h.keys_nodup
    names_trimmed := h.names_trimmed
    keys_trimmed := h.keys_trimmed
    ends := by
      intro m hm
      obtain ⟨l, hl, rfl⟩ := List.mem_map.1 hm
      obtain ⟨hs, ht⟩ := h.ends l hl
      have hpair := s.turn_pair l
      rw [StoredLink.pair, StoredLink.pair, Sym2.eq_iff] at hpair
      rcases hpair with ⟨hs', ht'⟩ | ⟨hs', ht'⟩ <;> rw [hs', ht']
      · exact ⟨hs, ht⟩
      · exact ⟨ht, hs⟩
    apart := by
      refine List.pairwise_map.2 (h.apart.imp fun {l m} hlm => ?_)
      rw [StoredLink.apart_iff, turn_pair, turn_pair]
      exact StoredLink.apart_iff.1 hlm
    plain := by
      intro m hm
      obtain ⟨l, hl, rfl⟩ := List.mem_map.1 hm
      exact turn_spelling (h.plain l hl)
    no_parts := by
      intro m hm
      obtain ⟨l, hl, rfl⟩ := List.mem_map.1 hm
      exact turn_ne_partOf (h.no_parts l hl)
    acyclic := by
      rw [turned_arrows]
      exact h.acyclic }

/-! ### Turned links and links that match -/

theorem Twin.requirement_right {id : StoredId} {w : Vertex} (h : s.Twin t (.requirement id) w) :
    ∃ id', w = .requirement id' := by
  cases w
  · exact ⟨_, rfl⟩
  · exact h.elim

/-- Whether a link leads from the twin of that one of its ends which is listed first, unless it is a
containment. -/
def FromFirst (s t : Store) (l : StoredLink) : Prop :=
  l.kind = .internal → l.relation ≠ .contains → ∀ v w, s.Twin t v l.sourceVertex →
    s.Twin t w l.targetVertex → s.vertices.idxOf v ≤ s.vertices.idxOf w

namespace Matches

/-- A link that leads from the end listed first matches a link as that is read from there, or else it
joins a requirement with itself. -/
theorem edge_cases (hs : s.Sound) (ht : t.Sound) (hk : k ∈ s.links) (hl : l ∈ t.links)
    (h : s.Matches t k l) (hfirst : FromFirst s t l) (hf : ∀ v w, s.Twin t v w → w = v.mapId f) :
    l.edge = (s.turn k).edge.mapId f ∨
      s.InOrder k ∧ k.kind = .internal ∧ k.relation.isHierarchical = false ∧
        k.sourceVertex = k.targetVertex ∧ l.edge = k.reversed.edge.mapId f := by
  rcases h with ⟨hsource, htarget, hrelation⟩ | ⟨hsource, htarget, hrelation⟩
  · have horder : s.InOrder k := by
      intro hkind hflat
      have hkept := htarget
      rw [StoredLink.targetVertex_of_internal hkind] at hkept
      obtain ⟨id, hid⟩ := hkept.requirement_right
      refine hfirst (StoredLink.kind_of_targetVertex hid) (fun hcontains => ?_) _ _ hsource htarget
      rw [← hrelation, hcontains] at hflat
      cases hflat
    rw [turn_of_inOrder horder, StoredLink.edge, hf _ _ hsource, hf _ _ htarget, hrelation]
    exact .inl rfl
  · -- the link has been turned around, and so it joins requirements
    obtain ⟨id, hid⟩ := htarget.eq_requirement
    obtain ⟨id', hid'⟩ := hsource.requirement_right
    have hkind := StoredLink.kind_of_targetVertex hid
    have hkind' := StoredLink.kind_of_targetVertex hid'
    have hflat : k.relation.isHierarchical = false := by
      have hk' := hs.no_parts k hk hkind
      have hl' := ht.no_parts l hl hkind'
      rw [hrelation] at hl'
      cases hr : k.relation <;> first | rfl | (rw [hr] at hk' hl'; contradiction)
    have hcontains : l.relation ≠ .contains := by
      intro hcontains
      rw [← StoredLink.isHierarchical_inverse, ← hrelation, hcontains] at hflat
      cases hflat
    have hle := hfirst hkind' hcontains _ _ htarget hsource
    have hedge : l.edge = k.reversed.edge.mapId f := by
      rw [StoredLink.edge_reversed hkind, StoredLink.edge, hf _ _ hsource, hf _ _ htarget, hrelation]
      rfl
    by_cases horder : s.InOrder k
    · refine .inr ⟨horder, hkind, hflat, ?_, hedge⟩
      exact (List.idxOf_inj (hs.ends k hk).1).1 (Nat.le_antisymm (horder hkind hflat) hle)
    · rw [turn_of_not_inOrder horder]
      exact .inl hedge

/-- The lower end of a link that leads from the end listed first is the twin of the lower end of the
turned link that it matches. -/
theorem lowerEnd?_eq (hs : s.Sound) (ht : t.Sound) (hk : k ∈ s.links) (hl : l ∈ t.links)
    (h : s.Matches t k l) (hfirst : FromFirst s t l) (hf : ∀ v w, s.Twin t v w → w = v.mapId f) :
    Index.lowerEnd? l.edge = (Index.lowerEnd? (s.turn k).edge).map (Vertex.mapId f) := by
  rcases h.edge_cases hs ht hk hl hfirst hf with hedge | ⟨horder, hkind, -, hself, hedge⟩
  · rw [hedge, Index.lowerEnd?_mapId]
  · rw [hedge, Index.lowerEnd?_mapId, StoredLink.lowerEnd?_reversed hkind hself,
      turn_of_inOrder horder]

theorem arrow?_eq (hs : s.Sound) (ht : t.Sound) (hk : k ∈ s.links) (hl : l ∈ t.links)
    (h : s.Matches t k l) (hfirst : FromFirst s t l) (hf : ∀ v w, s.Twin t v w → w = v.mapId f) :
    l.arrow? = k.arrow?.map (Prod.map f f) := by
  rw [← l.arrow?_edge]
  rcases h.edge_cases hs ht hk hl hfirst hf with hedge | ⟨-, -, hflat, -, hedge⟩
  · rw [hedge, Edge.arrow?_mapId, StoredLink.arrow?_edge, turn_arrow?]
  · have hreversed : k.reversed.relation.isHierarchical = false :=
      (StoredLink.isHierarchical_inverse k.relation).trans hflat
    rw [hedge, Edge.arrow?_mapId, StoredLink.arrow?_edge,
      StoredLink.arrow?_of_not_hierarchical hreversed, StoredLink.arrow?_of_not_hierarchical hflat]

end Matches

/-- What links contribute, links that match contribute under other identities. -/
theorem filterMap_of_forall₂ {α β γ δ : Type} {related : α → β → Prop} {as : List α} {bs : List β}
    {g : α → Option γ} {g' : β → Option δ} {rename : γ → δ} (h : List.Forall₂ related as bs)
    (hg : ∀ a ∈ as, ∀ b ∈ bs, related a b → g' b = (g a).map rename) :
    bs.filterMap g' = (as.filterMap g).map rename := by
  induction h with
  | nil => rfl
  | @cons a b as bs hab hrest ih =>
    have hrest' := ih fun x hx y hy => hg x (List.mem_cons_of_mem a hx) y (List.mem_cons_of_mem b hy)
    rw [List.filterMap_cons, List.filterMap_cons, hrest',
      hg a List.mem_cons_self b List.mem_cons_self hab]
    cases g a <;> rfl

variable {links : List StoredLink}

theorem arrows_perm_of_matches (hs : s.Sound) (ht : t.Sound) (hperm : links.Perm s.links)
    (hlinks : List.Forall₂ (s.Matches t) links t.links) (hfirst : ∀ l ∈ t.links, FromFirst s t l)
    (hf : ∀ v w, s.Twin t v w → w = v.mapId f) :
    t.arrows.Perm (s.arrows.map (Prod.map f f)) := by
  refine .trans (.of_eq ?_) ((hperm.filterMap _).map _)
  exact filterMap_of_forall₂ hlinks fun k hk l hl hkl =>
    hkl.arrow?_eq hs ht (hperm.mem_iff.1 hk) hl (hfirst l hl) hf

/-- The lower ends of links that lead from the ends listed first are those of the turned links. -/
theorem lowerEnds_perm_of_matches (hs : s.Sound) (ht : t.Sound) (hperm : links.Perm s.links)
    (hlinks : List.Forall₂ (s.Matches t) links t.links) (hfirst : ∀ l ∈ t.links, FromFirst s t l)
    (hf : ∀ v w, s.Twin t v w → w = v.mapId f) :
    (t.links.filterMap fun l => Index.lowerEnd? l.edge).Perm
      ((s.turned.links.filterMap fun l => Index.lowerEnd? l.edge).map (Vertex.mapId f)) := by
  have hturned : s.turned.links.filterMap (fun l => Index.lowerEnd? l.edge) =
      s.links.filterMap fun l => Index.lowerEnd? (s.turn l).edge := List.filterMap_map
  rw [hturned]
  refine .trans (.of_eq ?_) ((hperm.filterMap _).map _)
  exact filterMap_of_forall₂ hlinks fun k hk l hl hkl =>
    hkl.lowerEnd?_eq hs ht (hperm.mem_iff.1 hk) hl (hfirst l hl) hf

/-- Where links are in order, apart from loose relations, turning leaves the lower ends as they are. -/
theorem turned_lowerEnds (h : ∀ l ∈ s.links, l.relation ≠ .related → s.InOrder l) :
    s.turned.links.filterMap (fun l => Index.lowerEnd? l.edge) =
      s.links.filterMap fun l => Index.lowerEnd? l.edge := by
  refine List.filterMap_map.trans (List.filterMap_congr fun l hl => ?_)
  show Index.lowerEnd? (s.turn l).edge = Index.lowerEnd? l.edge
  by_cases horder : s.InOrder l
  · rw [turn_of_inOrder horder]
  · have hrelated : l.relation = .related := by
      by_contra hne
      exact horder (h l hl hne)
    rw [turn_of_not_inOrder horder, StoredLink.edge_reversed (not_inOrder_iff.1 horder).1,
      StoredLink.edge, hrelated]
    rfl

/-! ### Entities of a copy -/

theorem IsCopy.twin (h : s.IsCopy f t) {v : Vertex} (hv : v ∈ s.vertices) :
    s.Twin t v (v.mapId f) := by
  cases v with
  | requirement id =>
    obtain ⟨r, hr, rfl⟩ := requirement_mem_vertices.1 hv
    exact ⟨r, hr, rfl, h.requirements.mem_iff.2 (List.mem_map.2 ⟨r, hr, rfl⟩)⟩
  | node id =>
    obtain ⟨n, hn, rfl⟩ := node_mem_vertices.1 hv
    exact ⟨n, hn, rfl, h.nodes.mem_iff.2 (List.mem_map.2 ⟨n, hn, rfl⟩)⟩

theorem IsCopy.vertices_perm (h : s.IsCopy f t) :
    t.vertices.Perm (s.vertices.map (Vertex.mapId f)) := by
  refine (Store.vertices_perm t).trans (.trans ?_ ((Store.vertices_perm s).map _).symm)
  rw [List.map_append, List.map_map, List.map_map]
  have hrequirements := h.requirements.map fun r => Vertex.requirement r.id
  have hnodes := h.nodes.map fun n => Vertex.node n.id
  rw [List.map_map] at hrequirements hnodes
  exact hrequirements.append hnodes

end Store

end Crosswalk
