import Crosswalk.Proofs.Store.Gather
import Crosswalk.Proofs.Store.Growth
import Mathlib.Data.Sym.Sym2

/-!
# What links say about entities

An assertion tells how the entity with one key stands to the entity with another one; turned around,
it tells the same from the other end. A stored link says what the entities at its ends see of it. In
a sound store links say something about the same two entities only if they are one link, so there
are as many links as pairs of entities of which something is said. Two sound stores that have
gathered the same entities, and whose links say the same, are copies of each other.
-/

namespace Crosswalk

/-- How the entity with one key stands to the entity with another one. -/
structure Assertion where
  near : EntityKey
  far : EntityKey
  relation : Relation
deriving DecidableEq

namespace Assertion

/-- The assertion from the other end. -/
def turned (a : Assertion) : Assertion :=
  ⟨a.far, a.near, a.relation.inverse⟩

/-- The keys of the two entities, in no order. -/
def ends (a : Assertion) : Sym2 EntityKey :=
  s(a.near, a.far)

/-- Whether two assertions are one, from the same end or from the other. -/
def Same (a b : Assertion) : Prop :=
  b = a ∨ b = a.turned

instance (a b : Assertion) : Decidable (a.Same b) :=
  inferInstanceAs (Decidable (_ ∨ _))

/-- The names of the parent and the child, if the assertion orders requirements. -/
def arrow? (a : Assertion) : Option (String × String) :=
  match a.near, a.far, a.relation with
  | .requirement p, .requirement c, .contains => some (p, c)
  | .requirement c, .requirement p, .partOf => some (p, c)
  | _, _, _ => none

end Assertion

namespace Store

variable {ι : Type} {s t : Store} {l l' k : StoredLink} {a b : Assertion}

/-! ### Keys of vertices -/

theorem KeyAt.mono (hs : s.Sound) (hgrows : s.Grows t) {v : Vertex} {k : EntityKey}
    (h : s.KeyAt v k) : t.KeyAt v k := by
  obtain ⟨e, he, rfl, rfl⟩ := h
  cases e with
  | requirement r =>
    obtain ⟨r', hr', hgrow⟩ := hgrows.requirements r.id r
      (hs.requirement?_iff.2 ⟨hs.holds_requirement.1 he, rfl⟩)
    refine ⟨.requirement r', ?_, congrArg Vertex.requirement hgrow.id, ?_⟩
    · rw [Holds, Entity.vertex, hgrow.id, entity?, hr']
      rfl
    · rw [Entity.key, hgrow.name]
      rfl
  | node n =>
    obtain ⟨n', hn', hgrow⟩ := hgrows.nodes n.id n
      (hs.node?_iff.2 ⟨hs.holds_node.1 he, rfl⟩)
    refine ⟨.node n', ?_, congrArg Vertex.node hgrow.id, ?_⟩
    · rw [Holds, Entity.vertex, hgrow.id, entity?, hn']
      rfl
    · have hname : n'.name = n.name := congrArg NodeKey.name hgrow.key
      rw [Entity.key, incomingKey, hgrow.key, hname]
      rfl

/-! ### What a link says -/

/-- Whether the entity with the near key sees through the link what is asserted. -/
def Says (s : Store) (l : StoredLink) (a : Assertion) : Prop :=
  ∃ v w, s.KeyAt v a.near ∧ s.KeyAt w a.far ∧ (w, a.relation) ∈ l.seenFrom v

namespace Says

theorem mono (hs : s.Sound) (hgrows : s.Grows t) (h : s.Says l a) : t.Says l a := by
  obtain ⟨v, w, hv, hw, hseen⟩ := h
  exact ⟨v, w, hv.mono hs hgrows, hw.mono hs hgrows, hseen⟩

theorem same (h : s.Says l a) (hsame : a.Same b) : s.Says l b := by
  rcases hsame with rfl | rfl
  · exact h
  · obtain ⟨v, w, hv, hw, hseen⟩ := h
    exact ⟨w, v, hw, hv, StoredLink.seenFrom_comm hseen⟩

theorem seen (hs : s.Sound) (h : s.Says l a) {v w : Vertex} (hv : s.KeyAt v a.near)
    (hw : s.KeyAt w a.far) : (w, a.relation) ∈ l.seenFrom v := by
  obtain ⟨v', w', hv', hw', hseen⟩ := h
  obtain rfl := (hv'.eq_iff hs hv).2 rfl
  obtain rfl := (hw'.eq_iff hs hw).2 rfl
  exact hseen

/-- Links are between the same two entities exactly when what they say is about the same two. -/
theorem not_apart_iff (hs : s.Sound) (h : s.Says l a) (h' : s.Says l' b) :
    ¬ l.Apart l' ↔ a.ends = b.ends := by
  obtain ⟨v, w, hv, hw, hseen⟩ := h
  obtain ⟨v', w', hv', hw', hseen'⟩ := h'
  unfold Assertion.ends StoredLink.Apart
  rw [Sym2.eq_iff, ← hv.eq_iff hs hv', ← hw.eq_iff hs hw', ← hv.eq_iff hs hw', ← hw.eq_iff hs hv']
  rcases StoredLink.mem_seenFrom.1 hseen with ⟨rfl, rfl, -⟩ | ⟨rfl, rfl, -⟩ <;>
    rcases StoredLink.mem_seenFrom.1 hseen' with ⟨rfl, rfl, -⟩ | ⟨rfl, rfl, -⟩ <;> tauto

/-- What a hierarchical link says orders the requirements at its ends in the same way. -/
theorem arrow (h : s.Says l a) {p c : StoredId} (harrow : l.arrow? = some (p, c)) :
    ∃ P C, a.arrow? = some (P, C) ∧ s.KeyAt (.requirement p) (.requirement P) ∧
      s.KeyAt (.requirement c) (.requirement C) := by
  obtain ⟨near, far, relation⟩ := a
  obtain ⟨v, w, hv, hw, hseen⟩ := h
  -- the assertion is made from the parent's end or from the child's
  rcases StoredLink.seenFrom_cases (StoredLink.arrow?_iff_seenFrom.1 harrow) hseen with
    ⟨rfl, rfl, rfl⟩ | ⟨rfl, rfl, rfl⟩
  · obtain ⟨P, rfl⟩ := hv.eq_requirement
    obtain ⟨C, rfl⟩ := hw.eq_requirement
    exact ⟨P, C, rfl, hv, hw⟩
  · obtain ⟨C, rfl⟩ := hv.eq_requirement
    obtain ⟨P, rfl⟩ := hw.eq_requirement
    exact ⟨P, C, rfl, hw, hv⟩

/-- Links that say the same in two stores that have gathered the same entities match. -/
theorem matching {es : List (Entity ι)} (hs : s.Sound) (ht : t.Sound) (hes : s.Gathers es)
    (hes' : t.Gathers es) (h : s.Says k a) (h' : t.Says l a) : s.Matches t k l := by
  obtain ⟨v, w, hv, hw, hseen⟩ := h
  obtain ⟨v', w', hv', hw', hseen'⟩ := h'
  exact .of_seenFrom hseen hseen' (hes.twin hs ht hes' hv hv') (hes.twin hs ht hes' hw hw')

end Says

/-- Links have no cycle when what they say has none. -/
theorem acyclic_of_told (hs : s.Sound) {links : List StoredLink} {as : List Assertion}
    (has : Graph.Acyclic (as.filterMap Assertion.arrow?))
    (h : ∀ l ∈ links, ∃ a ∈ as, s.Says l a) :
    Graph.Acyclic (links.filterMap StoredLink.arrow?) := by
  have hname : ∀ id, ∃ name, ∀ N, s.KeyAt (.requirement id) (.requirement N) → name = N := by
    intro id
    by_cases hex : ∃ name, s.KeyAt (.requirement id) (.requirement name)
    · obtain ⟨name, hkey⟩ := hex
      exact ⟨name, fun N hN => EntityKey.requirement.inj ((hkey.eq_iff hs hN).1 rfl)⟩
    · exact ⟨"", fun N hN => absurd ⟨N, hN⟩ hex⟩
  choose name hname using hname
  refine has.of_map name fun p c hpc => ?_
  obtain ⟨l, hl, harrow⟩ := List.mem_filterMap.1 hpc
  obtain ⟨a, ha, htold⟩ := h l hl
  obtain ⟨P, C, ha', hp, hc⟩ := htold.arrow harrow
  rw [hname p P hp, hname c C hc]
  exact List.mem_filterMap.2 ⟨a, ha, ha'⟩

/-! ### What all links say -/

/-- The links of the store say what is asserted and nothing else. -/
structure Asserts (s : Store) (as : List Assertion) : Prop where
  said : ∀ l ∈ s.links, ∃ a ∈ as, s.Says l a
  complete : ∀ a ∈ as, ∃ l ∈ s.links, s.Says l a

namespace Asserts

variable {as as' : List Assertion}

theorem perm (h : s.Asserts as) (hperm : as.Perm as') : s.Asserts as' where
  said := by
    intro l hl
    obtain ⟨a, ha, htold⟩ := h.said l hl
    exact ⟨a, hperm.mem_iff.1 ha, htold⟩
  complete := fun a ha => h.complete a (hperm.mem_iff.2 ha)

theorem mono (hs : s.Sound) (hgrows : s.Grows t) (hlinks : t.links = s.links)
    (h : s.Asserts as) : t.Asserts as where
  said := by
    intro l hl
    obtain ⟨a, ha, htold⟩ := h.said l (hlinks ▸ hl)
    exact ⟨a, ha, htold.mono hs hgrows⟩
  complete := by
    intro a ha
    obtain ⟨l, hl, htold⟩ := h.complete a ha
    exact ⟨l, hlinks ▸ hl, htold.mono hs hgrows⟩

/-- What a stored link says may be asserted as well. -/
theorem append_said (h : s.Asserts as) (hl : l ∈ s.links) (htold : s.Says l a) :
    s.Asserts (as ++ [a]) where
  said := by
    intro m hm
    obtain ⟨b, hb, htold'⟩ := h.said m hm
    exact ⟨b, List.mem_append_left _ hb, htold'⟩
  complete := by
    intro b hb
    rcases List.mem_append.1 hb with hb | hb
    · exact h.complete b hb
    · exact ⟨l, hl, List.mem_singleton.1 hb ▸ htold⟩

/-- One more link says what it says, and the others say what they said. -/
theorem append_link (hs : s.Sound) (hgrows : s.Grows t) (hlinks : t.links = s.links ++ [l])
    (h : s.Asserts as) (htold : s.Says l a) : t.Asserts (as ++ [a]) where
  said := by
    intro m hm
    rw [hlinks, List.mem_append, List.mem_singleton] at hm
    rcases hm with hm | rfl
    · obtain ⟨b, hb, htold'⟩ := h.said m hm
      exact ⟨b, List.mem_append_left _ hb, htold'.mono hs hgrows⟩
    · exact ⟨a, List.mem_append_right _ (List.mem_singleton_self a), htold.mono hs hgrows⟩
  complete := by
    intro b hb
    rw [hlinks]
    rcases List.mem_append.1 hb with hb | hb
    · obtain ⟨m, hm, htold'⟩ := h.complete b hb
      exact ⟨m, List.mem_append_left _ hm, htold'.mono hs hgrows⟩
    · rw [List.mem_singleton.1 hb]
      exact ⟨l, List.mem_append_right _ (List.mem_singleton_self l), htold.mono hs hgrows⟩

/-- There is one link for each two entities of which something is asserted. -/
theorem length_links (hs : s.Sound) (h : s.Asserts as) :
    s.links.length = (as.map Assertion.ends).toFinset.card := by
  have hsaid := h.said
  choose said hsaid using hsaid
  rw [← List.toFinset_card_of_nodup hs.linksOnce.ids_nodup.of_map]
  refine Finset.card_bij (fun l hl => (said l (List.mem_toFinset.1 hl)).ends) (fun l hl => ?_)
    (fun l hl l' hl' heq => ?_) fun pair hpair => ?_
  · exact List.mem_toFinset.2 (List.mem_map_of_mem (hsaid l _).1)
  · rw [← Says.not_apart_iff hs (hsaid l _).2 (hsaid l' _).2] at heq
    exact hs.linksOnce.link_eq_of_not_apart (List.mem_toFinset.1 hl) (List.mem_toFinset.1 hl') heq
  · obtain ⟨a, ha, rfl⟩ := List.mem_map.1 (List.mem_toFinset.1 hpair)
    obtain ⟨l, hl, htold⟩ := h.complete a ha
    exact ⟨l, List.mem_toFinset.2 hl,
      (Says.not_apart_iff hs (hsaid l hl).2 htold).1 (StoredLink.not_apart_self l)⟩

/-- Stores that have gathered the same entities and say the same of them are copies. -/
theorem isCopy {es : List (Entity ι)} (hs : s.Sound) (ht : t.Sound) (hes : s.Gathers es)
    (hes' : t.Gathers es) (h : s.Asserts as) (h' : t.Asserts as) : ∃ f, s.IsCopy f t := by
  have hlinks : ∀ l ∈ t.links, ∃ k ∈ s.links, s.Matches t k l := by
    intro l hl
    obtain ⟨a, ha, htold⟩ := h'.said l hl
    obtain ⟨k, hk, htold'⟩ := h.complete a ha
    exact ⟨k, hk, htold'.matching hs ht hes hes' htold⟩
  have hlinks' : ∀ k ∈ s.links, ∃ l ∈ t.links, s.Matches t k l := by
    intro k hk
    obtain ⟨a, ha, htold⟩ := h.said k hk
    obtain ⟨l, hl, htold'⟩ := h'.complete a ha
    exact ⟨l, hl, htold.matching hs ht hes hes' htold'⟩
  obtain ⟨links, hperm, hmatches⟩ := exists_forall₂_matches hs ht hlinks hlinks'
  have htwin : ∀ v ∈ s.vertices, ∃ w, s.Twin t v w := by
    intro v hv
    obtain ⟨e, he, rfl⟩ := hs.mem_vertices.1 hv
    obtain ⟨w, hw⟩ := hes.exists_keyAt hes' ⟨e, he, rfl, rfl⟩
    exact ⟨w, hes.twin hs ht hes' ⟨e, he, rfl, rfl⟩ hw⟩
  refine isCopy_of_twins hs ht (fun q hq => ?_) (fun m hm => ?_) htwin hperm hmatches
  · obtain ⟨e, he, heq⟩ := hes.exists_withId hs ht hes' (ht.holds_requirement.2 hq)
    cases e with
    | requirement r => exact ⟨r, hs.holds_requirement.1 he, Entity.requirement.inj heq⟩
    | node n => cases heq
  · obtain ⟨e, he, heq⟩ := hes.exists_withId hs ht hes' (ht.holds_node.2 hm)
    cases e with
    | requirement r => cases heq
    | node n => exact ⟨n, hs.holds_node.1 he, Entity.node.inj heq⟩

end Asserts

end Store

end Crosswalk
