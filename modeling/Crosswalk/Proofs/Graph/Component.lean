import Crosswalk.Graph.Component
import Crosswalk.Proofs.Graph.Reachability

/-!
# What labels tell

Two vertices have one label in the end exactly when arrows connect them, whatever the direction of
the arrows. Taking an arrow gives its two ends one label and parts no vertices that have one already,
so what is connected comes to have one label. Conversely, a relation that is kept by combining and
reversing and holds of the ends of every arrow holds of all vertices with one label.
-/

namespace Crosswalk.Graph

variable {α : Type} {arrows : List (α × α)} {a b : α}

/-! ### Arrows in both directions -/

theorem mem_undirected : (a, b) ∈ undirected arrows ↔ (a, b) ∈ arrows ∨ (b, a) ∈ arrows := by
  rw [undirected, List.mem_append, List.mem_map]
  refine or_congr_right ⟨?_, fun h => ⟨(b, a), h, rfl⟩⟩
  rintro ⟨⟨s, t⟩, h, heq⟩
  obtain ⟨rfl, rfl⟩ := Prod.mk.inj heq
  exact h

/-- Where arrows are followed in both directions, each has its reversal. -/
instance (arrows : List (α × α)) : Std.Symm (Arrow (undirected arrows)) where
  symm _ _ hab := mem_undirected.2 (mem_undirected.1 hab).symm

/-- Being connected, whatever the direction of the arrows, is an equivalence. -/
theorem connected_equivalence (arrows : List (α × α)) :
    Equivalence (Relation.ReflTransGen (Arrow (undirected arrows))) where
  refl _ := .refl
  symm hab := Std.Symm.symm _ _ hab
  trans hab hbc := hab.trans hbc

/-! ### Looking up labels -/

variable [DecidableEq α] {labels : List (α × Nat)} {arrow : α × α} {vertices : List α}

/-- Two vertices have one label. -/
def SameLabel (labels : List (α × Nat)) (a b : α) : Prop :=
  ∃ k, labels.lookup a = some k ∧ labels.lookup b = some k

theorem SameLabel.symm (h : SameLabel labels a b) : SameLabel labels b a := by
  obtain ⟨k, ha, hb⟩ := h
  exact ⟨k, hb, ha⟩

theorem isSome_label : (labels.lookup a).isSome = true ↔ a ∈ labels.map (·.1) := by
  rw [List.lookup_isSome_iff, List.mem_map]
  simp only [beq_iff_eq, eq_comm (a := a)]

theorem lookup_mapLabel (f : Nat → Nat) (labels : List (α × Nat)) (a : α) :
    (labels.map fun (v, m) => (v, f m)).lookup a = (labels.lookup a).map f := by
  induction labels with
  | nil => rfl
  | cons p labels ih =>
    obtain ⟨v, m⟩ := p
    rw [List.map_cons, List.lookup_cons, List.lookup_cons, ih]
    split <;> rfl

/-- Vertices that differ have different labels at first. -/
theorem eq_of_sameLabel_zipIdx (h : SameLabel vertices.zipIdx a b) : a = b := by
  obtain ⟨k, ha, hb⟩ := h
  have hat : ∀ {c}, vertices.zipIdx.lookup c = some k → vertices[k]? = some c := by
    intro c hc
    obtain ⟨before, after, hsplit, -⟩ := List.lookup_eq_some_iff.1 hc
    have hmem : (c, k) ∈ vertices.zipIdx := by simp [hsplit]
    exact List.mem_zipIdx_iff_getElem?.1 hmem
  exact Option.some.inj ((hat ha).symm.trans (hat hb))

/-! ### Taking one arrow -/

/-- What taking an arrow changes: nothing, or the label of its end into the label of its start. -/
theorem unite_cases (labels : List (α × Nat)) (arrow : α × α) :
    (∃ k l, labels.lookup arrow.1 = some k ∧ labels.lookup arrow.2 = some l ∧
      ∀ c, (unite labels arrow).lookup c =
        (labels.lookup c).map fun m => if m = l then k else m) ∨
    (arrow.1 ∉ labels.map (·.1) ∨ arrow.2 ∉ labels.map (·.1)) ∧ unite labels arrow = labels := by
  unfold unite
  split
  · rename_i k l hk hl
    exact .inl ⟨k, l, hk, hl, lookup_mapLabel (fun m => if m = l then k else m) labels⟩
  · rename_i hnone
    refine .inr ⟨?_, rfl⟩
    rw [← isSome_label, ← isSome_label, ← not_and_or]
    rintro ⟨hs, ht⟩
    obtain ⟨k, hk⟩ := Option.isSome_iff_exists.1 hs
    obtain ⟨l, hl⟩ := Option.isSome_iff_exists.1 ht
    exact hnone k l hk hl

theorem unite_vertices (labels : List (α × Nat)) (arrow : α × α) :
    (unite labels arrow).map (·.1) = labels.map (·.1) := by
  unfold unite
  split
  · rw [List.map_map]
    rfl
  · rfl

theorem SameLabel.unite (h : SameLabel labels a b) (arrow : α × α) :
    SameLabel (unite labels arrow) a b := by
  obtain ⟨m, ha, hb⟩ := h
  rcases unite_cases labels arrow with ⟨k, l, -, -, hlookup⟩ | ⟨-, heq⟩
  · exact ⟨if m = l then k else m, by rw [hlookup, ha]; rfl, by rw [hlookup, hb]; rfl⟩
  · rw [heq]
    exact ⟨m, ha, hb⟩

/-- The ends of an arrow that is taken get one label. -/
theorem sameLabel_unite_ends (hs : arrow.1 ∈ labels.map (·.1)) (ht : arrow.2 ∈ labels.map (·.1)) :
    SameLabel (unite labels arrow) arrow.1 arrow.2 := by
  rcases unite_cases labels arrow with ⟨k, l, hk, hl, hlookup⟩ | ⟨hunknown, -⟩
  · refine ⟨k, ?_, ?_⟩
    · rw [hlookup, hk, Option.map_some, ite_self]
    · rw [hlookup, hl, Option.map_some, if_pos rfl]
  · exact absurd hunknown (by simp [hs, ht])

/-- Vertices with one label after an arrow has been taken had one label before, or each had that of
an end of the arrow. -/
theorem sameLabel_of_unite (h : SameLabel (unite labels arrow) a b) :
    SameLabel labels a b ∨
      (SameLabel labels a arrow.1 ∧ SameLabel labels b arrow.2) ∨
      (SameLabel labels a arrow.2 ∧ SameLabel labels b arrow.1) := by
  rcases unite_cases labels arrow with ⟨k, l, hk, hl, hlookup⟩ | ⟨-, heq⟩
  · obtain ⟨n, ha, hb⟩ := h
    rw [hlookup, Option.map_eq_some_iff] at ha hb
    obtain ⟨m, ha, hm⟩ := ha
    obtain ⟨m', hb, hm'⟩ := hb
    by_cases hml : m = l <;> by_cases hml' : m' = l
    · exact .inl ⟨l, hml ▸ ha, hml' ▸ hb⟩
    · rw [if_pos hml] at hm
      rw [if_neg hml'] at hm'
      exact .inr (.inr ⟨⟨l, hml ▸ ha, hl⟩, ⟨k, by rw [hb, hm', hm], hk⟩⟩)
    · rw [if_neg hml] at hm
      rw [if_pos hml'] at hm'
      exact .inr (.inl ⟨⟨k, by rw [ha, hm, hm'], hk⟩, ⟨l, hml' ▸ hb, hl⟩⟩)
    · rw [if_neg hml] at hm
      rw [if_neg hml'] at hm'
      exact .inl ⟨m, ha, by rw [hb, hm', hm]⟩
  · rw [heq] at h
    exact .inl h

/-! ### Taking all arrows -/

theorem foldl_unite_vertices (labels : List (α × Nat)) (arrows : List (α × α)) :
    (arrows.foldl unite labels).map (·.1) = labels.map (·.1) := by
  induction arrows generalizing labels with
  | nil => rfl
  | cons arrow arrows ih => rw [List.foldl_cons, ih, unite_vertices]

theorem SameLabel.foldl_unite (h : SameLabel labels a b) (arrows : List (α × α)) :
    SameLabel (arrows.foldl Graph.unite labels) a b := by
  induction arrows generalizing labels with
  | nil => exact h
  | cons arrow arrows ih => exact ih (h.unite arrow)

/-- Every arrow between known vertices gives them one label. -/
theorem sameLabel_of_arrow (hends : ∀ p ∈ arrows, p.1 ∈ labels.map (·.1) ∧ p.2 ∈ labels.map (·.1))
    (hab : (a, b) ∈ arrows) : SameLabel (arrows.foldl unite labels) a b := by
  induction arrows generalizing labels with
  | nil => exact absurd hab List.not_mem_nil
  | cons arrow arrows ih =>
    rw [List.foldl_cons]
    rcases List.mem_cons.1 hab with rfl | hab
    · obtain ⟨hs, ht⟩ := hends _ List.mem_cons_self
      exact (sameLabel_unite_ends hs ht).foldl_unite arrows
    · refine ih (fun p hp => ?_) hab
      rw [unite_vertices]
      exact hends p (List.mem_cons_of_mem _ hp)

/-- A relation that holds of the ends of every arrow holds of all vertices that get one label. -/
theorem of_sameLabel {R : α → α → Prop} (hR : Equivalence R) (harrows : ∀ p ∈ arrows, R p.1 p.2)
    (hlabels : ∀ a b, SameLabel labels a b → R a b) (h : SameLabel (arrows.foldl unite labels) a b) :
    R a b := by
  induction arrows generalizing labels with
  | nil => exact hlabels a b h
  | cons arrow arrows ih =>
    refine ih (fun p hp => harrows p (List.mem_cons_of_mem _ hp)) (fun c d hcd => ?_) h
    have hends := harrows arrow List.mem_cons_self
    rcases sameLabel_of_unite hcd with hcd | ⟨hc, hd⟩ | ⟨hc, hd⟩
    · exact hlabels c d hcd
    · exact hR.trans (hlabels _ _ hc) (hR.trans hends (hR.symm (hlabels _ _ hd)))
    · exact hR.trans (hlabels _ _ hc) (hR.trans (hR.symm hends) (hR.symm (hlabels _ _ hd)))

/-! ### What the labels tell -/

theorem componentLabels_vertices (arrows : List (α × α)) (vertices : List α) :
    (componentLabels arrows vertices).map (·.1) = vertices := by
  rw [componentLabels, foldl_unite_vertices]
  exact List.zipIdx_map_fst 0 vertices

/-- In a graph whose arrows join its vertices, two vertices have one label exactly when arrows connect
them, whatever their direction. -/
theorem sameLabel_componentLabels (hends : ∀ p ∈ arrows, p.1 ∈ vertices ∧ p.2 ∈ vertices) :
    SameLabel (componentLabels arrows vertices) a b ↔
      a ∈ vertices ∧ b ∈ vertices ∧ Relation.ReflTransGen (Arrow (undirected arrows)) a b := by
  have hknown : ∀ {c}, ((componentLabels arrows vertices).lookup c).isSome = true ↔ c ∈ vertices := by
    intro c
    rw [isSome_label, componentLabels_vertices]
  constructor
  · intro h
    obtain ⟨k, ha, hb⟩ := id h
    refine ⟨hknown.1 (Option.isSome_of_eq_some ha), hknown.1 (Option.isSome_of_eq_some hb), ?_⟩
    refine of_sameLabel (connected_equivalence arrows) (fun p hp => ?_) (fun c d hcd => ?_) h
    · exact .single (mem_undirected.2 (.inl hp))
    · rw [eq_of_sameLabel_zipIdx hcd]
  · rintro ⟨ha, -, hab⟩
    induction hab with
    | refl =>
      obtain ⟨k, hk⟩ := Option.isSome_iff_exists.1 (hknown.2 ha)
      exact ⟨k, hk, hk⟩
    | @tail c d _ hcd ih =>
      have hzip : ∀ p ∈ arrows,
          p.1 ∈ vertices.zipIdx.map (·.1) ∧ p.2 ∈ vertices.zipIdx.map (·.1) := by
        rw [List.zipIdx_map_fst]
        exact hends
      have hlast : SameLabel (componentLabels arrows vertices) c d := by
        rcases mem_undirected.1 hcd with hcd | hdc
        · exact sameLabel_of_arrow hzip hcd
        · exact (sameLabel_of_arrow hzip hdc).symm
      obtain ⟨k, hak, hck⟩ := ih
      obtain ⟨l, hcl, hdl⟩ := hlast
      obtain rfl := Option.some.inj (hck.symm.trans hcl)
      exact ⟨k, hak, hdl⟩

end Crosswalk.Graph
