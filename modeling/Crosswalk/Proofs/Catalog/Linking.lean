import Crosswalk.Proofs.Catalog.Again
import Crosswalk.Proofs.Catalog.Growth
import Crosswalk.Proofs.Catalog.Join
import Crosswalk.Proofs.Index.Closing
import Crosswalk.Proofs.Store.Entries

/-!
# What linking comes to

A link between two stored entities is found as wanted, written in the place of the one that joins
them, created, or dropped because it would close a cycle. Nothing but this link changes. Unless it is
dropped, each of the two lists one entry for the other afterwards, as wanted from its own end, and
linking them once more, from either end, changes nothing.
-/

namespace Crosswalk.Catalog

variable {ι : Type} {c c' : Catalog} {kind : LinkKind} {a b : StoredId} {v w : Vertex}
  {relation oriented : Relation} {same : Bool}

/-- What linking two entities does to a catalogue, and what is said about it. -/
structure LinkEffect (c : Catalog) (v w : Vertex) (relation : Relation) (outcome : LinkOutcome)
    (c' : Catalog) : Prop where
  unchanged_iff : outcome = .unchanged ↔ (w, relation) ∈ c.store.seen v
  kept : outcome = .unchanged ∨ (∃ cycle, outcome = .cycleDropped cycle) → c' = c
  /-- The link that joined the two keeps its identity and its place. -/
  updated : outcome = .updated → ∃ before old after new,
    c.store.links = before ++ old :: after ∧ c'.store.links = before ++ new :: after ∧
      new.id = old.id ∧ old.pair = s(v, w)
  created : outcome = .created → (∀ l ∈ c.store.links, l.pair ≠ s(v, w)) ∧
    ∃ new, c'.store.links = c.store.links ++ [new]
  requirements : c'.store.requirements = c.store.requirements
  nodes : c'.store.nodes = c.store.nodes
  /-- The entries for all other pairs of entities stay as they are. -/
  others : ∀ x, (c'.store.linksOf x).filter (fun entry => s(x, entry.far) ≠ s(v, w)) =
    (c.store.linksOf x).filter fun entry => s(x, entry.far) ≠ s(v, w)
  linked : (∀ cycle, outcome ≠ .cycleDropped cycle) →
    ∃ l ∈ c'.store.links, (w, relation) ∈ l.seenFrom v

namespace Joins

variable {result : Except Failure (LinkOutcome × Catalog)}

theorem linkFor_pair (h : Joins c v w relation result kind a b oriented same) :
    (c.store.linkFor kind a b oriented).pair = s(v, w) :=
  StoredLink.pair_of_seenFrom h.seen

/-- The link between the two, if there is one, is the one that is found. -/
theorem findLink?_eq (h : Joins c v w relation result kind a b oriented same)
    (honce : c.store.LinksOnce) {l : StoredLink} (hl : l ∈ c.store.links)
    (hpair : l.pair = s(v, w)) : c.store.findLink? kind a b = some l :=
  honce.findLink?_eq hl fun hapart => StoredLink.apart_iff.1 hapart (h.linkFor_pair.trans hpair.symm)

theorem same_iff_seen (h : Joins c v w relation result kind a b oriented same)
    (honce : c.store.LinksOnce) : same = true ↔ (w, relation) ∈ c.store.seen v := by
  rw [h.same_iff, Store.mem_seen]
  constructor
  · rintro ⟨l, hfind, hseen⟩
    exact ⟨l, (Store.findLink?_some hfind).1, hseen⟩
  · rintro ⟨l, hl, hseen⟩
    exact ⟨l, h.findLink?_eq honce hl (StoredLink.pair_of_seenFrom hseen), hseen⟩

/-- What is found or dropped leaves everything as it is. -/
theorem effect_kept (h : Joins c v w relation result kind a b oriented same)
    (honce : c.store.LinksOnce) {outcome : LinkOutcome}
    (houtcome : (outcome = .unchanged ∧ same = true) ∨
      ((∃ cycle, outcome = .cycleDropped cycle) ∧ same = false)) :
    LinkEffect c v w relation outcome c where
  unchanged_iff := by
    rw [← h.same_iff_seen honce]
    rcases houtcome with ⟨rfl, rfl⟩ | ⟨⟨cycle, rfl⟩, rfl⟩ <;> simp
  kept := fun _ => rfl
  updated := by
    rintro rfl
    rcases houtcome with ⟨hunchanged, -⟩ | ⟨⟨cycle, hdropped⟩, -⟩
    · cases hunchanged
    · cases hdropped
  created := by
    rintro rfl
    rcases houtcome with ⟨hunchanged, -⟩ | ⟨⟨cycle, hdropped⟩, -⟩
    · cases hunchanged
    · cases hdropped
  requirements := rfl
  nodes := rfl
  others := fun _ => rfl
  linked := by
    intro hkept
    rcases houtcome with ⟨-, rfl⟩ | ⟨⟨cycle, rfl⟩, -⟩
    · exact Store.mem_seen.1 ((h.same_iff_seen honce).1 rfl)
    · exact absurd rfl (hkept cycle)

/-- Only the link between the two differs once it has been written. -/
theorem filter_links_written (h : Joins c v w relation result kind a b oriented same)
    (honce : c.store.LinksOnce) :
    (c.store.withLink kind a b oriented).links.filter (fun l => l.pair ≠ s(v, w)) =
      c.store.links.filter fun l => l.pair ≠ s(v, w) := by
  have hpair := h.linkFor_pair
  cases hfind : c.store.findLink? kind a b with
  | none =>
    rw [Store.withLink_links_of_none hfind, List.filter_append,
      List.filter_cons_of_neg (by simp [hpair]), List.filter_nil, List.append_nil]
  | some old =>
    obtain ⟨before, after, hlinks, hlinks'⟩ :=
      Store.withLink_links_of_some honce hfind oriented
    have hnot : ¬ (c.store.linkFor kind a b oriented).Apart old :=
      Store.not_apart_of_findLink? hfind
    rw [StoredLink.apart_iff, not_not, hpair] at hnot
    rw [hlinks, hlinks', List.filter_append, List.filter_append,
      List.filter_cons_of_neg (by simp [hpair]), List.filter_cons_of_neg (by simp [← hnot])]

theorem effect_written (h : Joins c v w relation result kind a b oriented false)
    (honce : c.store.LinksOnce) :
    LinkEffect c v w relation (c.writeOutcome kind a b) (c.written kind a b oriented) where
  unchanged_iff := by
    rw [← h.same_iff_seen honce]
    unfold writeOutcome
    split <;> simp
  kept := by
    unfold writeOutcome
    split <;> rintro (houtcome | ⟨cycle, houtcome⟩) <;> cases houtcome
  updated := by
    intro houtcome
    unfold writeOutcome at houtcome
    split at houtcome
    · rename_i hsome
      obtain ⟨old, hfind⟩ := Option.isSome_iff_exists.1 hsome
      obtain ⟨before, after, hlinks, hlinks'⟩ :=
        Store.withLink_links_of_some honce hfind oriented
      refine ⟨before, old, after, _, hlinks, hlinks', by rw [Store.linkFor_of_some hfind], ?_⟩
      have hnot : ¬ (c.store.linkFor kind a b oriented).Apart old :=
        Store.not_apart_of_findLink? hfind
      rw [StoredLink.apart_iff, not_not, h.linkFor_pair] at hnot
      exact hnot.symm
    · cases houtcome
  created := by
    intro houtcome
    unfold writeOutcome at houtcome
    split at houtcome
    · cases houtcome
    · rename_i hnone
      rw [Option.not_isSome_iff_eq_none] at hnone
      refine ⟨fun l hl hpair => ?_, _, Store.withLink_links_of_none hnone⟩
      rw [h.findLink?_eq honce hl hpair] at hnone
      cases hnone
  requirements := Store.withLink_requirements
  nodes := Store.withLink_nodes
  others := fun x => Store.filter_linksOf_congr (p := fun pair => decide (pair ≠ s(v, w)))
    Store.withLink_requirements Store.withLink_nodes (h.filter_links_written honce) x
  linked := fun _ =>
    ⟨_, (Store.withLink_links_perm honce).mem_iff.2 List.mem_cons_self, h.seen⟩

theorem effect (h : Joins c v w relation result kind a b oriented same)
    (honce : c.store.LinksOnce) :
    LinkEffect c v w relation (c.settle kind a b oriented same).1
      (c.settle kind a b oriented same).2 := by
  unfold settle
  cases same with
  | true => exact h.effect_kept honce (.inl ⟨rfl, rfl⟩)
  | false =>
    cases hpath : c.index.closingPath? a b oriented with
    | some cycle => exact h.effect_kept honce (.inr ⟨⟨cycle, rfl⟩, rfl⟩)
    | none => exact h.effect_written honce

end Joins

/-! ### When a link is dropped -/

/-- Containments lead from the child back to the parent that a relation between two requirements
would make of them, without one that joins the two. -/
def ClosesCycle (s : Store) (a b : StoredId) (relation : Relation) : Prop :=
  ∃ parent child, relation.ordered? a b = some (parent, child) ∧
    Relation.ReflTransGen (fun x y => (x, y) ∈ s.containments ∧ s(x, y) ≠ s(a, b)) child parent

theorem settle_dropped_iff :
    (∃ cycle, (c.settle kind a b relation same).1 = .cycleDropped cycle) ↔
      same = false ∧ c.index.closingPath? a b relation ≠ none := by
  unfold settle
  cases same with
  | true => simp
  | false =>
    cases hpath : c.index.closingPath? a b relation with
    | some cycle => simp
    | none =>
      refine iff_of_false ?_ fun hdropped => hdropped.2 rfl
      rintro ⟨cycle, hdropped⟩
      have houtcome : c.writeOutcome kind a b = .cycleDropped cycle := hdropped
      unfold writeOutcome at houtcome
      split at houtcome <;> cases houtcome

theorem arrow?_iff_of_ordered {l : StoredLink} {parent child : StoredId}
    (h : relation.ordered? a b = some (parent, child)) :
    l.arrow? = some (parent, child) ↔
      (.requirement b, relation) ∈ l.seenFrom (.requirement a) := by
  rw [StoredLink.arrow?_iff_seenFrom]
  cases relation <;> cases h
  · exact StoredLink.seenFrom_comm_iff
  · exact .rfl

/-- A hierarchical relation is stored as containment, with the parent as its source. -/
theorem orient_of_ordered {parent child : StoredId}
    (h : relation.ordered? a b = some (parent, child)) :
    orient a b relation = (parent, child, .contains) := by
  cases relation <;> cases h <;> rfl

theorem orient_of_not_ordered (h : relation.ordered? a b = none) :
    orient a b relation = (a, b, relation) := by
  cases relation <;> first | rfl | cases h

namespace Consistent

/-- The search for a cycle follows the stored containments that do not join the two. -/
theorem closingPath?_ordered (h : c.Consistent) (ha : .requirement a ∈ c.store.vertices)
    (hb : .requirement b ∈ c.store.vertices) {parent child : StoredId}
    (hordered : relation.ordered? a b = some (parent, child)) :
    c.index.closingPath? parent child .contains = none ↔
      ¬ Relation.ReflTransGen (fun x y => (x, y) ∈ c.store.containments ∧ s(x, y) ≠ s(a, b))
        child parent := by
  have hends := Relation.ordered?_ends hordered
  have hstored : .requirement parent ∈ c.store.vertices ∧ .requirement child ∈ c.store.vertices := by
    rcases hends with ⟨rfl, rfl⟩ | ⟨rfl, rfl⟩
    · exact ⟨ha, hb⟩
    · exact ⟨hb, ha⟩
  have hpair : s(parent, child) = s(a, b) := Sym2.eq_iff.2 hends
  have harrows : Graph.Arrow ((c.store.otherLinks .internal parent child).filterMap
      StoredLink.arrow?) = fun x y => (x, y) ∈ c.store.containments ∧ s(x, y) ≠ s(a, b) := by
    funext x y
    refine propext ?_
    rw [Graph.Arrow, ← h.mem_dropArrows, Index.mem_dropArrows_iff_sym2, hpair,
      h.mirrors.hierarchy.mem_iff, ← h.sound.arrows_eq]
    rfl
  rw [h.closingPath?_contains hstored.1 hstored.2, harrows]

/-- A link between two stored requirements is dropped exactly if it would close a cycle. -/
theorem dropped_iff (h : c.Consistent) (ha : .requirement a ∈ c.store.vertices)
    (hb : .requirement b ∈ c.store.vertices) {source target : StoredId}
    (horient : orient a b relation = (source, target, oriented))
    (hjoins : Joins c (.requirement a) (.requirement b) relation
      (c.joinRequirements a b relation) .internal source target oriented same) :
    (∃ cycle, (c.settle .internal source target oriented same).1 = .cycleDropped cycle) ↔
      ClosesCycle c.store a b relation := by
  rw [settle_dropped_iff]
  cases hordered : relation.ordered? a b with
  | none =>
    rw [orient_of_not_ordered hordered] at horient
    cases horient
    rw [Index.closingPath?_eq_none hordered]
    refine iff_of_false (fun hdropped => hdropped.2 rfl) ?_
    rintro ⟨_, _, hsome, -⟩
    cases hordered.symm.trans hsome
  | some arrow =>
    obtain ⟨parent, child⟩ := arrow
    obtain ⟨rfl, rfl, rfl⟩ : parent = source ∧ child = target ∧ .contains = oriented := by
      simpa [orient_of_ordered hordered] using horient
    rw [ne_eq, h.closingPath?_ordered ha hb hordered, not_not]
    constructor
    · exact fun hdropped => ⟨parent, child, hordered, hdropped.2⟩
    · rintro ⟨_, _, hsome, hback⟩
      cases hordered.symm.trans hsome
      refine ⟨?_, hback⟩
      rw [← Bool.not_eq_true]
      -- a containment that is stored already closes no path, as what is stored has no cycle
      intro hsame
      obtain ⟨l, hfind, hseen⟩ := hjoins.same_iff.1 hsame
      have harrow : (parent, child) ∈ c.store.arrows :=
        List.mem_filterMap.2
          ⟨l, (Store.findLink?_some hfind).1, (arrow?_iff_of_ordered hordered).2 hseen⟩
      refine h.sound.acyclic parent (.head' harrow ?_)
      rw [h.sound.arrows_eq]
      exact Relation.ReflTransGen.mono (fun x y hxy => hxy.1) child parent hback

/-! ### Linked requirements -/

theorem linkRequirements_eq (h : c.Consistent) (a b : StoredId) (relation : Relation) :
    c.linkRequirements a b relation = c.joinRequirements a b relation :=
  h.guarded _

/-- Two requirements that a link joins list one entry each for the other, and linking them as they see
each other changes nothing. -/
theorem linked_twice (h : c.Consistent) {l : StoredLink} (hl : l ∈ c.store.links)
    (hseen : (.requirement b, relation) ∈ l.seenFrom (.requirement a)) (hne : a ≠ b)
    {p q : Requirement StoredId} (hp : c.store.requirement? a = some p)
    (hq : c.store.requirement? b = some q) :
    (c.store.linksOf (.requirement a)).filter (fun entry => entry.far = .requirement b) =
        [.mk relation (.ofRequirement q)] ∧
      (c.store.linksOf (.requirement b)).filter (fun entry => entry.far = .requirement a) =
        [.mk relation.inverse (.ofRequirement p)] ∧
      c.linkRequirements a b relation = .ok (.unchanged, c) ∧
      c.linkRequirements b a relation.inverse = .ok (.unchanged, c) := by
  have hback := StoredLink.seenFrom_comm hseen
  have hvertices : Vertex.requirement a ≠ .requirement b := fun heq => hne (Vertex.requirement.inj heq)
  obtain ⟨-, rfl⟩ := h.sound.requirement?_iff.1 hp
  obtain ⟨-, rfl⟩ := h.sound.requirement?_iff.1 hq
  have hjoin : c.joinEntities (.requirement p) (.requirement q) relation = .ok (.unchanged, c) :=
    h.joinEntities_self hl hseen
  have hjoinBack : c.joinEntities (.requirement q) (.requirement p) relation.inverse =
      .ok (.unchanged, c) := h.joinEntities_self hl hback
  refine ⟨?_, ?_, ?_, ?_⟩
  · exact h.sound.linksOnce.linksOf_between hl hseen hvertices (by rw [Store.entity?, hq]; rfl)
  · exact h.sound.linksOnce.linksOf_between hl hback hvertices.symm (by rw [Store.entity?, hp]; rfl)
  · rw [h.linkRequirements_eq]
    exact hjoin
  · rw [h.linkRequirements_eq]
    exact hjoinBack

theorem linkRequirements_notFound (h : c.Consistent)
    (hmissing : c.store.requirement? a = none ∨ c.store.requirement? b = none)
    (relation : Relation) :
    ∃ id, (id = a ∨ id = b) ∧ c.store.requirement? id = none ∧
      c.linkRequirements a b relation = .error (.notFound (.requirement id)) := by
  rw [h.linkRequirements_eq]
  unfold Catalog.joinRequirements
  cases ha : c.store.requirement? a with
  | none => exact ⟨a, .inl rfl, ha, rfl⟩
  | some p =>
    have hb : c.store.requirement? b = none := hmissing.resolve_left fun hnone => by
      rw [ha] at hnone
      cases hnone
    exact ⟨b, .inr rfl, hb, by rw [hb]; rfl⟩

end Consistent

/-- What linking two requirements comes to at any point of a run. Where an end is not stored, nothing
is found and nothing changes. Otherwise a link between two different requirements is dropped, and
nothing changes, exactly if a path of other containments leads from the child back to the parent. A
link that is not dropped is found, updated in place or created; the two then list each other once, as
wanted, all other entries are as they were, and linking the two once more changes nothing. -/
theorem run_linkRequirements (serial itemsPerPage : Nat) (ops : List (Operation ι))
    (a b : StoredId) (relation : Relation) :
    let c := (fresh serial itemsPerPage).run ops
    ((c.store.requirement? a = none ∨ c.store.requirement? b = none) →
      c.after (.linkRequirements a b relation : Operation ι) = c ∧
        ∃ id, (id = a ∨ id = b) ∧ c.store.requirement? id = none ∧
          c.linkRequirements a b relation = .error (.notFound (.requirement id))) ∧
    ∀ p q, c.store.requirement? a = some p → c.store.requirement? b = some q → a ≠ b →
      ∃ outcome c', c.linkRequirements a b relation = .ok (outcome, c') ∧
        ((∃ cycle, outcome = .cycleDropped cycle) ↔ ClosesCycle c.store a b relation) ∧
        LinkEffect c (.requirement a) (.requirement b) relation outcome c' ∧
        ((∀ cycle, outcome ≠ .cycleDropped cycle) →
          (c'.store.linksOf (.requirement a)).filter (fun entry => entry.far = .requirement b) =
              [.mk relation (.ofRequirement q)] ∧
            (c'.store.linksOf (.requirement b)).filter (fun entry => entry.far = .requirement a) =
              [.mk relation.inverse (.ofRequirement p)] ∧
            c'.linkRequirements a b relation = .ok (.unchanged, c') ∧
            c'.linkRequirements b a relation.inverse = .ok (.unchanged, c')) := by
  intro c
  have h : c.Consistent := (consistent_fresh serial itemsPerPage).run ops
  refine ⟨fun hmissing => ?_, fun p q hp hq hne => ?_⟩
  · obtain ⟨id, hid, hnone, herror⟩ := h.linkRequirements_notFound hmissing relation
    have hperform : c.perform (.linkRequirements a b relation : Operation ι) =
        .error (.notFound (.requirement id)) := by
      rw [perform, herror]
      rfl
    exact ⟨h.after_of_error hperform, id, hid, hnone, herror⟩
  · have ha : .requirement a ∈ c.store.vertices :=
      Store.isSome_requirement?.1 (Option.isSome_of_eq_some hp)
    have hb : .requirement b ∈ c.store.vertices :=
      Store.isSome_requirement?.1 (Option.isSome_of_eq_some hq)
    obtain ⟨⟨source, target, oriented⟩, horient⟩ : ∃ o, orient a b relation = o := ⟨_, rfl⟩
    obtain ⟨same, hjoins⟩ := h.joins_oriented ha hb horient
    have heffect := hjoins.effect h.sound.linksOnce
    have h' := h.settle_consistent same (hjoins.ends ha hb) hjoins.no_part
    refine ⟨_, _, (h.linkRequirements_eq a b relation).trans hjoins.eq,
      h.dropped_iff ha hb horient hjoins, heffect, fun hkept => ?_⟩
    obtain ⟨l, hl, hseen⟩ := heffect.linked hkept
    refine h'.linked_twice hl hseen hne ?_ ?_
    · rw [Store.requirement?, heffect.requirements]
      exact hp
    · rw [Store.requirement?, heffect.requirements]
      exact hq

/-- Two requirements, the second one a part of the first one. -/
def parted : List (Operation Unit) :=
  [.putRequirement ⟨(), none, "Access", "", .empty⟩,
    .putRequirement ⟨(), none, "Login", "", .empty⟩,
    .linkRequirements (.ofSerial 1) (.ofSerial 0) .partOf]

/-- A containment is turned round in its place, and closes no cycle by that. -/
theorem run_linkRequirements_parted :
    let c := (fresh 0 20).run parted
    ∃ p q c', c.store.requirement? (.ofSerial 1) = some p ∧
      c.store.requirement? (.ofSerial 0) = some q ∧
      c.linkRequirements (.ofSerial 1) (.ofSerial 0) .contains = .ok (.updated, c') ∧
      ¬ ClosesCycle c.store (.ofSerial 1) (.ofSerial 0) .contains ∧
      LinkEffect c (.requirement (.ofSerial 1)) (.requirement (.ofSerial 0)) .contains .updated c' ∧
      (c'.store.linksOf (.requirement (.ofSerial 1))).filter
          (fun entry => entry.far = .requirement (.ofSerial 0)) =
        [.mk .contains (.ofRequirement q)] ∧
      (c'.store.linksOf (.requirement (.ofSerial 0))).filter
          (fun entry => entry.far = .requirement (.ofSerial 1)) =
        [.mk .partOf (.ofRequirement p)] ∧
      c'.linkRequirements (.ofSerial 1) (.ofSerial 0) .contains = .ok (.unchanged, c') ∧
      c'.linkRequirements (.ofSerial 0) (.ofSerial 1) .partOf = .ok (.unchanged, c') := by
  intro c
  obtain ⟨p, hp⟩ := Option.isSome_iff_exists.1
    (by decide +kernel : (c.store.requirement? (.ofSerial 1)).isSome = true)
  obtain ⟨q, hq⟩ := Option.isSome_iff_exists.1
    (by decide +kernel : (c.store.requirement? (.ofSerial 0)).isSome = true)
  obtain ⟨outcome, c', hlink, hdropped, heffect, hlinked⟩ :=
    (run_linkRequirements 0 20 parted (.ofSerial 1) (.ofSerial 0) .contains).2 p q hp hq (by decide)
  have houtcome : (c.linkRequirements (.ofSerial 1) (.ofSerial 0) .contains).toOption.map (·.1) =
      some .updated := by decide +kernel
  rw [hlink] at houtcome
  obtain rfl : outcome = .updated := Option.some.inj houtcome
  obtain ⟨hfirst, hsecond, hagain, hback⟩ := hlinked fun cycle hcycle => by cases hcycle
  refine ⟨p, q, c', hp, hq, hlink, fun hcloses => ?_, heffect, hfirst, hsecond, hagain, hback⟩
  obtain ⟨cycle, hcycle⟩ := hdropped.2 hcloses
  cases hcycle

end Crosswalk.Catalog
