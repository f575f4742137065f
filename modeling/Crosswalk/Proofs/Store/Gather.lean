import Crosswalk.Proofs.Entity.Gather
import Crosswalk.Proofs.Store.Copy
import Crosswalk.Proofs.Store.Put

/-!
# What a store has gathered

Entities that come into a store are told apart by their keys: requirements by their names, nodes by
kind, name and some attributes. A store has gathered a list of entities when it holds one entity for
each key in the list and that one has gathered all with the key. Putting one more entity that agrees
with those of its key never fails, and it is gathered as well. Two sound stores that have gathered
the same entities hold twins.
-/

namespace Crosswalk

variable {ι κ : Type}

/-! ### Keys -/

/-- What tells entities apart that come into a store. -/
inductive EntityKey where
  | requirement (name : String)
  | node (key : NodeKey)
deriving DecidableEq

def EntityKey.isRequirement : EntityKey → Bool
  | requirement _ => true
  | node _ => false

namespace Entity

/-- The key of an entity, its name trimmed. -/
def key : Entity ι → EntityKey
  | requirement r => .requirement (Text.trim r.name)
  | node n => .node (Store.incomingKey n)

/-- The entity has gathered all in the list that have its key. -/
def Gathers (es : List (Entity κ)) : Entity ι → Prop
  | requirement q => q.Gathers {r | requirement r ∈ es ∧ (requirement r).key = (requirement q).key}
  | node m => m.Gathers {n | node n ∈ es ∧ (node n).key = (node m).key}

theorem gathers_requirement {es : List (Entity κ)} {q : Requirement ι} :
    (requirement q).Gathers es ↔
      q.Gathers {r | requirement r ∈ es ∧ (requirement r).key = (requirement q).key} :=
  .rfl

theorem gathers_node {es : List (Entity κ)} {m : Node ι} :
    (node m).Gathers es ↔ m.Gathers {n | node n ∈ es ∧ (node n).key = (node m).key} :=
  .rfl

theorem gathers_perm {es es' : List (Entity κ)} (hperm : es.Perm es') {e : Entity ι} :
    e.Gathers es ↔ e.Gathers es' := by
  cases e with
  | requirement q => simp only [gathers_requirement, hperm.mem_iff]
  | node m => simp only [gathers_node, hperm.mem_iff]

theorem gathers_append {es : List (Entity κ)} {e : Entity ι} {x : Entity κ} (hne : x.key ≠ e.key) :
    e.Gathers (es ++ [x]) ↔ e.Gathers es := by
  have hiff : ∀ y : Entity κ, y ∈ es ++ [x] ∧ y.key = e.key ↔ y ∈ es ∧ y.key = e.key := by
    intro y
    rw [List.mem_append, List.mem_singleton]
    constructor
    · rintro ⟨hy | rfl, hkey⟩
      · exact ⟨hy, hkey⟩
      · exact absurd hkey hne
    · rintro ⟨hy, hkey⟩
      exact ⟨.inl hy, hkey⟩
  cases e with
  | requirement q => simp only [gathers_requirement, hiff]
  | node m => simp only [gathers_node, hiff]

/-- One more entity of a sort is one more among those with its key. -/
theorem sep_append {β : Type} {es : List (Entity κ)} {f : β → Entity κ}
    (hf : Function.Injective f) {b : β} {k : EntityKey} (hkey : (f b).key = k) :
    {a | f a ∈ es ++ [f b] ∧ (f a).key = k} = insert b {a | f a ∈ es ∧ (f a).key = k} := by
  ext a
  simp only [Set.mem_ofPred_eq, Set.mem_insert_iff, List.mem_append, List.mem_singleton, hf.eq_iff]
  constructor
  · rintro ⟨ha | ha, hk⟩
    · exact .inr ⟨ha, hk⟩
    · exact .inl ha
  · rintro (rfl | ⟨ha, hk⟩)
    · exact ⟨.inr rfl, hkey⟩
    · exact ⟨.inl ha, hk⟩

theorem gathers_append_requirement {es : List (Entity κ)} {q : Requirement ι} {r : Requirement κ}
    (hkey : (requirement q).key = (requirement r).key) :
    (requirement q).Gathers (es ++ [requirement r]) ↔
      q.Gathers (insert r
        {r' | requirement r' ∈ es ∧ (requirement r').key = (requirement r).key}) := by
  rw [← sep_append (fun _ _ => requirement.inj) rfl, ← hkey, gathers_requirement]

theorem gathers_append_node {es : List (Entity κ)} {m : Node ι} {n : Node κ}
    (hkey : (node m).key = (node n).key) :
    (node m).Gathers (es ++ [node n]) ↔
      m.Gathers (insert n {n' | node n' ∈ es ∧ (node n').key = (node n).key}) := by
  rw [← sep_append (fun _ _ => node.inj) rfl, ← hkey, gathers_node]

end Entity

/-! ### Stored entities -/

namespace Store

variable {s t : Store} {e e' : Entity StoredId} {es : List (Entity ι)}

theorem eq_of_vertex (he : s.Holds e) (he' : s.Holds e') (hv : e.vertex = e'.vertex) : e = e' := by
  rw [Holds, hv, he'] at he
  exact (Option.some.inj he).symm

namespace Sound

theorem mem_vertices (h : s.Sound) {v : Vertex} :
    v ∈ s.vertices ↔ ∃ e, s.Holds e ∧ e.vertex = v := by
  rw [← isSome_entity?, Option.isSome_iff_exists]
  constructor
  · rintro ⟨e, he⟩
    obtain rfl := h.vertex_of_entity? he
    exact ⟨e, he, rfl⟩
  · rintro ⟨e, he, rfl⟩
    exact ⟨e, he⟩

/-- The names of stored entities are trimmed already. -/
theorem key_requirement (h : s.Sound) {r : Requirement StoredId} (hr : r ∈ s.requirements) :
    (Entity.requirement r).key = .requirement r.name := by
  rw [Entity.key, (h.names_trimmed r.name (List.mem_map_of_mem hr)).1]

theorem key_node (h : s.Sound) {n : Node StoredId} (hn : n ∈ s.nodes) :
    (Entity.node n).key = .node n.key := by
  have htrim : Text.trim n.name = n.name := (h.keys_trimmed n.key (List.mem_map_of_mem hn)).1
  rw [Entity.key, incomingKey, htrim]
  rfl

theorem key_ne_requirement (h : s.Sound) {r : Requirement ι}
    (hnew : ∀ o ∈ s.requirements, o.name ≠ Text.trim r.name) (he : s.Holds e) :
    e.key ≠ (Entity.requirement r).key := by
  cases e with
  | requirement q =>
    rw [h.holds_requirement] at he
    rw [h.key_requirement he]
    exact fun hkey => hnew q he (EntityKey.requirement.inj hkey)
  | node n => exact EntityKey.noConfusion

theorem key_ne_node (h : s.Sound) {n : Node ι} (hnew : ∀ o ∈ s.nodes, o.key ≠ incomingKey n)
    (he : s.Holds e) : e.key ≠ (Entity.node n).key := by
  cases e with
  | requirement q => exact EntityKey.noConfusion
  | node m =>
    rw [h.holds_node] at he
    rw [h.key_node he]
    exact fun hkey => hnew m he (EntityKey.node.inj hkey)

theorem eq_of_key (h : s.Sound) (he : s.Holds e) (he' : s.Holds e') (hkey : e.key = e'.key) :
    e = e' := by
  cases e <;> cases e'
  case requirement.requirement =>
    rw [h.holds_requirement] at he he'
    rw [h.key_requirement he, h.key_requirement he'] at hkey
    exact congrArg _ (Keyed.eq_of_key h.names_nodup he he' (EntityKey.requirement.inj hkey))
  case node.node =>
    rw [h.holds_node] at he he'
    rw [h.key_node he, h.key_node he'] at hkey
    exact congrArg _ (Keyed.eq_of_key h.keys_nodup he he' (EntityKey.node.inj hkey))
  all_goals cases hkey

/-! ### What a put does to the stored entities -/

theorem holds_replaceRequirement (h : s.Sound) {old filled : Requirement StoredId}
    (hold : old ∈ s.requirements) (hid : filled.id = old.id) (hname : filled.name = old.name) :
    (s.replaceRequirement filled).Holds e ↔
      e = .requirement filled ∨ (s.Holds e ∧ e.vertex ≠ .requirement filled.id) := by
  have hsound := (h.replaceRequirement hold hid hname).1
  cases e with
  | requirement q =>
    rw [hsound.holds_requirement, h.holds_requirement, Entity.vertex, Entity.requirement.injEq,
      ne_eq, Vertex.requirement.injEq]
    exact Keyed.mem_replace.trans (or_congr_left (and_iff_left ⟨old, hold, hid.symm⟩))
  | node n =>
    rw [hsound.holds_node, h.holds_node]
    simp [Entity.vertex, Store.replaceRequirement]

theorem holds_withRequirement (h : s.Sound) {r : Requirement ι} (hname : Text.trim r.name ≠ "")
    (hnew : ∀ o ∈ s.requirements, o.name ≠ Text.trim r.name) :
    (s.withRequirement r).Holds e ↔ s.Holds e ∨ e = .requirement (s.freshRequirement r) := by
  have hsound := (h.withRequirement hname hnew).1
  cases e with
  | requirement q =>
    rw [hsound.holds_requirement, h.holds_requirement, Entity.requirement.injEq]
    exact List.mem_append.trans (or_congr_right List.mem_singleton)
  | node n =>
    rw [hsound.holds_node, h.holds_node]
    simp [Store.withRequirement]

theorem holds_replaceNode (h : s.Sound) {old filled : Node StoredId} (hold : old ∈ s.nodes)
    (hid : filled.id = old.id) (hkey : filled.key = old.key) :
    (s.replaceNode filled).Holds e ↔
      e = .node filled ∨ (s.Holds e ∧ e.vertex ≠ .node filled.id) := by
  have hsound := (h.replaceNode hold hid hkey).1
  cases e with
  | requirement q =>
    rw [hsound.holds_requirement, h.holds_requirement]
    simp [Entity.vertex, Store.replaceNode]
  | node m =>
    rw [hsound.holds_node, h.holds_node, Entity.vertex, Entity.node.injEq, ne_eq, Vertex.node.injEq]
    exact Keyed.mem_replace.trans (or_congr_left (and_iff_left ⟨old, hold, hid.symm⟩))

theorem holds_withNode (h : s.Sound) {n : Node ι} (hname : Text.trim n.name ≠ "")
    (hnew : ∀ o ∈ s.nodes, o.key ≠ incomingKey n) :
    (s.withNode n).Holds e ↔ s.Holds e ∨ e = .node (s.freshNode n) := by
  have hsound := (h.withNode hname hnew).1
  cases e with
  | requirement q =>
    rw [hsound.holds_requirement, h.holds_requirement]
    simp [Store.withNode]
  | node m =>
    rw [hsound.holds_node, h.holds_node, Entity.node.injEq]
    exact List.mem_append.trans (or_congr_right List.mem_singleton)

end Sound

/-! ### Gathering -/

/-- The store holds one entity for each key in the list, and it has gathered all with the key. -/
structure Gathers (s : Store) (es : List (Entity ι)) : Prop where
  gathered : ∀ e, s.Holds e → e.Gathers es
  source : ∀ e, s.Holds e → ∃ x ∈ es, x.key = e.key
  stored : ∀ x ∈ es, ∃ e, s.Holds e ∧ e.key = x.key

namespace Gathers

theorem startingAt (serial : Nat) : (Store.startingAt serial).Gathers ([] : List (Entity ι)) := by
  have hnone : ∀ e, ¬ (Store.startingAt serial).Holds e := by
    intro e he
    cases e <;> cases he
  exact ⟨fun e he => absurd he (hnone e), fun e he => absurd he (hnone e),
    fun x hx => absurd hx List.not_mem_nil⟩

/-- One more entity is gathered when the one with its key has gathered it and the others stay. -/
theorem append (h : s.Gathers es) {x : Entity ι} (he : t.Holds e) (hkey : e.key = x.key)
    (hgathered : e.Gathers (es ++ [x]))
    (hothers : ∀ y, y ≠ e → (t.Holds y ↔ s.Holds y ∧ y.key ≠ x.key)) :
    t.Gathers (es ++ [x]) where
  gathered := by
    intro y hy
    by_cases hye : y = e
    · exact hye ▸ hgathered
    · obtain ⟨hs, hne⟩ := (hothers y hye).1 hy
      exact (Entity.gathers_append hne.symm).2 (h.gathered y hs)
  source := by
    intro y hy
    by_cases hye : y = e
    · exact ⟨x, by simp, hye ▸ hkey.symm⟩
    · obtain ⟨z, hz, hzy⟩ := h.source y ((hothers y hye).1 hy).1
      exact ⟨z, List.mem_append_left _ hz, hzy⟩
  stored := by
    intro y hy
    by_cases hyx : y.key = x.key
    · exact ⟨e, he, hkey.trans hyx.symm⟩
    · rcases List.mem_append.1 hy with hy | hy
      · obtain ⟨e', he', hkey'⟩ := h.stored y hy
        have hne : e'.key ≠ x.key := hkey' ▸ hyx
        exact ⟨e', (hothers e' fun heq => hne (heq ▸ hkey)).2 ⟨he', hne⟩, hkey'⟩
      · exact absurd (congrArg Entity.key (List.mem_singleton.1 hy)) hyx

theorem key_ne (h : s.Gathers es) {k : EntityKey} (hnew : ∀ e, s.Holds e → e.key ≠ k) {x : Entity ι}
    (hx : x ∈ es) : x.key ≠ k := by
  obtain ⟨e, he, hkey⟩ := h.stored x hx
  exact hkey ▸ hnew e he

theorem congr (h : s.Gathers es) (hrequirements : t.requirements = s.requirements)
    (hnodes : t.nodes = s.nodes) : t.Gathers es := by
  have hholds : ∀ e, t.Holds e ↔ s.Holds e := by
    intro e
    unfold Holds entity? requirement? node?
    rw [hrequirements, hnodes]
  exact {
    gathered := fun e he => h.gathered e ((hholds e).1 he)
    source := fun e he => h.source e ((hholds e).1 he)
    stored := by
      intro x hx
      obtain ⟨e, he, hkey⟩ := h.stored x hx
      exact ⟨e, (hholds e).2 he, hkey⟩ }

theorem perm {es' : List (Entity ι)} (h : s.Gathers es) (hperm : es.Perm es') : s.Gathers es' where
  gathered := fun e he => (Entity.gathers_perm hperm).1 (h.gathered e he)
  source := by
    intro e he
    obtain ⟨x, hx, hkey⟩ := h.source e he
    exact ⟨x, hperm.mem_iff.1 hx, hkey⟩
  stored := fun x hx => h.stored x (hperm.mem_iff.2 hx)

/-- An entity that is filled in gathers one more in its place. -/
theorem replace (hs : s.Sound) (h : s.Gathers es) {x : Entity ι} (he : s.Holds e)
    (hkey : e.key = x.key) (hvertex : e'.vertex = e.vertex) (hkey' : e'.key = x.key)
    (hgathered : e'.Gathers (es ++ [x]))
    (hholds : ∀ y, t.Holds y ↔ y = e' ∨ (s.Holds y ∧ y.vertex ≠ e'.vertex)) :
    t.Gathers (es ++ [x]) := by
  refine h.append ((hholds e').2 (.inl rfl)) hkey' hgathered fun y hy => ?_
  rw [hholds, or_iff_right hy, hvertex]
  refine and_congr_right fun hheld => not_congr ⟨fun hyv => ?_, fun hyk => ?_⟩
  · rw [eq_of_vertex hheld he hyv, hkey]
  · rw [hs.eq_of_key hheld he (hyk.trans hkey.symm)]

/-- An entity with a new key comes in beside the others. -/
theorem add (h : s.Gathers es) {x : Entity ι} (hnew : ∀ y, s.Holds y → y.key ≠ x.key)
    (hkey : e.key = x.key) (hgathered : e.Gathers (es ++ [x]))
    (hholds : ∀ y, t.Holds y ↔ s.Holds y ∨ y = e) : t.Gathers (es ++ [x]) := by
  refine h.append ((hholds e).2 (.inr rfl)) hkey hgathered fun y hy => ?_
  rw [hholds, or_iff_left hy]
  exact (and_iff_left_of_imp (hnew y)).symm

/-! ### Putting requirements -/

theorem replaceRequirement (hs : s.Sound) (h : s.Gathers es) {r : Requirement ι}
    {old filled : Requirement StoredId} (hold : old ∈ s.requirements)
    (hkey : (Entity.requirement old).key = (Entity.requirement r).key)
    (hid : filled.id = old.id) (hname : filled.name = old.name)
    (hfilled : filled.Gathers (insert r
      {r' | .requirement r' ∈ es ∧ (Entity.requirement r').key = (Entity.requirement r).key})) :
    (s.replaceRequirement filled).Gathers (es ++ [.requirement r]) := by
  have hfilledKey : (Entity.requirement filled).key = (Entity.requirement r).key := by
    rw [← hkey, Entity.key, hname]
    rfl
  have hvertex : (Entity.requirement filled).vertex = (Entity.requirement old).vertex :=
    congrArg Vertex.requirement hid
  exact h.replace hs (hs.holds_requirement.2 hold) hkey hvertex hfilledKey
    ((Entity.gathers_append_requirement hfilledKey).2 hfilled)
    fun y => hs.holds_replaceRequirement hold hid hname

theorem withRequirement (hs : s.Sound) (h : s.Gathers es) {r : Requirement ι}
    (hname : Text.trim r.name ≠ "") (hnew : ∀ o ∈ s.requirements, o.name ≠ Text.trim r.name) :
    (s.withRequirement r).Gathers (es ++ [.requirement r]) := by
  have hkey : (Entity.requirement (s.freshRequirement r)).key = (Entity.requirement r).key :=
    congrArg _ (Text.trim_trim r.name)
  have hunmet : ∀ y, s.Holds y → y.key ≠ (Entity.requirement r).key := fun y hy =>
    hs.key_ne_requirement hnew hy
  have hnone : {r' | .requirement r' ∈ es ∧
      (Entity.requirement r').key = (Entity.requirement r).key} = ∅ :=
    Set.eq_empty_of_forall_notMem fun r' hr' => h.key_ne hunmet hr'.1 hr'.2
  refine h.add hunmet hkey ?_ fun y => hs.holds_withRequirement hname hnew
  rw [Entity.gathers_append_requirement hkey, hnone, insert_empty_eq]
  exact Requirement.gathers_singleton rfl rfl rfl

/-- A requirement with a name that agrees with those of its key is put and gathered. -/
theorem putRequirement (hs : s.Sound) (h : s.Gathers es) {r : Requirement ι}
    (hname : Text.trim r.name ≠ "")
    (hagree : ∀ x ∈ es, x.key = (Entity.requirement r).key → x.Agrees (.requirement r)) :
    ∃ q t, s.putRequirement r = .ok (q, t) ∧ t.Gathers (es ++ [.requirement r]) ∧
      q ∈ t.requirements ∧ q.name = Text.trim r.name ∧ t.links = s.links := by
  by_cases hex : ∃ old ∈ s.requirements, old.name = Text.trim r.name
  · obtain ⟨old, hold, holdName⟩ := hex
    have hkey : (Entity.requirement old).key = (Entity.requirement r).key := by
      rw [hs.key_requirement hold, holdName]
      rfl
    have hgathered : (Entity.requirement old).Gathers es :=
      h.gathered _ (hs.holds_requirement.2 hold)
    rw [Entity.gathers_requirement, hkey] at hgathered
    obtain ⟨filled, changed, hfill, hfilled⟩ :=
      hgathered.enrich fun r' hr' => hagree _ hr'.1 hr'.2
    have hid := Requirement.enrich_id hfill
    have hfilledName := Requirement.enrich_name hfill
    refine ⟨filled, s.replaceRequirement filled, ?_,
      h.replaceRequirement hs hold hkey hid hfilledName hfilled,
      Keyed.mem_replace.2 (.inl ⟨rfl, old, hold, hid.symm⟩), hfilledName.trans holdName, rfl⟩
    rw [putRequirement_known hs hold holdName, hfill]
  · have hnew : ∀ o ∈ s.requirements, o.name ≠ Text.trim r.name := fun o ho heq => hex ⟨o, ho, heq⟩
    exact ⟨_, _, putRequirement_new hs hname hnew, h.withRequirement hs hname hnew,
      List.mem_append_right _ (List.mem_singleton_self _), rfl, rfl⟩

/-! ### Putting nodes -/

theorem replaceNode (hs : s.Sound) (h : s.Gathers es) {n : Node ι} {old filled : Node StoredId}
    (hold : old ∈ s.nodes) (hkey : (Entity.node old).key = (Entity.node n).key)
    (hid : filled.id = old.id) (hsame : filled.key = old.key)
    (hfilled : filled.Gathers (insert n
      {n' | .node n' ∈ es ∧ (Entity.node n').key = (Entity.node n).key})) :
    (s.replaceNode filled).Gathers (es ++ [.node n]) := by
  have hname : filled.name = old.name := congrArg NodeKey.name hsame
  have hfilledKey : (Entity.node filled).key = (Entity.node n).key := by
    rw [← hkey, Entity.key, incomingKey, hsame, hname]
    rfl
  have hvertex : (Entity.node filled).vertex = (Entity.node old).vertex := congrArg Vertex.node hid
  exact h.replace hs (hs.holds_node.2 hold) hkey hvertex hfilledKey
    ((Entity.gathers_append_node hfilledKey).2 hfilled)
    fun y => hs.holds_replaceNode hold hid hsame

theorem withNode (hs : s.Sound) (h : s.Gathers es) {n : Node ι} (hname : Text.trim n.name ≠ "")
    (hnew : ∀ o ∈ s.nodes, o.key ≠ incomingKey n) :
    (s.withNode n).Gathers (es ++ [.node n]) := by
  have hkey : (Entity.node (s.freshNode n)).key = (Entity.node n).key := by
    rw [Entity.key, incomingKey, freshNode_key, freshNode, Text.trim_trim]
    rfl
  have hunmet : ∀ y, s.Holds y → y.key ≠ (Entity.node n).key := fun y hy =>
    hs.key_ne_node hnew hy
  have hnone : {n' | .node n' ∈ es ∧ (Entity.node n').key = (Entity.node n).key} = ∅ :=
    Set.eq_empty_of_forall_notMem fun n' hn' => h.key_ne hunmet hn'.1 hn'.2
  refine h.add hunmet hkey ?_ fun y => hs.holds_withNode hname hnew
  rw [Entity.gathers_append_node hkey, hnone, insert_empty_eq]
  exact Node.gathers_singleton rfl rfl rfl

/-- A node with a name that agrees with those of its key is put and gathered. -/
theorem putNode (hs : s.Sound) (h : s.Gathers es) {n : Node ι} (hname : Text.trim n.name ≠ "")
    (hagree : ∀ x ∈ es, x.key = (Entity.node n).key → x.Agrees (.node n)) :
    ∃ m t, s.putNode n = .ok (m, t) ∧ t.Gathers (es ++ [.node n]) ∧
      m ∈ t.nodes ∧ m.key = incomingKey n ∧ t.links = s.links := by
  by_cases hex : ∃ old ∈ s.nodes, old.key = incomingKey n
  · obtain ⟨old, hold, holdKey⟩ := hex
    have hkey : (Entity.node old).key = (Entity.node n).key := by
      rw [hs.key_node hold, holdKey]
      rfl
    have hkind : old.kind = n.kind := congrArg NodeKey.kind holdKey
    have hgathered : (Entity.node old).Gathers es := h.gathered _ (hs.holds_node.2 hold)
    rw [Entity.gathers_node, hkey] at hgathered
    obtain ⟨filled, changed, hfill, hfilled⟩ :=
      hgathered.enrich hkind fun n' hn' => hagree _ hn'.1 hn'.2
    have hid := Node.enrich_id hfill
    have hfilledKey := Node.enrich_key hfill
    refine ⟨filled, s.replaceNode filled, ?_,
      h.replaceNode hs hold hkey hid hfilledKey hfilled,
      Keyed.mem_replace.2 (.inl ⟨rfl, old, hold, hid.symm⟩), hfilledKey.trans holdKey, rfl⟩
    rw [putNode_known hs hold holdKey, hfill]
  · have hnew : ∀ o ∈ s.nodes, o.key ≠ incomingKey n := fun o ho heq => hex ⟨o, ho, heq⟩
    exact ⟨_, _, putNode_new hs hname hnew, h.withNode hs hname hnew,
      List.mem_append_right _ (List.mem_singleton_self _), freshNode_key s n, rfl⟩

end Gathers

/-! ### Twins -/

/-- The vertex stands for an entity with the key. -/
def KeyAt (s : Store) (v : Vertex) (k : EntityKey) : Prop :=
  ∃ e, s.Holds e ∧ e.vertex = v ∧ e.key = k

namespace KeyAt

variable {v v' w : Vertex} {k k' : EntityKey}

theorem mem_vertices (hs : s.Sound) (h : s.KeyAt v k) : v ∈ s.vertices := by
  obtain ⟨e, he, hv, -⟩ := h
  exact hs.mem_vertices.2 ⟨e, he, hv⟩

theorem isRequirement (h : s.KeyAt v k) : v.isRequirement = k.isRequirement := by
  obtain ⟨e, -, rfl, rfl⟩ := h
  cases e <;> rfl

theorem eq_requirement {id : StoredId} (h : s.KeyAt (.requirement id) k) :
    ∃ name, k = .requirement name := by
  obtain ⟨e, -, hv, rfl⟩ := h
  cases e with
  | requirement r => exact ⟨_, rfl⟩
  | node n => cases hv

theorem eq_iff (hs : s.Sound) (h : s.KeyAt v k) (h' : s.KeyAt v' k') : v = v' ↔ k = k' := by
  obtain ⟨e, he, rfl, rfl⟩ := h
  obtain ⟨e', he', rfl, rfl⟩ := h'
  constructor
  · intro hv
    rw [eq_of_vertex he he' hv]
  · intro hk
    rw [hs.eq_of_key he he' hk]

end KeyAt

namespace Gathers

/-- What two stores have gathered under one key differs in the identity alone. -/
theorem eq_withId (hs : s.Sound) (ht : t.Sound) (h : s.Gathers es) (h' : t.Gathers es)
    (he : s.Holds e) (he' : t.Holds e') (hkey : e'.key = e.key) : e' = e.withId e'.id := by
  have hgathered := h.gathered e he
  have hgathered' := h'.gathered e' he'
  cases e with
  | requirement q =>
    cases e' with
    | node m => cases hkey
    | requirement q' =>
      rw [Entity.gathers_requirement] at hgathered hgathered'
      rw [hkey] at hgathered'
      rw [hs.holds_requirement] at he
      rw [ht.holds_requirement] at he'
      rw [hs.key_requirement he, ht.key_requirement he'] at hkey
      exact congrArg _ (hgathered.unique hgathered' (EntityKey.requirement.inj hkey))
  | node m =>
    cases e' with
    | requirement q => cases hkey
    | node m' =>
      rw [Entity.gathers_node] at hgathered hgathered'
      rw [hkey] at hgathered'
      rw [hs.holds_node] at he
      rw [ht.holds_node] at he'
      rw [hs.key_node he, ht.key_node he'] at hkey
      exact congrArg _ (hgathered.unique hgathered' (EntityKey.node.inj hkey))

theorem twin (hs : s.Sound) (ht : t.Sound) (h : s.Gathers es) (h' : t.Gathers es) {v w : Vertex}
    {k : EntityKey} (hv : s.KeyAt v k) (hw : t.KeyAt w k) : s.Twin t v w := by
  obtain ⟨e, he, rfl, rfl⟩ := hv
  obtain ⟨e', he', rfl, hkey⟩ := hw
  have heq := h.eq_withId hs ht h' he he' hkey
  cases e with
  | requirement q =>
    cases e' with
    | node m => cases hkey
    | requirement q' =>
      rw [hs.holds_requirement] at he
      rw [ht.holds_requirement] at he'
      exact ⟨q, he, rfl, Entity.requirement.inj heq ▸ he'⟩
  | node m =>
    cases e' with
    | requirement q => cases hkey
    | node m' =>
      rw [hs.holds_node] at he
      rw [ht.holds_node] at he'
      exact ⟨m, he, rfl, Entity.node.inj heq ▸ he'⟩

theorem exists_keyAt (h : s.Gathers es) (h' : t.Gathers es) {v : Vertex} {k : EntityKey}
    (hv : s.KeyAt v k) : ∃ w, t.KeyAt w k := by
  obtain ⟨e, he, -, rfl⟩ := hv
  obtain ⟨x, hx, hkey⟩ := h.source e he
  obtain ⟨e', he', hkey'⟩ := h'.stored x hx
  exact ⟨e'.vertex, e', he', rfl, hkey'.trans hkey⟩

theorem exists_withId (hs : s.Sound) (ht : t.Sound) (h : s.Gathers es) (h' : t.Gathers es)
    (he' : t.Holds e') : ∃ e, s.Holds e ∧ e' = e.withId e'.id := by
  obtain ⟨_, e, he, -, hkey⟩ := h'.exists_keyAt h ⟨e', he', rfl, rfl⟩
  exact ⟨e, he, h.eq_withId hs ht h' he he' hkey.symm⟩

end Gathers

end Store

end Crosswalk
