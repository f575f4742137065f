import Crosswalk.Catalog.Lookup
import Crosswalk.Proofs.Catalog.Run
import Crosswalk.Proofs.Index.Connected
import Crosswalk.Proofs.Store.View

/-!
# Gap analysis

Which nodes a gap analysis attaches to a node is read off the labels of the graph, while names and
order come from the store. Since the graph mirrors the store, the nodes that are attached are those
to which stored links lead, through whatever requirements and nodes and in whatever direction. This
makes the analysis symmetric: what is attached to a node has that node attached to it when the names
are exchanged.
-/

namespace Crosswalk

namespace Store

variable {s : Store}

/-- A stored link joins two entities. -/
def Joined (s : Store) (v w : Vertex) : Prop :=
  ∃ relation, (w, relation) ∈ s.seen v

theorem accepts_name {name : String} (hname : name ≠ "") (n : Node StoredId) :
    NodeFilter.accepts { name := some name } n = true ↔ n.name = name := by
  simp [NodeFilter.accepts, answers, hname, eq_comm]

/-- The nodes with a name, in the order in which they are listed. -/
def named (s : Store) (name : String) : List (Node StoredId) :=
  sortNodes (s.nodes.filter (NodeFilter.accepts { name := some name }))

theorem getNodes_name {name : String} (hname : name ≠ "") :
    s.getNodes { name := some name } = .ok (s.named name) := by
  unfold getNodes
  rw [if_neg]
  · rfl
  · simp [NodeFilter.isEmpty, NodeFilter.hasOnlyKind, isSet, hname]

theorem mem_named {name : String} (hname : name ≠ "") {n : Node StoredId} :
    n ∈ s.named name ↔ n ∈ s.nodes ∧ n.name = name := by
  rw [named, sortNodes, Text.mem_sortOn, List.mem_filter, accepts_name hname]

theorem Sound.named_nodup (h : s.Sound) (name : String) : (s.named name).Nodup := by
  rw [named, sortNodes, (Text.sortOn_perm _ _).nodup_iff]
  exact (List.Nodup.of_map _ h.nodeIds_nodup).filter _

/-- The links of a node lead to requirements. -/
theorem ofNode_not_mem_linksOf (id : StoredId) (relation : Relation) (n : Node StoredId) :
    .mk relation (.ofNode n) ∉ s.linksOf (.node id) := by
  intro hmem
  obtain ⟨peer, -, hpeer⟩ := List.mem_map.1 hmem
  cases hpeer

end Store

namespace Catalog

variable {ι : Type} {c : Catalog} {s t : String} {x y : Node StoredId}

namespace Consistent

theorem grounded (h : c.Consistent) : c.index.Grounded :=
  h.mirrors.grounded h.sound.vertices_nodup h.sound.ends

/-- The edges of the graph join what the stored links join. -/
theorem linked_eq (h : c.Consistent) : c.index.Linked = c.store.Joined := by
  funext v w
  refine propext ?_
  unfold Index.Linked Store.Joined
  simp only [Store.mem_seen, StoredLink.mem_seenFrom, h.mirrors.edges.mem_iff, List.mem_map]
  constructor
  · rintro ⟨_, ⟨l, hl, rfl⟩, ⟨hs, ht⟩ | ⟨hs, ht⟩⟩
    · exact ⟨l.relation, l, hl, .inl ⟨hs, ht, rfl⟩⟩
    · exact ⟨l.relation.inverse, l, hl, .inr ⟨ht, hs, rfl⟩⟩
  · rintro ⟨relation, l, hl, ⟨hs, ht, -⟩ | ⟨ht, hs, -⟩⟩
    · exact ⟨l.edge, ⟨l, hl, rfl⟩, .inl ⟨hs, ht⟩⟩
    · exact ⟨l.edge, ⟨l, hl, rfl⟩, .inr ⟨hs, ht⟩⟩

theorem hasPath_iff (h : c.Consistent) {v w : Vertex} : c.index.hasPath v w = true ↔
    v ∈ c.store.vertices ∧ w ∈ c.store.vertices ∧ Relation.ReflTransGen c.store.Joined v w := by
  rw [Index.hasPath_iff, h.linked_eq, h.mirrors.vertices.mem_iff, h.mirrors.vertices.mem_iff]

theorem hasPath_comm (h : c.Consistent) (v w : Vertex) :
    c.index.hasPath v w = true ↔ c.index.hasPath w v = true := by
  rw [← h.grounded.sameLabel_iff, ← h.grounded.sameLabel_iff]
  exact ⟨.symm, .symm⟩

end Consistent

/-! ### Attached nodes -/

/-- The nodes that an analysis attaches to a node: all it has a path to but the node itself. -/
def attachedTo (c : Catalog) (targets : List (Node StoredId)) (n : Node StoredId) :
    List (Node StoredId) :=
  targets.filter fun m => m.id ≠ n.id && c.index.hasPath (.node n.id) (.node m.id)

/-- An analysis attaches the second node to the first one. -/
def Attached (gaps : List (Document StoredId)) (x y : Node StoredId) : Prop :=
  ∃ d ∈ gaps, d.entity = .node x ∧ .mk .linkedTo (.ofNode y) ∈ d.links

theorem Consistent.gapAnalysis_eq (h : c.Consistent) (hs : s ≠ "") (ht : t ≠ "") :
    c.gapAnalysis s t = (c.store.named s).map fun n =>
      .mk (.node n) ((c.store.hydrate (.node n)).links ++
        (c.attachedTo (c.store.named t) n).map fun m => .mk .linkedTo (.ofNode m)) := by
  rw [gapAnalysis, if_neg (not_or.2 ⟨hs, ht⟩)]
  refine List.map_congr_left fun n _ => ?_
  -- a target without a label is left out at once; it has no path to anything
  have hlabels : ∀ m : Node StoredId,
      ((c.index.componentLabels.lookup (.node m.id) = c.index.componentLabels.lookup (.node n.id) &&
          m.id ≠ n.id) && (c.index.componentLabels.lookup (.node m.id)).isSome) =
        (m.id ≠ n.id && c.index.hasPath (.node n.id) (.node m.id)) := by
    intro m
    rw [Bool.eq_iff_iff, Bool.and_eq_true, Bool.and_eq_true, Bool.and_eq_true,
      ← h.grounded.sameLabel_iff, decide_eq_true_eq, decide_eq_true_eq, Option.isSome_iff_exists]
    constructor
    · rintro ⟨⟨hsame, hne⟩, k, hk⟩
      exact ⟨hne, k, hsame ▸ hk, hk⟩
    · rintro ⟨hne, k, hn, hm⟩
      exact ⟨⟨hm.trans hn.symm, hne⟩, k, hm⟩
  rw [List.filter_filter, List.filter_congr fun m _ => hlabels m]
  rfl

/-- Attached to each other are different nodes with the two names between which there is a path. -/
theorem Consistent.attached_iff (h : c.Consistent) (hs : s ≠ "") (ht : t ≠ "") :
    Attached (c.gapAnalysis s t) x y ↔
      (x ∈ c.store.nodes ∧ x.name = s) ∧ (y ∈ c.store.nodes ∧ y.name = t) ∧ x ≠ y ∧
        c.index.hasPath (.node x.id) (.node y.id) = true := by
  have hid : x ∈ c.store.nodes → y ∈ c.store.nodes → (y.id ≠ x.id ↔ x ≠ y) := fun hx hy =>
    not_congr ⟨fun heq => (Keyed.eq_of_key h.sound.nodeIds_nodup hy hx heq).symm,
      fun heq => heq ▸ rfl⟩
  have hpeer : ∀ m : Node StoredId,
      Link.mk .linkedTo (Document.ofNode m) = .mk .linkedTo (.ofNode y) ↔ m = y := by
    intro m
    simp only [Document.ofNode, Document.ofEntity, Link.mk.injEq, Document.mk.injEq,
      Entity.node.injEq, and_true, true_and]
  rw [h.gapAnalysis_eq hs ht]
  constructor
  · rintro ⟨d, hd, hentity, hlink⟩
    obtain ⟨n, hn, rfl⟩ := List.mem_map.1 hd
    obtain rfl := Entity.node.inj hentity
    rcases List.mem_append.1 hlink with hlink | hlink
    · exact absurd hlink (Store.ofNode_not_mem_linksOf _ _ _)
    · obtain ⟨m, hm, heq⟩ := List.mem_map.1 hlink
      obtain rfl := (hpeer m).1 heq
      obtain ⟨hm, hreached⟩ := List.mem_filter.1 hm
      rw [Bool.and_eq_true, decide_eq_true_eq] at hreached
      have hn := (Store.mem_named hs).1 hn
      have hm := (Store.mem_named ht).1 hm
      exact ⟨hn, hm, (hid hn.1 hm.1).1 hreached.1, hreached.2⟩
  · rintro ⟨hx, hy, hne, hpath⟩
    refine ⟨_, List.mem_map_of_mem ((Store.mem_named hs).2 hx), rfl, List.mem_append_right _ ?_⟩
    refine List.mem_map.2 ⟨y, List.mem_filter.2 ⟨(Store.mem_named ht).2 hy, ?_⟩, rfl⟩
    rw [Bool.and_eq_true, decide_eq_true_eq]
    exact ⟨(hid hx.1 hy.1).2 hne, hpath⟩

/-- After any run an analysis lists the nodes with the first name as a look-up does, each with the
links it has and, after these, a cross reference to every other node with the second name to which
there is a path, again as a look-up lists them. There is a path where stored links lead, in whatever
direction. Exchanging the names exchanges what is attached to what. -/
theorem run_gapAnalysis (serial itemsPerPage : Nat) (ops : List (Operation ι)) (hs : s ≠ "")
    (ht : t ≠ "") :
    let c := (fresh serial itemsPerPage).run ops
    (∃ sources targets, c.store.getNodes { name := some s } = .ok sources ∧
      c.store.getNodes { name := some t } = .ok targets ∧
      (sources.Nodup ∧ ∀ n, n ∈ sources ↔ n ∈ c.store.nodes ∧ n.name = s) ∧
      (targets.Nodup ∧ ∀ n, n ∈ targets ↔ n ∈ c.store.nodes ∧ n.name = t) ∧
      c.gapAnalysis s t = sources.map fun n =>
        .mk (.node n) ((c.store.hydrate (.node n)).links ++
          (c.attachedTo targets n).map fun m => .mk .linkedTo (.ofNode m))) ∧
    (∀ v w, c.index.hasPath v w = true ↔
      v ∈ c.store.vertices ∧ w ∈ c.store.vertices ∧ Relation.ReflTransGen c.store.Joined v w) ∧
    ∀ x ∈ c.store.nodes, x.name = s → ∀ y ∈ c.store.nodes, y.name = t → x ≠ y →
      (Attached (c.gapAnalysis s t) x y ↔ c.index.hasPath (.node x.id) (.node y.id) = true) ∧
      (Attached (c.gapAnalysis s t) x y ↔ Attached (c.gapAnalysis t s) y x) := by
  intro c
  have h : c.Consistent := (consistent_fresh serial itemsPerPage).run ops
  refine ⟨⟨_, _, Store.getNodes_name hs, Store.getNodes_name ht,
    ⟨h.sound.named_nodup s, fun n => Store.mem_named hs⟩,
    ⟨h.sound.named_nodup t, fun n => Store.mem_named ht⟩, h.gapAnalysis_eq hs ht⟩,
    fun v w => h.hasPath_iff, fun x hx hxs y hy hyt hne => ⟨?_, ?_⟩⟩
  · rw [h.attached_iff hs ht]
    exact ⟨fun hattached => hattached.2.2.2, fun hpath => ⟨⟨hx, hxs⟩, ⟨hy, hyt⟩, hne, hpath⟩⟩
  · rw [h.attached_iff hs ht, h.attached_iff ht hs, h.hasPath_comm, ne_comm]
    exact and_left_comm

/-- Two requirements, one above the other, with a node of its own each, and a node apart. -/
def spanning : List (Operation Unit) :=
  [.putRequirement ⟨(), none, "Access", "", .empty⟩,
    .putRequirement ⟨(), none, "Login", "", .empty⟩,
    .linkRequirements (.ofSerial 1) (.ofSerial 0) .partOf,
    .putNode ⟨(), "First", "", .empty, .standard "1" "" "" ""⟩,
    .putNode ⟨(), "Second", "", .empty, .standard "2" "" "" ""⟩,
    .putNode ⟨(), "Second", "", .empty, .standard "3" "" "" ""⟩,
    .linkNode (.ofSerial 0) (.ofSerial 3) .linkedTo,
    .linkNode (.ofSerial 1) (.ofSerial 4) .linkedTo]

/-- The node below is attached across the hierarchy, in both directions; the node apart is not. -/
theorem run_gapAnalysis_spanning :
    let c := (fresh 0 20).run spanning
    ∃ x y z, c.store.node? (.ofSerial 3) = some x ∧ c.store.node? (.ofSerial 4) = some y ∧
      c.store.node? (.ofSerial 5) = some z ∧
      Attached (c.gapAnalysis "First" "Second") x y ∧
      Attached (c.gapAnalysis "Second" "First") y x ∧
      ¬ Attached (c.gapAnalysis "First" "Second") x z := by
  intro c
  have h : c.Consistent := (consistent_fresh 0 20).run spanning
  have hattached := (run_gapAnalysis 0 20 spanning (by decide : "First" ≠ "")
    (by decide : "Second" ≠ "")).2.2
  have hfound : ∀ id name, (c.store.node? id).map (·.name) = some name →
      ∃ n, c.store.node? id = some n ∧ n ∈ c.store.nodes ∧ n.id = id ∧ n.name = name := by
    intro id name hname
    obtain ⟨n, hn, hname⟩ := Option.map_eq_some_iff.1 hname
    obtain ⟨hmem, hid⟩ := h.sound.node?_iff.1 hn
    exact ⟨n, hn, hmem, hid, hname⟩
  obtain ⟨x, hx, hxmem, hxid, hxname⟩ := hfound (.ofSerial 3) "First" (by decide +kernel)
  obtain ⟨y, hy, hymem, hyid, hyname⟩ := hfound (.ofSerial 4) "Second" (by decide +kernel)
  obtain ⟨z, hz, hzmem, hzid, hzname⟩ := hfound (.ofSerial 5) "Second" (by decide +kernel)
  have hxy : x ≠ y := fun heq => absurd (hxname.symm.trans (heq ▸ hyname)) (by decide)
  have hxz : x ≠ z := fun heq => absurd (hxname.symm.trans (heq ▸ hzname)) (by decide)
  obtain ⟨hiff, hback⟩ := hattached x hxmem hxname y hymem hyname hxy
  have hpath : c.index.hasPath (.node x.id) (.node y.id) = true := by
    rw [hxid, hyid]
    decide +kernel
  refine ⟨x, y, z, hx, hy, hz, hiff.2 hpath, hback.1 (hiff.2 hpath), fun hapart => ?_⟩
  have hno := (hattached x hxmem hxname z hzmem hzname hxz).1.1 hapart
  rw [hxid, hzid] at hno
  exact absurd hno (by decide +kernel)

end Catalog

end Crosswalk
