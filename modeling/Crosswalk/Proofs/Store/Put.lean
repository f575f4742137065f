import Crosswalk.Proofs.Entity.Enrich
import Crosswalk.Proofs.Store.Sound
import Crosswalk.Store.Put

/-!
# Putting entities into sound stores

In a sound store a requirement is matched by its trimmed name and a node by its key alone. Putting
either fills in the match in its place, or adds the entity with a fresh identity; it fails for a blank
name or a conflict and for nothing else. Either way the store stays sound.
-/

namespace Crosswalk.Store

variable {ι : Type} {s : Store}

/-! ### Requirements -/

theorem matchRequirement?_of_mem (h : s.Sound) {r : Requirement ι} {old : Requirement StoredId}
    (hold : old ∈ s.requirements) (hname : old.name = Text.trim r.name) :
    s.matchRequirement? r = some old := by
  have hall : ∀ o ∈ s.requirements.filter (fun o => o.name = Text.trim r.name), o = old := by
    intro o ho
    rw [List.mem_filter, decide_eq_true_eq] at ho
    exact Keyed.eq_of_key h.names_nodup ho.1 hold (ho.2.trans hname.symm)
  have hhead : (s.requirements.filter fun o => o.name = Text.trim r.name).head? = some old := by
    have hmem : old ∈ s.requirements.filter fun o => o.name = Text.trim r.name := by
      rw [List.mem_filter, decide_eq_true_eq]
      exact ⟨hold, hname⟩
    cases hf : s.requirements.filter fun o => o.name = Text.trim r.name with
    | nil => rw [hf] at hmem; exact absurd hmem List.not_mem_nil
    | cons o os => rw [List.head?_cons, hall o (hf ▸ List.mem_cons_self)]
  have hfind : ∀ p : Requirement StoredId → Bool,
      ((s.requirements.filter fun o => o.name = Text.trim r.name).find? p).or (some old) =
        some old := by
    intro p
    cases hp : (s.requirements.filter fun o => o.name = Text.trim r.name).find? p with
    | none => rfl
    | some o => rw [hall o (List.mem_of_find?_eq_some hp), Option.some_or]
  unfold matchRequirement?
  dsimp only
  rw [hhead]
  split
  · rw [Option.or_assoc, hfind, hfind]
  · exact hfind _

theorem matchRequirement?_eq_none {r : Requirement ι}
    (hnew : ∀ o ∈ s.requirements, o.name ≠ Text.trim r.name) : s.matchRequirement? r = none := by
  have hnil : s.requirements.filter (fun o => o.name = Text.trim r.name) = [] :=
    List.filter_eq_nil_iff.2 fun o ho => by simpa using hnew o ho
  unfold matchRequirement?
  dsimp only
  rw [hnil]
  split <;> rfl

/-- The requirement that is stored where none has its name. -/
def freshRequirement (s : Store) (r : Requirement ι) : Requirement StoredId :=
  { r.withId (.ofSerial s.drawn) with name := Text.trim r.name }

/-- The store with a fresh requirement. -/
def withRequirement (s : Store) (r : Requirement ι) : Store :=
  { s with requirements := s.requirements ++ [s.freshRequirement r], drawn := s.drawn + 1 }

theorem replaceRequirement_of_mem (h : s.Sound) {r : Requirement StoredId}
    (hr : r ∈ s.requirements) : s.replaceRequirement r = s := by
  show { s with requirements := Keyed.replace (·.id) r s.requirements } = s
  rw [Keyed.replace_of_mem h.requirementIds_nodup hr]

/-- Where names occur once, filling in a requirement keeps its name and identifier to itself: the update
is never refused. -/
theorem updateRequirement_eq (h : s.Sound) {old filled : Requirement StoredId}
    (hold : old ∈ s.requirements) (hid : filled.id = old.id) (hname : filled.name = old.name) :
    s.updateRequirement filled = .ok (s.replaceRequirement filled) := by
  have hfree : nameTaken (s.requirements.filter fun stored => stored.id ≠ filled.id) filled =
      false := by
    refine List.any_eq_false.2 fun o ho => ?_
    rw [List.mem_filter, decide_eq_true_eq] at ho
    have hne : o.name ≠ filled.name := fun heq =>
      ho.2 ((congrArg _ (Keyed.eq_of_key h.names_nodup ho.1 hold (heq.trans hname))).trans hid.symm)
    simp [hne]
  unfold updateRequirement
  rw [hfree]
  rfl

theorem putRequirement_blank {r : Requirement ι} (hname : Text.trim r.name = "") :
    s.putRequirement r = .error .emptyName := by
  unfold putRequirement
  rw [if_pos hname]

theorem putRequirement_known (h : s.Sound) {r : Requirement ι} {old : Requirement StoredId}
    (hold : old ∈ s.requirements) (hname : old.name = Text.trim r.name) :
    s.putRequirement r =
      match old.enrich r with
      | .error c => .error (.conflict c)
      | .ok (filled, _) => .ok (filled, s.replaceRequirement filled) := by
  have hblank : Text.trim r.name ≠ "" := by
    rw [← hname]
    exact (h.names_trimmed _ (List.mem_map_of_mem hold)).2
  unfold putRequirement
  rw [if_neg hblank, matchRequirement?_of_mem h hold hname]
  dsimp only
  cases hfill : old.enrich r with
  | error c => rfl
  | ok result =>
    obtain ⟨filled, changed⟩ := result
    cases changed with
    | true =>
      dsimp only
      rw [if_pos rfl, updateRequirement_eq h hold (Requirement.enrich_id hfill)
        (Requirement.enrich_name hfill)]
      rfl
    | false =>
      have hsame := Requirement.enrich_unchanged hfill
      subst hsame
      simp only [replaceRequirement_of_mem h hold, Bool.false_eq_true, if_false]

theorem putRequirement_new (h : s.Sound) {r : Requirement ι} (hname : Text.trim r.name ≠ "")
    (hnew : ∀ o ∈ s.requirements, o.name ≠ Text.trim r.name) :
    s.putRequirement r = .ok (s.freshRequirement r, s.withRequirement r) := by
  have hid : ∀ o ∈ s.requirements, o.id ≠ StoredId.ofSerial s.drawn := fun o ho heq =>
    h.fresh_not_mem (heq ▸ List.mem_append_left _ (List.mem_append_left _ (List.mem_map_of_mem ho)))
  have hids : (s.requirements.any fun o => o.id = StoredId.ofSerial s.drawn) = false := by
    rw [List.any_eq_false]
    exact fun o ho => by simpa using hid o ho
  have hfree : nameTaken s.requirements (s.freshRequirement r) = false :=
    List.any_eq_false.2 fun o ho => by simp [freshRequirement, hnew o ho]
  unfold putRequirement
  rw [if_neg hname, matchRequirement?_eq_none hnew]
  show Except.map _ (insertRequirement { s with drawn := s.drawn + 1 } (s.freshRequirement r)) = _
  unfold insertRequirement
  have hid' : (s.freshRequirement r).id = .ofSerial s.drawn := rfl
  simp only [hid', hids, hfree, Bool.false_eq_true, if_false]
  rfl

theorem putRequirement_ok (h : s.Sound) {r : Requirement ι} {stored : Requirement StoredId}
    {s' : Store} (hput : s.putRequirement r = .ok (stored, s')) :
    (∃ old ∈ s.requirements, old.name = Text.trim r.name ∧
      (∃ changed, old.enrich r = .ok (stored, changed)) ∧ s' = s.replaceRequirement stored) ∨
    (Text.trim r.name ≠ "" ∧ (∀ o ∈ s.requirements, o.name ≠ Text.trim r.name) ∧
      stored = s.freshRequirement r ∧ s' = s.withRequirement r) := by
  by_cases hold : ∃ old ∈ s.requirements, old.name = Text.trim r.name
  · obtain ⟨old, hmem, hname⟩ := hold
    rw [putRequirement_known h hmem hname] at hput
    split at hput
    · cases hput
    · rename_i filled changed hfill
      cases hput
      exact .inl ⟨old, hmem, hname, ⟨changed, hfill⟩, rfl⟩
  · have hnew : ∀ o ∈ s.requirements, o.name ≠ Text.trim r.name := fun o ho heq =>
      hold ⟨o, ho, heq⟩
    by_cases hblank : Text.trim r.name = ""
    · rw [putRequirement_blank hblank] at hput
      cases hput
    · rw [putRequirement_new h hblank hnew] at hput
      cases hput
      exact .inr ⟨hblank, hnew, rfl, rfl⟩

theorem putRequirement_error (h : s.Sound) {r : Requirement ι} {failure : Failure}
    (hput : s.putRequirement r = .error failure) :
    failure = .emptyName ∨ ∃ c, failure = .conflict c := by
  by_cases hold : ∃ old ∈ s.requirements, old.name = Text.trim r.name
  · obtain ⟨old, hmem, hname⟩ := hold
    rw [putRequirement_known h hmem hname] at hput
    split at hput
    · cases hput
      exact .inr ⟨_, rfl⟩
    · cases hput
  · by_cases hblank : Text.trim r.name = ""
    · rw [putRequirement_blank hblank] at hput
      cases hput
      exact .inl rfl
    · rw [putRequirement_new h hblank fun o ho heq => hold ⟨o, ho, heq⟩] at hput
      cases hput

theorem Sound.replaceRequirement (h : s.Sound) {old filled : Requirement StoredId}
    (hold : old ∈ s.requirements) (hid : filled.id = old.id) (hname : filled.name = old.name) :
    (s.replaceRequirement filled).Sound ∧
      (s.replaceRequirement filled).vertices.Perm s.vertices := by
  have hids : (s.replaceRequirement filled).requirements.map (·.id) =
      s.requirements.map (·.id) :=
    Keyed.map_replace fun _ _ ho => ho
  have hnames : (s.replaceRequirement filled).names = s.names := by
    refine Keyed.map_replace fun o ho hoid => ?_
    rw [hname, Keyed.eq_of_key h.requirementIds_nodup ho hold (hoid.trans hid)]
  refine ⟨h.congr hids hnames rfl rfl rfl rfl, ?_⟩
  refine (vertices_perm _).trans (.trans (.of_eq ?_) (vertices_perm s).symm)
  have hvertices := congrArg (List.map Vertex.requirement) hids
  rw [List.map_map, List.map_map] at hvertices
  exact congrArg (· ++ s.nodes.map fun n => Vertex.node n.id) hvertices

theorem Sound.withRequirement (h : s.Sound) {r : Requirement ι} (hname : Text.trim r.name ≠ "")
    (hnew : ∀ o ∈ s.requirements, o.name ≠ Text.trim r.name) :
    (s.withRequirement r).Sound ∧
      (s.withRequirement r).vertices.Perm
        (s.vertices ++ [.requirement (StoredId.ofSerial s.drawn)]) := by
  have hids : (s.withRequirement r).ids.Perm (StoredId.ofSerial s.drawn :: s.ids) := by
    show ((s.requirements ++ [s.freshRequirement r]).map (·.id) ++ s.nodes.map (·.id) ++
      s.links.map (·.id)).Perm _
    rw [List.map_append, List.append_assoc, List.append_assoc]
    refine List.perm_middle.trans (.of_eq ?_)
    rw [ids, List.append_assoc]
    rfl
  have hnames : (s.withRequirement r).names = s.names ++ [Text.trim r.name] := by
    show (s.requirements ++ [s.freshRequirement r]).map (·.name) = _
    rw [List.map_append]
    rfl
  have hvertices : (s.withRequirement r).vertices.Perm
      (s.vertices ++ [.requirement (StoredId.ofSerial s.drawn)]) := by
    refine (vertices_perm _).trans ?_
    show ((s.requirements ++ [s.freshRequirement r]).map (fun r => Vertex.requirement r.id) ++
      s.nodes.map fun n => Vertex.node n.id).Perm _
    rw [List.map_append, List.append_assoc]
    refine List.Perm.trans ?_ ((vertices_perm s).symm.append_right _)
    rw [List.append_assoc]
    exact List.perm_append_comm.append_left _
  have hfresh : Text.trim r.name ∉ s.names := by
    intro hname
    obtain ⟨o, ho, heq⟩ := List.mem_map.1 hname
    exact hnew o ho heq
  refine ⟨h.extend hids rfl hvertices rfl ?_ h.keys_nodup ?_ h.keys_trimmed, hvertices⟩
  · rw [hnames]
    exact h.names_nodup.append (List.nodup_singleton _) (List.disjoint_singleton.2 hfresh)
  · intro name hn
    rw [hnames, List.mem_append, List.mem_singleton] at hn
    rcases hn with hn | rfl
    · exact h.names_trimmed name hn
    · exact ⟨Text.trim_trim _, hname⟩

/-! ### Nodes -/

theorem matchNode?_of_mem (h : s.Sound) {n : Node ι} {old : Node StoredId} (hold : old ∈ s.nodes)
    (hkey : old.key = incomingKey n) : s.matchNode? n = some old :=
  (Keyed.find?_iff h.keys_nodup).2 ⟨hold, hkey⟩

theorem matchNode?_eq_none {n : Node ι} (hnew : ∀ o ∈ s.nodes, o.key ≠ incomingKey n) :
    s.matchNode? n = none :=
  List.find?_eq_none.2 fun o ho => by simpa using hnew o ho

/-- The node that is stored where none has its key. -/
def freshNode (s : Store) (n : Node ι) : Node StoredId :=
  { n.withId (.ofSerial s.drawn) with name := Text.trim n.name }

theorem freshNode_key (s : Store) (n : Node ι) : (s.freshNode n).key = incomingKey n := rfl

/-- The store with a fresh node. -/
def withNode (s : Store) (n : Node ι) : Store :=
  { s with nodes := s.nodes ++ [s.freshNode n], drawn := s.drawn + 1 }

theorem putNode_blank {n : Node ι} (hname : Text.trim n.name = "") :
    s.putNode n = .error .emptyName := by
  unfold putNode
  rw [if_pos hname]

theorem putNode_known (h : s.Sound) {n : Node ι} {old : Node StoredId} (hold : old ∈ s.nodes)
    (hkey : old.key = incomingKey n) :
    s.putNode n =
      match old.enrich n with
      | .error c => .error (.conflict c)
      | .ok (filled, _) => .ok (filled, s.replaceNode filled) := by
  have hblank : Text.trim n.name ≠ "" := by
    have hname := (h.keys_trimmed _ (List.mem_map_of_mem hold)).2
    rw [hkey] at hname
    exact hname
  unfold putNode
  rw [if_neg hblank, matchNode?_of_mem h hold hkey]
  dsimp only
  cases hfill : old.enrich n with
  | error c => rfl
  | ok result =>
    obtain ⟨filled, changed⟩ := result
    cases changed with
    | true => rfl
    | false =>
      have hsame := Node.enrich_unchanged hfill
      subst hsame
      have hreplace : s.replaceNode filled = s := by
        show { s with nodes := Keyed.replace (·.id) filled s.nodes } = s
        rw [Keyed.replace_of_mem h.nodeIds_nodup hold]
      simp only [hreplace, Bool.false_eq_true, if_false]

theorem putNode_new (h : s.Sound) {n : Node ι} (hname : Text.trim n.name ≠ "")
    (hnew : ∀ o ∈ s.nodes, o.key ≠ incomingKey n) :
    s.putNode n = .ok (s.freshNode n, s.withNode n) := by
  have hid : ∀ o ∈ s.nodes, o.id ≠ StoredId.ofSerial s.drawn := fun o ho heq =>
    h.fresh_not_mem (heq ▸ List.mem_append_left _ (List.mem_append_right _ (List.mem_map_of_mem ho)))
  have hids : (s.nodes.any fun o => o.id = StoredId.ofSerial s.drawn) = false := by
    rw [List.any_eq_false]
    exact fun o ho => by simpa using hid o ho
  have hkeys : (s.nodes.any fun o => o.key = (s.freshNode n).key) = false := by
    rw [List.any_eq_false, freshNode_key]
    exact fun o ho => by simpa using hnew o ho
  unfold putNode
  rw [if_neg hname, matchNode?_eq_none hnew]
  show Except.map _ (insertNode { s with drawn := s.drawn + 1 } (s.freshNode n)) = _
  unfold insertNode
  have hid' : (s.freshNode n).id = .ofSerial s.drawn := rfl
  simp only [hid', hids, hkeys, Bool.false_eq_true, if_false]
  rfl

theorem putNode_ok (h : s.Sound) {n : Node ι} {stored : Node StoredId} {s' : Store}
    (hput : s.putNode n = .ok (stored, s')) :
    (∃ old ∈ s.nodes, old.key = incomingKey n ∧
      (∃ changed, old.enrich n = .ok (stored, changed)) ∧ s' = s.replaceNode stored) ∨
    (Text.trim n.name ≠ "" ∧ (∀ o ∈ s.nodes, o.key ≠ incomingKey n) ∧
      stored = s.freshNode n ∧ s' = s.withNode n) := by
  by_cases hold : ∃ old ∈ s.nodes, old.key = incomingKey n
  · obtain ⟨old, hmem, hkey⟩ := hold
    rw [putNode_known h hmem hkey] at hput
    split at hput
    · cases hput
    · rename_i filled changed hfill
      cases hput
      exact .inl ⟨old, hmem, hkey, ⟨changed, hfill⟩, rfl⟩
  · have hnew : ∀ o ∈ s.nodes, o.key ≠ incomingKey n := fun o ho heq => hold ⟨o, ho, heq⟩
    by_cases hblank : Text.trim n.name = ""
    · rw [putNode_blank hblank] at hput
      cases hput
    · rw [putNode_new h hblank hnew] at hput
      cases hput
      exact .inr ⟨hblank, hnew, rfl, rfl⟩

theorem putNode_error (h : s.Sound) {n : Node ι} {failure : Failure}
    (hput : s.putNode n = .error failure) :
    failure = .emptyName ∨ ∃ c, failure = .conflict c := by
  by_cases hold : ∃ old ∈ s.nodes, old.key = incomingKey n
  · obtain ⟨old, hmem, hkey⟩ := hold
    rw [putNode_known h hmem hkey] at hput
    split at hput
    · cases hput
      exact .inr ⟨_, rfl⟩
    · cases hput
  · by_cases hblank : Text.trim n.name = ""
    · rw [putNode_blank hblank] at hput
      cases hput
      exact .inl rfl
    · rw [putNode_new h hblank fun o ho heq => hold ⟨o, ho, heq⟩] at hput
      cases hput

theorem Sound.replaceNode (h : s.Sound) {old filled : Node StoredId} (hold : old ∈ s.nodes)
    (hid : filled.id = old.id) (hkey : filled.key = old.key) :
    (s.replaceNode filled).Sound ∧ (s.replaceNode filled).vertices.Perm s.vertices := by
  have hids : (s.replaceNode filled).nodes.map (·.id) = s.nodes.map (·.id) :=
    Keyed.map_replace fun _ _ ho => ho
  have hkeys : (s.replaceNode filled).keys = s.keys := by
    refine Keyed.map_replace fun o ho hoid => ?_
    rw [hkey, Keyed.eq_of_key h.nodeIds_nodup ho hold (hoid.trans hid)]
  refine ⟨h.congr rfl rfl hids hkeys rfl rfl, ?_⟩
  refine (vertices_perm _).trans (.trans (.of_eq ?_) (vertices_perm s).symm)
  have hvertices := congrArg (List.map Vertex.node) hids
  rw [List.map_map, List.map_map] at hvertices
  exact congrArg (s.requirements.map (fun r => Vertex.requirement r.id) ++ ·) hvertices

theorem Sound.withNode (h : s.Sound) {n : Node ι} (hname : Text.trim n.name ≠ "")
    (hnew : ∀ o ∈ s.nodes, o.key ≠ incomingKey n) :
    (s.withNode n).Sound ∧
      (s.withNode n).vertices.Perm (s.vertices ++ [.node (StoredId.ofSerial s.drawn)]) := by
  have hids : (s.withNode n).ids.Perm (StoredId.ofSerial s.drawn :: s.ids) := by
    show (s.requirements.map (·.id) ++ (s.nodes ++ [s.freshNode n]).map (·.id) ++
      s.links.map (·.id)).Perm _
    rw [List.map_append, ← List.append_assoc, List.append_assoc]
    exact List.perm_middle
  have hkeys : (s.withNode n).keys = s.keys ++ [incomingKey n] := by
    show (s.nodes ++ [s.freshNode n]).map (·.key) = _
    rw [List.map_append]
    rfl
  have hvertices : (s.withNode n).vertices.Perm
      (s.vertices ++ [.node (StoredId.ofSerial s.drawn)]) := by
    refine (vertices_perm _).trans ?_
    show (s.requirements.map (fun r => Vertex.requirement r.id) ++
      (s.nodes ++ [s.freshNode n]).map fun n => Vertex.node n.id).Perm _
    rw [List.map_append, ← List.append_assoc]
    exact (vertices_perm s).symm.append_right _
  have hfresh : incomingKey n ∉ s.keys := by
    intro hkey
    obtain ⟨o, ho, heq⟩ := List.mem_map.1 hkey
    exact hnew o ho heq
  refine ⟨h.extend hids rfl hvertices rfl h.names_nodup ?_ h.names_trimmed ?_, hvertices⟩
  · rw [hkeys]
    exact h.keys_nodup.append (List.nodup_singleton _) (List.disjoint_singleton.2 hfresh)
  · intro key hk
    rw [hkeys, List.mem_append, List.mem_singleton] at hk
    rcases hk with hk | rfl
    · exact h.keys_trimmed key hk
    · exact ⟨Text.trim_trim _, hname⟩

end Crosswalk.Store
