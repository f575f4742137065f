import Crosswalk.Proofs.Catalog.Found
import Crosswalk.Proofs.Orderings
import Crosswalk.Proofs.Query
import Crosswalk.Proofs.Text.Order

/-!
# What answers to a query

A query for nodes is answered by the nodes that lie at its coordinates, in whatever order these are
given, and a query for a name by the requirement with that name. A query that finds nothing so is
answered by all entities with the text of the query in one of their fields. Whatever the query, no
entity answers twice.
-/

namespace Crosswalk

variable {ι : Type}

/-! ### Coordinates of nodes -/

namespace Node

def coordinates (n : Node ι) : List String :=
  [n.name, n.sectionTitle, n.subsection]

/-- A node of the kind, with the hyperlink if one is given, whose first coordinates are the given ones
in some order. -/
def LiesAt (n : Node ι) (kind : NodeKind) (tokens : List String) (hyperlink : Option String) : Prop :=
  n.kind = kind ∧ (∀ link ∈ hyperlink, n.hyperlink = link) ∧
    (n.coordinates.take tokens.length).Perm tokens

instance (n : Node ι) (kind : NodeKind) (tokens : List String) (hyperlink : Option String) :
    Decidable (n.LiesAt kind tokens hyperlink) :=
  inferInstanceAs (Decidable (_ ∧ _ ∧ _))

theorem LiesAt.congr {n : Node ι} {kind : NodeKind} {tokens tokens' : List String}
    {hyperlink : Option String} (hperm : tokens'.Perm tokens) :
    n.LiesAt kind tokens' hyperlink ↔ n.LiesAt kind tokens hyperlink := by
  unfold LiesAt
  rw [hperm.length_eq]
  exact and_congr_right fun _ => and_congr_right fun _ =>
    ⟨fun h => h.trans hperm, fun h => h.trans hperm.symm⟩

end Node

/-! ### Fields of entities -/

/-- The fields in which a text is sought, the tags as they are written. -/
def Entity.fields : Entity StoredId → List String
  | .requirement r => Store.requirementFields r
  | .node n => Store.nodeFields n

/-- A text is a part of one of the fields, in any case of ASCII letters. -/
def Entity.HasPart (text : String) (e : Entity StoredId) : Prop :=
  ∃ field ∈ e.fields, Text.FoldedPartOf text field

instance (text : String) (e : Entity StoredId) : Decidable (e.HasPart text) :=
  inferInstanceAs (Decidable (∃ field ∈ e.fields, Text.FoldedPartOf text field))

namespace Store

variable {s : Store} {text : String} {e : Entity StoredId}

def entities (s : Store) : List (Entity StoredId) :=
  s.requirements.map .requirement ++ s.nodes.map .node

theorem requirement_mem_entities {r : Requirement StoredId} :
    .requirement r ∈ s.entities ↔ r ∈ s.requirements := by
  simp [entities]

theorem node_mem_entities {n : Node StoredId} : .node n ∈ s.entities ↔ n ∈ s.nodes := by
  simp [entities]

theorem entities_vertices_perm (s : Store) : (s.entities.map Entity.vertex).Perm s.vertices := by
  rw [entities, List.map_append, List.map_map, List.map_map]
  exact s.vertices_perm.symm

theorem Sound.entities_nodup (h : s.Sound) : (s.entities.map Entity.vertex).Nodup :=
  s.entities_vertices_perm.nodup_iff.2 h.vertices_nodup

theorem answers_iff {field : String} {key : Option String} (hset : ∀ k ∈ key, k ≠ "") :
    answers false field key = true ↔ ∀ k ∈ key, field = k := by
  cases key with
  | none => simp [answers]
  | some k =>
    have hk : k ≠ "" := hset k rfl
    simp [answers, hk, eq_comm]

/-- A requirement is the only one with its name. -/
theorem Sound.getRequirements_name (h : s.Sound) {r : Requirement StoredId}
    (hr : r ∈ s.requirements) : s.getRequirements { name := some r.name } = [r] := by
  have hname : r.name ≠ "" := (h.names_trimmed _ (List.mem_map_of_mem hr)).2
  have hset : ({ name := some r.name } : RequirementFilter).isEmpty = false := by
    simp [RequirementFilter.isEmpty, isSet, hname]
  have hfilter : s.requirements.filter ({ name := some r.name } : RequirementFilter).accepts =
      [r] := by
    rw [← Keyed.filter_key h.names_nodup hr]
    refine List.filter_congr fun x _ => ?_
    simp [RequirementFilter.accepts, answers, hname, eq_comm]
  rw [getRequirements, hset, hfilter]
  exact Text.sortOn_singleton _ _

end Store

namespace Catalog

variable {c : Catalog} {text : String} {kind : NodeKind} {tokens : List String}
  {hyperlink : Option String} {e : Entity StoredId} {n : Node StoredId}

theorem mem_mentioning : e ∈ c.mentioning text ↔ e ∈ c.store.entities ∧ e.HasPart text := by
  cases e with
  | requirement r =>
    rw [Store.requirement_mem_entities]
    simp only [mentioning, Store.searchRequirements, List.mem_append, List.mem_map,
      Store.mem_selectedRequirements, Store.any_containsFolded_iff]
    simp [Entity.HasPart, Entity.fields]
  | node n =>
    rw [Store.node_mem_entities]
    simp only [mentioning, Store.searchNodes, List.mem_append, List.mem_map,
      Store.mem_selectedNodes, Store.any_containsFolded_iff]
    simp [Entity.HasPart, Entity.fields]

/-! ### Nodes by coordinates -/

/-- Up to three coordinates are looked up one by one. -/
theorem take_coordinates_eq (hfew : tokens.length ≤ 3) :
    n.coordinates.take tokens.length = tokens ↔
      ((∀ token ∈ tokens[0]?, n.name = token) ∧ ∀ token ∈ tokens[1]?, n.sectionTitle = token) ∧
        ∀ token ∈ tokens[2]?, n.subsection = token := by
  rcases tokens with _ | ⟨a, _ | ⟨b, _ | ⟨c, _ | ⟨d, rest⟩⟩⟩⟩
  · simp
  · simp [Node.coordinates]
  · simp [Node.coordinates]
  · simp [Node.coordinates, and_assoc]
  · simp only [List.length_cons] at hfew
    omega

theorem coordinateFilter_accepts (hfew : tokens.length ≤ 3) (hset : ∀ token ∈ tokens, token ≠ "")
    (hlink : ∀ link ∈ hyperlink, link ≠ "") :
    (coordinateFilter kind hyperlink tokens).accepts n = true ↔
      n.kind = kind ∧ (∀ link ∈ hyperlink, n.hyperlink = link) ∧
        n.coordinates.take tokens.length = tokens := by
  have hplace : ∀ i, ∀ token ∈ tokens[i]?, token ≠ "" := fun i token htoken =>
    hset token (List.mem_of_getElem? htoken)
  have hunset : ∀ field, Store.answers false field none = true := fun _ => rfl
  simp only [Store.NodeFilter.accepts, coordinateFilter, Bool.and_eq_true, hunset, and_true,
    Store.answers_iff (hplace _), Store.answers_iff hlink, Option.all_some, decide_eq_true_eq]
  rw [take_coordinates_eq hfew]
  constructor
  · rintro ⟨⟨hplaces, hlinks⟩, hkind⟩
    exact ⟨hkind.symm, hlinks, hplaces⟩
  · rintro ⟨hkind, hlinks, hplaces⟩
    exact ⟨⟨hplaces, hlinks⟩, hkind.symm⟩

theorem mem_nodesAt (hfew : tokens.length ≤ 3) (hset : ∀ token ∈ tokens, token ≠ "")
    (hlink : ∀ link ∈ hyperlink, link ≠ "") :
    n ∈ c.nodesAt kind tokens hyperlink ↔ n ∈ c.store.nodes ∧ n.LiesAt kind tokens hyperlink := by
  -- every ordering is as long as the tokens and has no empty coordinate either
  have haccepts : ∀ {coordinates : List String}, coordinates.Perm tokens →
      ((coordinateFilter kind hyperlink coordinates).accepts n = true ↔
        n.kind = kind ∧ (∀ link ∈ hyperlink, n.hyperlink = link) ∧
          n.coordinates.take tokens.length = coordinates) := by
    intro coordinates hperm
    rw [← hperm.length_eq]
    exact coordinateFilter_accepts (hperm.length_eq ▸ hfew)
      (fun token htoken => hset token (hperm.mem_iff.1 htoken)) hlink
  simp only [nodesAt, List.mem_flatMap, mem_orderings, Store.mem_selectedNodes]
  constructor
  · rintro ⟨coordinates, hperm, hn, hlies⟩
    obtain ⟨hkind, hlinks, hplaces⟩ := (haccepts hperm).1 hlies
    exact ⟨hn, hkind, hlinks, hplaces ▸ hperm⟩
  · rintro ⟨hn, hkind, hlinks, hperm⟩
    exact ⟨_, hperm, hn, (haccepts hperm).2 ⟨hkind, hlinks, rfl⟩⟩

/-! ### Answers -/

theorem answering_of_named (h : c.named (.ofText text) ≠ []) :
    c.answering text = Keyed.firsts Entity.vertex (c.named (.ofText text)) := by
  have hsome : (!(c.named (.ofText text)).isEmpty) = true := by simpa using h
  simp only [answering, hsome, if_true]
  rfl

theorem answering_of_unnamed (h : c.named (.ofText text) = []) (htext : Text.trim text ≠ "") :
    c.answering text = Keyed.firsts Entity.vertex (c.mentioning (Text.trim text)) := by
  have hnone : (!(c.named (.ofText text)).isEmpty) = false := by simpa using h
  simp only [answering, hnone, Bool.false_eq_true, if_false, htext]
  rfl

theorem answering_nodup (c : Catalog) (text : String) :
    ((c.answering text).map Entity.vertex).Nodup := by
  by_cases hnamed : c.named (.ofText text) = []
  · by_cases htext : Text.trim text = ""
    · have hnil : c.answering text = [] := by
        simp [answering, hnamed, htext]
      rw [hnil]
      exact List.nodup_nil
    · rw [answering_of_unnamed hnamed htext]
      exact Keyed.firsts_nodup _ _
  · rw [answering_of_named hnamed]
    exact Keyed.firsts_nodup _ _

namespace Consistent

/-- What is found by coordinates. -/
theorem answering_nodes (h : c.Consistent)
    (hquery : Query.ofText text = .nodes kind tokens hyperlink)
    (hsome : ∃ n ∈ c.store.nodes, n.LiesAt kind tokens hyperlink) :
    (c.answering text).Perm
      ((c.store.nodes.filter fun n => n.LiesAt kind tokens hyperlink).map .node) := by
  obtain ⟨hfew, hset, hlink, -⟩ := Query.ofText_nodes hquery
  have hnamed : c.named (.ofText text) = (c.nodesAt kind tokens hyperlink).map .node := by
    rw [hquery, named]
  obtain ⟨m, hm, hlies⟩ := hsome
  have hne : c.named (.ofText text) ≠ [] := by
    rw [hnamed]
    exact List.ne_nil_of_mem (List.mem_map_of_mem ((mem_nodesAt hfew hset hlink).2 ⟨hm, hlies⟩))
  rw [answering_of_named hne, hnamed]
  refine Keyed.firsts_perm (h.sound.entities_nodup.sublist ?_) fun e => ?_
  · exact ((List.filter_sublist.map _).trans (List.sublist_append_right _ _)).map _
  · simp only [List.mem_map, mem_nodesAt hfew hset hlink, List.mem_filter, decide_eq_true_eq]

/-- What is found by coordinates, given in any order, with the links. -/
theorem textSearch_nodes (h : c.Consistent) {tokens' : List String}
    (hquery : Query.ofText text = .nodes kind tokens' hyperlink) (hperm : tokens'.Perm tokens)
    (hsome : ∃ n ∈ c.store.nodes, n.LiesAt kind tokens hyperlink) :
    (c.textSearch text).Perm ((c.store.nodes.filter fun n => n.LiesAt kind tokens hyperlink).map
      fun n => c.store.hydrate (.node n)) := by
  have hfilter : (c.store.nodes.filter fun n => n.LiesAt kind tokens' hyperlink) =
      c.store.nodes.filter fun n => n.LiesAt kind tokens hyperlink :=
    List.filter_congr fun n _ => decide_eq_decide.2 (Node.LiesAt.congr hperm)
  obtain ⟨n, hn, hlies⟩ := hsome
  have hanswers := h.answering_nodes hquery ⟨n, hn, (Node.LiesAt.congr hperm).2 hlies⟩
  rw [hfilter] at hanswers
  have hdocuments := hanswers.map c.store.hydrate
  rw [List.map_map] at hdocuments
  exact hdocuments

/-- What is found by a text alone. -/
theorem textSearch_mentioning (h : c.Consistent) (hnamed : c.named (.ofText text) = [])
    (htext : Text.trim text ≠ "") :
    (c.textSearch text).Perm
      ((c.store.entities.filter fun e => e.HasPart (Text.trim text)).map c.store.hydrate) := by
  rw [textSearch, answering_of_unnamed hnamed htext]
  refine (Keyed.firsts_perm (h.sound.entities_nodup.sublist (List.filter_sublist.map _))
    fun e => ?_).map _
  rw [mem_mentioning, List.mem_filter, decide_eq_true_eq]

/-- What is found by the name of a requirement. -/
theorem textSearch_name (h : c.Consistent) {r : Requirement StoredId} (hr : r ∈ c.store.requirements)
    (hquery : Query.ofText text = .requirementName r.name) :
    c.textSearch text = [c.store.hydrate (.requirement r)] := by
  have hnamed : c.named (.ofText text) = [.requirement r] := by
    rw [hquery, named, h.sound.getRequirements_name hr]
    rfl
  rw [textSearch, answering_of_named (by simp [hnamed]), hnamed]
  rfl

end Consistent

/-! ### Searching in a run -/

theorem textSearch_vertices (c : Catalog) (text : String) :
    (c.textSearch text).map (fun d => d.entity.vertex) = (c.answering text).map Entity.vertex := by
  rw [textSearch, List.map_map]
  rfl

/-- In every run, no entity answers twice to a query. A query for nodes by at most three coordinates
is answered by the nodes that lie at these, each once, and every query by the same coordinates in
another order is answered by the same nodes. If no node lies there, the entities answer that have the
trimmed query in a field, each once. -/
theorem run_textSearch_nodes (serial itemsPerPage : Nat) (ops : List (Operation ι)) :
    let c := (fresh serial itemsPerPage).run ops
    (∀ text, ((c.textSearch text).map fun d => d.entity.vertex).Nodup) ∧
    ∀ text kind tokens hyperlink, Query.ofText text = .nodes kind tokens hyperlink →
      tokens.length ≤ 3 ∧
      ((∃ n ∈ c.store.nodes, n.LiesAt kind tokens hyperlink) →
        (c.textSearch text).Perm
          ((c.store.nodes.filter fun n => n.LiesAt kind tokens hyperlink).map
            fun n => c.store.hydrate (.node n)) ∧
        ∀ text' tokens', Query.ofText text' = .nodes kind tokens' hyperlink → tokens'.Perm tokens →
          (c.textSearch text').Perm (c.textSearch text)) ∧
      ((¬ ∃ n ∈ c.store.nodes, n.LiesAt kind tokens hyperlink) →
        (c.textSearch text).Perm
          ((c.store.entities.filter fun e => e.HasPart (Text.trim text)).map c.store.hydrate)) := by
  intro c
  have h : c.Consistent := (consistent_fresh serial itemsPerPage).run ops
  refine ⟨fun text => ?_, fun text kind tokens hyperlink hquery => ⟨?_, fun hsome => ?_,
    fun hnone => ?_⟩⟩
  · rw [textSearch_vertices]
    exact answering_nodup c text
  · exact (Query.ofText_nodes hquery).1
  · have hfound := h.textSearch_nodes hquery (.refl _) hsome
    exact ⟨hfound, fun text' tokens' hquery' hperm =>
      (h.textSearch_nodes hquery' hperm hsome).trans hfound.symm⟩
  · obtain ⟨hfew, hset, hlink, htext⟩ := Query.ofText_nodes hquery
    refine h.textSearch_mentioning ?_ htext
    rw [hquery, named, List.map_eq_nil_iff, List.eq_nil_iff_forall_not_mem]
    intro n hn
    exact hnone ⟨n, (mem_nodesAt hfew hset hlink).1 hn⟩

/-- Two sections of a standard, one with a subsection, and a requirement whose name looks like a
query for a rule of a tool. -/
def namesakes : List (Operation Unit) :=
  [.putNode ⟨(), "SB", "", .empty, .standard "sa" "sbb" "" ""⟩,
    .putNode ⟨(), "SB", "", .empty, .standard "sa" "" "" ""⟩,
    .putRequirement ⟨(), none, "Tool sa", "", .empty⟩]

/-- The coordinates may stand in any order. Where no node lies at them, the query is a text. -/
theorem run_textSearch_nodes_namesakes :
    let c := (fresh 0 20).run namesakes
    ∃ n ∈ c.store.nodes, ∃ e ∈ c.store.entities,
      c.textSearch "Standard sbb SB sa" = [c.store.hydrate (.node n)] ∧
      (c.textSearch "standard:SB:sa:sbb").Perm (c.textSearch "Standard sbb SB sa") ∧
      e.name = "Tool sa" ∧ c.textSearch " tool sa" = [c.store.hydrate e] := by
  intro c
  have hrun := (run_textSearch_nodes 0 20 namesakes).2
  obtain ⟨n, hn, hfilter⟩ : ∃ n ∈ c.store.nodes,
      (c.store.nodes.filter fun n => n.LiesAt .standard ["sbb", "SB", "sa"] none) = [n] := by
    decide +kernel
  have hlies : ∃ n ∈ c.store.nodes, n.LiesAt .standard ["sbb", "SB", "sa"] none := by
    decide +kernel
  have hnone : ¬ ∃ n ∈ c.store.nodes, n.LiesAt .tool ["sa"] none := by decide +kernel
  obtain ⟨e, he, hname, hmention⟩ : ∃ e ∈ c.store.entities, e.name = "Tool sa" ∧
      (c.store.entities.filter fun e => e.HasPart (Text.trim " tool sa")) = [e] := by
    decide +kernel
  obtain ⟨hfound, hsame⟩ :=
    (hrun "Standard sbb SB sa" .standard ["sbb", "SB", "sa"] none (by decide +kernel)).2.1 hlies
  have htext := (hrun " tool sa" .tool ["sa"] none (by decide +kernel)).2.2 hnone
  rw [hfilter] at hfound
  rw [hmention] at htext
  exact ⟨n, hn, e, he, List.perm_singleton.1 hfound,
    hsame _ ["SB", "sa", "sbb"] (by decide +kernel) (by decide), hname,
    List.perm_singleton.1 htext⟩

/-- In every run, a requirement is found by its name after the word for a requirement, in any ASCII
case, with a colon or a blank, unless the name has the form of a public identifier: it is then the
only answer. The exception is a name with a line feed, where the whole query is no more than a text
that is sought in the fields of all entities. -/
theorem run_textSearch_name (serial itemsPerPage : Nat) (ops : List (Operation ι)) :
    let c := (fresh serial itemsPerPage).run ops
    ∀ r ∈ c.store.requirements, isExternalId r.name.toList = false →
      ∀ start, Query.IsNameMark start →
        ('\n' ∉ r.name.toList →
          c.textSearch (start ++ r.name) = [c.store.hydrate (.requirement r)]) ∧
        ('\n' ∈ r.name.toList →
          (c.textSearch (start ++ r.name)).Perm
            ((c.store.entities.filter fun e => e.HasPart (start ++ r.name)).map
              c.store.hydrate)) := by
  intro c r hr hid start hstart
  have h : c.Consistent := (consistent_fresh serial itemsPerPage).run ops
  obtain ⟨htrim, hne⟩ := h.sound.names_trimmed _ (List.mem_map_of_mem hr)
  have hquery := Query.ofText_name hstart htrim hne hid
  refine ⟨fun hline => ?_, fun hline => ?_⟩
  · rw [if_neg hline] at hquery
    exact h.textSearch_name hr hquery
  · rw [if_pos hline] at hquery
    have hwhole := hstart.trim_append htrim hne
    have hnamed : c.named (.ofText (start ++ r.name)) = [] := by rw [hquery]; rfl
    have hsome : Text.trim (start ++ r.name) ≠ "" := by
      rw [hwhole]
      simp [hne]
    have hanswers := h.textSearch_mentioning hnamed hsome
    rw [hwhole] at hanswers
    exact hanswers

/-- A name that looks like other queries, and one on two lines. -/
def oddNames : List (Operation Unit) :=
  [.putRequirement ⟨(), none, "CRE: tool:Access", "", .empty⟩,
    .putRequirement ⟨(), none, "Access\nControl", "", .empty⟩]

/-- Words and colons in a name mean nothing. -/
theorem run_textSearch_name_oddNames :
    let c := (fresh 0 20).run oddNames
    ∃ r ∈ c.store.requirements, r.name = "CRE: tool:Access" ∧
      c.textSearch ("CRE:" ++ r.name) = [c.store.hydrate (.requirement r)] ∧
      c.textSearch ("cre " ++ r.name) = [c.store.hydrate (.requirement r)] := by
  intro c
  have hstored : ∃ r ∈ c.store.requirements, r.name = "CRE: tool:Access" ∧
      isExternalId r.name.toList = false ∧ '\n' ∉ r.name.toList := by decide +kernel
  obtain ⟨r, hr, hname, hid, hline⟩ := hstored
  have hfound := run_textSearch_name 0 20 oddNames r hr hid
  exact ⟨r, hr, hname, (hfound "CRE:" (by decide)).1 hline, (hfound "cre " (by decide)).1 hline⟩

/-- A requirement whose name has two lines is not found by it. -/
theorem exists_name_missed :
    let c := (fresh 0 20).run oddNames
    ∃ r ∈ c.store.requirements, isExternalId r.name.toList = false ∧
      c.textSearch ("CRE:" ++ r.name) = [] ∧ c.textSearch ("cre " ++ r.name) = [] := by
  intro c
  have h : c.Consistent := (consistent_fresh 0 20).run oddNames
  have hstored : ∃ r ∈ c.store.requirements, isExternalId r.name.toList = false ∧
      ∀ start ∈ ["CRE:", "cre "], Query.ofText (start ++ r.name) = .text (start ++ r.name) ∧
        Text.trim (start ++ r.name) ≠ "" ∧
        (c.store.entities.filter fun e => e.HasPart (Text.trim (start ++ r.name))) = [] := by
    decide +kernel
  obtain ⟨r, hr, hid, hqueries⟩ := hstored
  have hmissed : ∀ start ∈ ["CRE:", "cre "], c.textSearch (start ++ r.name) = [] := by
    intro start hstart
    obtain ⟨hquery, hsome, hnone⟩ := hqueries start hstart
    have hnamed : c.named (.ofText (start ++ r.name)) = [] := by rw [hquery]; rfl
    have hanswers := h.textSearch_mentioning hnamed hsome
    rw [hnone] at hanswers
    exact hanswers.eq_nil
  exact ⟨r, hr, hid, hmissed _ (by simp), hmissed _ (by simp)⟩

end Catalog

end Crosswalk
