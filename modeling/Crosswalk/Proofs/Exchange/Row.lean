import Crosswalk.Proofs.Entity.Bare
import Crosswalk.Proofs.Exchange.Layout
import Crosswalk.Proofs.Keyed

/-!
# Reading a written row

A row of a written sheet has the cells of a requirement, of requirements linked to it and of at most
one node of every group. Each cell is found under its own header, and the row is read as the
requirement with its links to these requirements and nodes.
-/

namespace Crosswalk

variable {ι : Type}

/-! ### What can be written -/

/-- A node whose texts survive in cells: they are trimmed, the name is not empty, and there is no
version, for which there is no column. -/
structure Node.Plain (n : Node ι) : Prop where
  name : Text.trim n.name = n.name
  name_ne : n.name ≠ ""
  values : ∀ attr : Attribute, Text.trim (attr.valueOf n) = attr.valueOf n
  version : n.version = ""

/-- A requirement whose texts survive in cells: they are trimmed, and the name is not empty. -/
structure Requirement.Plain (r : Requirement ι) : Prop where
  externalId : Text.trim r.externalText = r.externalText
  name : Text.trim r.name = r.name
  name_ne : r.name ≠ ""
  description : Text.trim r.description = r.description

/-! ### Cells of a node -/

theorem lookup_map_of_injective {α β γ : Type} [DecidableEq β] {f : α → β} {g : α → γ}
    (hf : ∀ a b, f a = f b → a = b) {items : List α} {a : α} (ha : a ∈ items) :
    (items.map fun b => (f b, g b)).lookup (f a) = some (g a) := by
  induction items with
  | nil => exact absurd ha List.not_mem_nil
  | cons b items ih =>
    by_cases hab : a = b
    · subst hab
      simp
    · have hbeq : (f a == f b) = false := beq_false_of_ne fun h => hab (hf a b h)
      have hitems := ih ((List.mem_cons.1 ha).resolve_left hab)
      rw [List.map_cons, List.lookup_cons, hbeq]
      exact hitems

namespace Sheet

theorem lookup_nodeCells {n : Node ι} {text : String} {attr : Attribute}
    (hattr : attr ∈ Attribute.ofKind n.kind) :
    (nodeCells text n).lookup (NodeColumn.header ⟨n.kind, n.name, attr⟩) =
      some (if attr = .linkType then text else attr.valueOf n) :=
  lookup_map_of_injective
    (fun _ _ h => congrArg NodeColumn.attr (NodeColumn.header_injective h)) hattr

theorem lookup_nodeCells_of_ne (text : String) {n : Node ι} {column : NodeColumn}
    (h : groupOf n ≠ (column.kind, column.name)) :
    (nodeCells text n).lookup column.header = none := by
  rw [List.lookup_eq_none_iff]
  intro p hp
  obtain ⟨attr, -, rfl⟩ := List.mem_map.1 hp
  rw [bne_iff_ne]
  intro heq
  have hcolumn := NodeColumn.header_injective heq
  exact h (by rw [hcolumn]; rfl)

/-- The cells of some nodes, whose relations are written in a way. -/
def nodesCells (text : Relation → String) (nodes : List (Relation × Node ι)) :
    List (String × String) :=
  nodes.flatMap fun p => nodeCells (text p.1) p.2

variable {text : Relation → String} {nodes : List (Relation × Node ι)}

theorem lookup_nodesCells_of_ne {column : NodeColumn}
    (h : ∀ p ∈ nodes, groupOf p.2 ≠ (column.kind, column.name)) :
    (nodesCells text nodes).lookup column.header = none := by
  induction nodes with
  | nil => rfl
  | cons p nodes ih =>
    have hp := lookup_nodeCells_of_ne (text p.1) (h p List.mem_cons_self)
    have hnodes := ih fun q hq => h q (List.mem_cons_of_mem _ hq)
    unfold nodesCells at hnodes ⊢
    rw [List.flatMap_cons, List.lookup_append, hp, hnodes]
    rfl

theorem lookup_nodesCells (hnodup : (nodes.map fun p => groupOf p.2).Nodup) {p : Relation × Node ι}
    (hp : p ∈ nodes) {attr : Attribute} (hattr : attr ∈ Attribute.ofKind p.2.kind) :
    (nodesCells text nodes).lookup (NodeColumn.header ⟨p.2.kind, p.2.name, attr⟩) =
      some (if attr = .linkType then text p.1 else attr.valueOf p.2) := by
  induction nodes with
  | nil => exact absurd hp List.not_mem_nil
  | cons q nodes ih =>
    rw [List.map_cons, List.nodup_cons] at hnodup
    unfold nodesCells
    rw [List.flatMap_cons, List.lookup_append]
    rcases List.mem_cons.1 hp with rfl | hp
    · rw [lookup_nodeCells hattr]
      rfl
    · have hne : groupOf q.2 ≠ (p.2.kind, p.2.name) := fun heq =>
        hnodup.1 (heq ▸ List.mem_map_of_mem (f := fun p => groupOf p.2) hp)
      have hnodes := ih hnodup.2 hp
      rw [lookup_nodeCells_of_ne _ hne, Option.none_or]
      exact hnodes

/-! ### Reading a node -/

theorem detailOf_valueOf {n : Node ι} (hversion : n.version = "") {value : Attribute → String}
    (hvalue : ∀ attr ∈ Attribute.ofKind n.kind, attr ≠ .linkType → value attr = attr.valueOf n) :
    detailOf n.kind value = .ok n.detail := by
  obtain ⟨id, name, hyperlink, tags, detail⟩ := n
  cases detail with
  | standard title subsection sectionId version =>
    change ∀ attr ∈ Attribute.ofKind .standard, _ at hvalue
    have h₁ := hvalue .sectionTitle (by decide) (by decide)
    have h₂ := hvalue .subsection (by decide) (by decide)
    have h₃ := hvalue .sectionId (by decide) (by decide)
    have hversion' : version = "" := hversion
    simp only [detailOf, Node.kind, NodeDetail.kind, h₁, h₂, h₃, hversion']
    rfl
  | tool rule type description =>
    change ∀ attr ∈ Attribute.ofKind .tool, _ at hvalue
    have h₁ := hvalue .sectionTitle (by decide) (by decide)
    have h₂ := hvalue .description (by decide) (by decide)
    have h₃ := hvalue .toolType (by decide) (by decide)
    have hread : readToolType (value .toolType) = .ok type := by
      rw [h₃]
      cases type
      · exact (by decide +kernel : readToolType "Offensive" = .ok .offensive)
      · exact (by decide +kernel : readToolType "Defensive" = .ok .defensive)
      · exact (by decide +kernel : readToolType "Training" = .ok .training)
      · exact (by decide +kernel : readToolType "" = .ok .unknown)
    simp only [detailOf, Node.kind, NodeDetail.kind, h₁, h₂, hread]
    rfl
  | code description =>
    change ∀ attr ∈ Attribute.ofKind .code, _ at hvalue
    have h₁ := hvalue .description (by decide) (by decide)
    simp only [detailOf, Node.kind, NodeDetail.kind, h₁]
    rfl

/-- The cells of a node are read as the node, unless all of them are empty. -/
theorem node?_eq_some {group : NodeGroup} {n : Node ι} (hgroup : (group.kind, group.name) = groupOf n)
    (hversion : n.version = "") {value : Attribute → String}
    (hvalue : ∀ attr ∈ Attribute.ofKind n.kind, attr ≠ .linkType → value attr = attr.valueOf n)
    (hsome : ∃ p ∈ group.columns, value p.1 ≠ "") {relation : Relation}
    (hrelation : relationOr (value .linkType) .linkedTo = .ok relation) :
    group.node? value = .ok (some (relation, n.bare)) := by
  have hkind : group.kind = n.kind := congrArg Prod.fst hgroup
  have hname : group.name = n.name := congrArg Prod.snd hgroup
  have hlink : value .hyperlink = n.hyperlink := by
    refine hvalue .hyperlink ?_ (by decide)
    cases n.kind <;> decide
  have hall : ¬ (group.columns.all fun p => value p.1 = "") = true := by
    intro hall
    obtain ⟨p, hp, hne⟩ := hsome
    exact hne (of_decide_eq_true (List.all_eq_true.1 hall p hp))
  unfold NodeGroup.node?
  rw [if_neg hall, hrelation, hkind, hname]
  simp only [bind, Except.bind, nodeOf, detailOf_valueOf hversion hvalue, Except.map, hlink, pure,
    Except.pure]
  rfl

theorem node?_eq_none {group : NodeGroup} {value : Attribute → String}
    (h : ∀ attr, value attr = "") : group.node? value = .ok none := by
  have hall : (group.columns.all fun p => value p.1 = "") = true :=
    List.all_eq_true.2 fun p _ => decide_eq_true (h p.1)
  unfold NodeGroup.node?
  rw [if_pos hall]
  rfl

/-! ### Reading the nodes of a row -/

variable {count : Nat} {groups : List (NodeKind × String)}

/-- The groups that are read from the headers of a sheet. -/
def sheetGroups (count : Nat) (groups : List (NodeKind × String)) : List NodeGroup :=
  NodeGroup.ofColumns ((sheetHeaders count groups).map columnOf)

/-- Whether the node columns of a row hold some nodes, at most one of each group, and the relations
in a writing from which they are read back. -/
structure HoldsNodes (count : Nat) (groups : List (NodeKind × String)) (row : List String)
    (text : Relation → String) (nodes : List (Relation × Node ι)) : Prop where
  cells : ∀ column : NodeColumn, column.header ∈ sheetHeaders count groups →
    Table.cell (sheetHeaders count groups) row column.header =
      Text.trim (((nodesCells text nodes).lookup column.header).getD "")
  once : (nodes.map fun p => groupOf p.2).Nodup
  grouped : ∀ p ∈ nodes, groupOf p.2 ∈ groups
  plain : ∀ p ∈ nodes, p.2.Plain
  trimmed : ∀ p ∈ nodes, Text.trim (text p.1) = text p.1
  read : ∀ p ∈ nodes, relationOr (text p.1) .linkedTo = .ok p.1
  filled : ∀ p ∈ nodes, text p.1 ≠ "" ∨
    ∃ attr ∈ Attribute.ofKind p.2.kind, attr ≠ .linkType ∧ attr.valueOf p.2 ≠ ""

section RowNodes

variable (hgroups : ∀ g ∈ groups, Text.trim g.2 = g.2 ∧ g.2 ≠ "") {row : List String}

include hgroups

theorem groupCell_eq {group : NodeGroup} (hgroup : group ∈ sheetGroups count groups)
    (row : List String) (attr : Attribute) :
    groupCell group row attr = Table.cell (sheetHeaders count groups) row
      (NodeColumn.header ⟨group.kind, group.name, attr⟩) := by
  unfold groupCell Table.cell
  rw [(mem_ofColumns hgroups hgroup).2 attr]

theorem groupCell_of_no_node (h : HoldsNodes count groups row text nodes) {group : NodeGroup}
    (hgroup : group ∈ sheetGroups count groups)
    (hnone : ∀ p ∈ nodes, groupOf p.2 ≠ (group.kind, group.name)) (attr : Attribute) :
    groupCell group row attr = "" := by
  rw [groupCell_eq hgroups hgroup row]
  by_cases hmem : NodeColumn.header ⟨group.kind, group.name, attr⟩ ∈ sheetHeaders count groups
  · rw [h.cells _ hmem, lookup_nodesCells_of_ne hnone]
    decide
  · exact Table.cell_eq_empty row hmem

theorem groupCell_of_node (h : HoldsNodes count groups row text nodes) {group : NodeGroup}
    (hgroup : group ∈ sheetGroups count groups) {p : Relation × Node ι} (hp : p ∈ nodes)
    (hgroupOf : groupOf p.2 = (group.kind, group.name)) {attr : Attribute}
    (hattr : attr ∈ Attribute.ofKind p.2.kind) :
    groupCell group row attr = if attr = .linkType then text p.1 else attr.valueOf p.2 := by
  have hkind : group.kind = p.2.kind := (congrArg Prod.fst hgroupOf).symm
  have hname : group.name = p.2.name := (congrArg Prod.snd hgroupOf).symm
  have hmem : NodeColumn.header ⟨p.2.kind, p.2.name, attr⟩ ∈ sheetHeaders count groups :=
    header_mem_sheetHeaders.2 ⟨h.grouped p hp, hattr⟩
  rw [groupCell_eq hgroups hgroup row, hkind, hname, h.cells _ hmem,
    lookup_nodesCells h.once hp hattr, Option.getD_some]
  split
  · exact h.trimmed p hp
  · exact (h.plain p hp).values attr

theorem exists_column {group : NodeGroup} (hgroup : group ∈ sheetGroups count groups)
    {attr : Attribute} (hattr : attr ∈ Attribute.ofKind group.kind) :
    ∃ i, (attr, i) ∈ group.columns := by
  obtain ⟨hmem, hlookup⟩ := mem_ofColumns hgroups hgroup
  have hheader : NodeColumn.header ⟨group.kind, group.name, attr⟩ ∈ sheetHeaders count groups :=
    header_mem_sheetHeaders.2 ⟨hmem, hattr⟩
  obtain ⟨i, hi⟩ := Option.isSome_iff_exists.1 (Table.isSome_position?.2 hheader)
  rw [← hlookup attr] at hi
  obtain ⟨before, later, hcolumns, -⟩ := List.lookup_eq_some_iff.1 hi
  refine ⟨i, ?_⟩
  rw [hcolumns]
  exact List.mem_append_right _ List.mem_cons_self

theorem node?_of_holdsNodes (h : HoldsNodes count groups row text nodes) {group : NodeGroup}
    (hgroup : group ∈ sheetGroups count groups) :
    group.node? (groupCell group row) =
      .ok ((nodes.find? fun p => groupOf p.2 = (group.kind, group.name)).map
        fun p => (p.1, p.2.bare)) := by
  cases hfind : nodes.find? fun p => groupOf p.2 = (group.kind, group.name) with
  | none =>
    have hnone : ∀ p ∈ nodes, groupOf p.2 ≠ (group.kind, group.name) := fun p hp heq =>
      absurd (decide_eq_true heq) (List.find?_eq_none.1 hfind p hp)
    exact node?_eq_none (groupCell_of_no_node hgroups h hgroup hnone)
  | some p =>
    have hp : p ∈ nodes := List.mem_of_find?_eq_some hfind
    have hgroupOf : groupOf p.2 = (group.kind, group.name) := by
      have hsome := List.find?_some hfind
      exact of_decide_eq_true hsome
    have hvalue : ∀ attr ∈ Attribute.ofKind p.2.kind, groupCell group row attr =
        if attr = .linkType then text p.1 else attr.valueOf p.2 := fun attr hattr =>
      groupCell_of_node hgroups h hgroup hp hgroupOf hattr
    have hlinkType : Attribute.linkType ∈ Attribute.ofKind p.2.kind := by
      cases p.2.kind <;> decide
    have hsome : ∃ attr ∈ Attribute.ofKind p.2.kind, groupCell group row attr ≠ "" := by
      rcases h.filled p hp with htext | ⟨attr, hattr, hne, hattrValue⟩
      · refine ⟨.linkType, hlinkType, ?_⟩
        rw [hvalue _ hlinkType, if_pos rfl]
        exact htext
      · refine ⟨attr, hattr, ?_⟩
        rw [hvalue _ hattr, if_neg hne]
        exact hattrValue
    obtain ⟨attr, hattr, hcell⟩ := hsome
    have hkind : p.2.kind = group.kind := congrArg Prod.fst hgroupOf
    obtain ⟨i, hcolumn⟩ := exists_column hgroups hgroup (hkind ▸ hattr)
    refine node?_eq_some hgroupOf.symm (h.plain p hp).version (fun attr hattr hne => ?_)
      ⟨_, hcolumn, hcell⟩ ?_
    · rw [hvalue attr hattr, if_neg hne]
    · rw [hvalue _ hlinkType, if_pos rfl]
      exact h.read p hp

theorem rowNodes_of_holdsNodes (h : HoldsNodes count groups row text nodes) :
    ∃ found, rowNodes (sheetGroups count groups) row = .ok found ∧
      ∀ x, x ∈ found ↔ ∃ p ∈ nodes, x = (p.1, p.2.bare) := by
  have hread := Text.mapM_eq_map fun group hgroup => node?_of_holdsNodes hgroups h hgroup
  unfold rowNodes
  rw [hread]
  refine ⟨_, rfl, fun x => ?_⟩
  rw [List.mem_filterMap]
  constructor
  · rintro ⟨found, hfound, hx⟩
    obtain ⟨group, -, rfl⟩ := List.mem_map.1 hfound
    obtain ⟨p, hfind, rfl⟩ := Option.map_eq_some_iff.1 hx
    exact ⟨p, List.mem_of_find?_eq_some hfind, rfl⟩
  · rintro ⟨p, hp, rfl⟩
    obtain ⟨group, hgroup, heq⟩ : ∃ group ∈ sheetGroups count groups,
        (group.kind, group.name) = groupOf p.2 := exists_ofColumns hgroups (h.grouped p hp)
    have hfind : nodes.find? (fun q => groupOf q.2 = (group.kind, group.name)) = some p :=
      (Keyed.find?_iff h.once).2 ⟨hp, heq.symm⟩
    exact ⟨_, List.mem_map_of_mem hgroup, by rw [hfind]; rfl⟩

end RowNodes

/-! ### Reading linked requirements -/

/-- What stands in a column of a linked requirement. -/
def peerValue (attr : String) (p : Relation × Requirement ι) : String :=
  if attr = "id" then p.2.externalText
  else if attr = "name" then p.2.name
  else p.1.text

theorem lookup_peerCells {attr : String} (hattr : attr ∈ peerAttributes)
    (peers : List (Relation × Requirement ι)) (i : Nat) :
    (peerCells peers).lookup (peerHeader i attr) = (peers[i]?).map (peerValue attr) := by
  have hfrom : ∀ (peers : List (Relation × Requirement ι)) (start j : Nat),
      ((peers.zipIdx start).flatMap fun p =>
        [(peerHeader p.2 "id", p.1.2.externalText), (peerHeader p.2 "name", p.1.2.name),
          (peerHeader p.2 "link_type", p.1.1.text)]).lookup (peerHeader (start + j) attr) =
        (peers[j]?).map (peerValue attr) := by
    intro peers
    induction peers with
    | nil => exact fun _ _ => rfl
    | cons p peers ih =>
      intro start j
      obtain ⟨relation, peer⟩ := p
      rw [List.zipIdx_cons, List.flatMap_cons, List.lookup_append]
      cases j with
      | zero =>
        simp only [peerAttributes, List.mem_cons, List.not_mem_nil, or_false] at hattr
        have hid : (peerHeader start "name" == peerHeader start "id") = false :=
          beq_false_of_ne fun h => absurd (peerHeader_injective h).2 (by decide)
        have hid' : (peerHeader start "link_type" == peerHeader start "id") = false :=
          beq_false_of_ne fun h => absurd (peerHeader_injective h).2 (by decide)
        have hname : (peerHeader start "link_type" == peerHeader start "name") = false :=
          beq_false_of_ne fun h => absurd (peerHeader_injective h).2 (by decide)
        rcases hattr with rfl | rfl | rfl <;>
          simp [List.lookup_cons, hid, hid', hname, peerValue]
      | succ j =>
        have hother : ∀ attr', (peerHeader (start + (j + 1)) attr == peerHeader start attr') =
            false := fun attr' => beq_false_of_ne fun h => by
          have hindex := (peerHeader_injective h).1
          omega
        have hrest := ih (start + 1) j
        have hindex : start + 1 + j = start + (j + 1) := by omega
        rw [hindex] at hrest
        simp only [List.lookup_cons, hother, List.lookup_nil, Option.none_or]
        exact hrest
  have h := hfrom peers 0 i
  rw [Nat.zero_add] at h
  exact h

theorem lookup_peerCells_of_ne {h : String} (hne : ∀ i attr, h ≠ peerHeader i attr)
    (peers : List (Relation × Requirement ι)) : (peerCells peers).lookup h = none := by
  rw [List.lookup_eq_none_iff]
  intro p hp
  obtain ⟨⟨⟨relation, peer⟩, i⟩, -, hmem⟩ := List.mem_flatMap.1 hp
  simp only [List.mem_cons, List.not_mem_nil, or_false] at hmem
  rw [bne_iff_ne]
  rcases hmem with rfl | rfl | rfl <;> exact hne _ _

theorem readExternalId_externalText {r : Requirement ι}
    (h : Text.trim r.externalText = r.externalText) :
    readExternalId r.externalText = .ok r.externalId := by
  unfold Requirement.externalText ExternalId.textOf at *
  unfold readExternalId
  cases hid : r.externalId with
  | none => rfl
  | some id =>
    rw [hid] at h
    dsimp only at h ⊢
    have hread : ExternalId.ofText? id.text = some id := by
      unfold ExternalId.ofText?
      simp only [h, id.wellFormed, dif_pos]
    rw [if_neg id.text_ne_empty, hread]

theorem relationOr_text (relation default : Relation) :
    relationOr relation.text default = .ok relation := by
  unfold relationOr
  cases relation <;> rfl

/-- Whether the columns of linked requirements hold some requirements in order. -/
def HoldsPeers (headers row : List String) (peers : List (Relation × Requirement ι)) : Prop :=
  ∀ i, ∀ attr ∈ peerAttributes,
    Table.cell headers row (peerHeader i attr) = ((peers[i]?).map (peerValue attr)).getD ""

theorem rowPeer?_of_holdsPeers {headers row : List String} {peers : List (Relation × Requirement ι)}
    (h : HoldsPeers headers row peers) (hplain : ∀ p ∈ peers, p.2.Plain) (i : Nat) :
    rowPeer? headers row i =
      .ok ((peers[i]?).map fun p => .mk p.1 (.ofRequirement p.2.stub)) := by
  have hid := h i "id" (by decide)
  have hname := h i "name" (by decide)
  have htype := h i "link_type" (by decide)
  unfold rowPeer?
  rw [hid, hname, htype]
  cases hpeer : peers[i]? with
  | none => rfl
  | some p =>
    have hp := hplain p (List.mem_of_getElem? hpeer)
    have hvalues : peerValue "id" p = p.2.externalText ∧ peerValue "name" p = p.2.name ∧
        peerValue "link_type" p = p.1.text := ⟨rfl, rfl, rfl⟩
    simp only [Option.map_some, Option.getD_some, hvalues.1, hvalues.2.1, hvalues.2.2, hp.name_ne,
      false_and, if_false, bind, Except.bind, readExternalId_externalText hp.externalId,
      relationOr_text]
    rfl

/-! ### Reading a row -/

/-- The layout that is read from the headers of a sheet. -/
def sheetLayout (count : Nat) (groups : List (NodeKind × String)) : Layout :=
  ⟨sheetHeaders count groups, sheetGroups count groups, peerIndices (sheetHeaders count groups)⟩

section RowDocuments

variable (hgroups : ∀ g ∈ groups, Text.trim g.2 = g.2 ∧ g.2 ≠ "") {row : List String}

include hgroups

/-- A row that names no requirement is read as its nodes. -/
theorem rowDocuments_of_no_name (h : HoldsNodes count groups row text nodes)
    (hname : Table.cell (sheetHeaders count groups) row nameHeader = "") :
    ∃ ds, rowDocuments (sheetLayout count groups) row = .ok ds ∧
      ∀ d, d ∈ ds ↔ ∃ p ∈ nodes, d = .ofNode p.2.bare := by
  obtain ⟨found, hfound, hmem⟩ := rowNodes_of_holdsNodes hgroups h
  unfold rowDocuments sheetLayout
  simp only [hfound, hname, bind, Except.bind, if_true, pure, Except.pure]
  refine ⟨_, rfl, fun d => ?_⟩
  rw [List.mem_map]
  constructor
  · rintro ⟨x, hx, rfl⟩
    obtain ⟨p, hp, rfl⟩ := (hmem x).1 hx
    exact ⟨p, hp, rfl⟩
  · rintro ⟨p, hp, rfl⟩
    exact ⟨(p.1, p.2.bare), (hmem _).2 ⟨p, hp, rfl⟩, rfl⟩

/-- A row that names a requirement is read as the requirement with what the row links it to. -/
theorem rowDocuments_of_name {r : Requirement ι} (hr : r.Plain)
    {peers : List (Relation × Requirement ι)} (h : HoldsNodes count groups row text nodes)
    (hpeers : HoldsPeers (sheetHeaders count groups) row peers) (hplain : ∀ p ∈ peers, p.2.Plain)
    (hlength : peers.length ≤ count) (hcount : count < UInt64.size)
    (hid : Table.cell (sheetHeaders count groups) row idHeader = r.externalText)
    (hname : Table.cell (sheetHeaders count groups) row nameHeader = r.name)
    (hdescription : Table.cell (sheetHeaders count groups) row descriptionHeader =
      r.description) :
    ∃ links, rowDocuments (sheetLayout count groups) row =
        .ok (.mk (.requirement r.bare) links :: containedPeers r.bare links) ∧
      ∀ l, l ∈ links ↔ (∃ p ∈ nodes, l = .mk p.1 (.ofNode p.2.bare)) ∨
        ∃ p ∈ peers, l = .mk p.1 (.ofRequirement p.2.stub) := by
  obtain ⟨found, hfound, hmem⟩ := rowNodes_of_holdsNodes hgroups h
  have hread : (peerIndices (sheetHeaders count groups)).mapM
      (rowPeer? (sheetHeaders count groups) row) =
        .ok ((peerIndices (sheetHeaders count groups)).map fun i =>
          (peers[i]?).map fun p => .mk p.1 (.ofRequirement p.2.stub)) :=
    Text.mapM_eq_map fun i _ => rowPeer?_of_holdsPeers hpeers hplain i
  unfold rowDocuments sheetLayout
  simp only [hfound, hname, hr.name_ne, bind, Except.bind, if_false, hid,
    readExternalId_externalText hr.externalId, hread, hdescription, pure, Except.pure]
  refine ⟨_, rfl, fun l => ?_⟩
  rw [List.mem_append, List.mem_map, List.mem_filterMap]
  refine or_congr ⟨?_, ?_⟩ ⟨?_, ?_⟩
  · rintro ⟨x, hx, rfl⟩
    obtain ⟨p, hp, rfl⟩ := (hmem x).1 hx
    exact ⟨p, hp, rfl⟩
  · rintro ⟨p, hp, rfl⟩
    exact ⟨(p.1, p.2.bare), (hmem _).2 ⟨p, hp, rfl⟩, rfl⟩
  · rintro ⟨found, hfound, hl⟩
    obtain ⟨i, -, rfl⟩ := List.mem_map.1 hfound
    obtain ⟨p, hp, rfl⟩ := Option.map_eq_some_iff.1 hl
    exact ⟨p, List.mem_of_getElem? hp, rfl⟩
  · rintro ⟨p, hp, rfl⟩
    obtain ⟨i, hi, rfl⟩ := List.getElem_of_mem hp
    have hheader : peerHeader i "id" ∈ sheetHeaders count groups :=
      mem_sheetHeaders.2 (.inr (.inl ⟨i, by omega, "id", by decide, rfl⟩))
    refine ⟨_, List.mem_map_of_mem (mem_peerIndices (by decide) (by omega) hheader), ?_⟩
    rw [List.getElem?_eq_getElem hi]
    rfl

end RowDocuments

end Sheet

end Crosswalk
