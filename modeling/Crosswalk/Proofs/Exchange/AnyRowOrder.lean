import Crosswalk.Proofs.Exchange.RowRead

/-!
# Rows in any order

What is read from a sheet does not depend on the order of its rows, up to the order of documents and
links and up to hyperlinks. It is enough that the sheet is read without a failure, that no text holds
the character that stands between the parts of a merge key, and that no public identifier stands with
two names.
-/

namespace Crosswalk

open Merged

/-! ### Characters that do not occur -/

/-- A character occurs neither in a header nor in a cell. -/
def Table.Lacks (sep : Char) (t : Table) : Prop :=
  (∀ header ∈ t.headers, sep ∉ header.toList) ∧ ∀ row ∈ t.rows, ∀ cell ∈ row, sep ∉ cell.toList

theorem Table.mem_of_mem_cellAt {row : List String} {position : Option Nat} {c : Char}
    (h : c ∈ (cellAt row position).toList) : ∃ cell ∈ row, c ∈ cell.toList := by
  unfold cellAt at h
  split at h
  · rename_i cell hcell
    obtain ⟨i, -, hi⟩ := Option.bind_eq_some_iff.1 hcell
    exact ⟨cell, List.mem_of_getElem? hi, Text.mem_of_mem_trim h⟩
  · cases h

theorem NodeColumn.mem_of_mem_name {header : String} {column : NodeColumn} {c : Char}
    (h : ofHeader header = .ok (some column)) (hc : c ∈ column.name.toList) :
    c ∈ header.toList := by
  unfold ofHeader at h
  split at h
  · cases h
  · rename_i start rest hstart
    split at h
    · cases h
    · split at h
      · cases h
      · rename_i name attr hlast
        dsimp only at h
        split at h
        · cases h
        · split at h
          · cases h
          · cases h
            have hname := Text.mem_of_mem_trim hc
            rw [String.toList_ofList] at hname
            rw [(Text.cutFirst_eq_some hstart).1, Text.cutLast_eq_some hlast]
            simp [hname]

namespace Sheet

variable {layout : Layout} {t t' : Table} {row : List String}

theorem exists_header_of_group (h : Layout.ofHeaders t.headers = .ok layout) {group : NodeGroup}
    (hgroup : group ∈ layout.groups) :
    ∃ header ∈ t.headers, ∀ c ∈ group.name.toList, c ∈ header.toList := by
  obtain ⟨columns, hcolumns, h⟩ := bind_eq_ok.1 h
  split at h
  · cases h
  · cases h
    obtain ⟨⟨kind, name⟩, hmem, rfl⟩ := List.mem_map.1 hgroup
    rw [Text.mem_sortOn, List.mem_eraseDups, List.mem_filterMap] at hmem
    obtain ⟨column?, hcolumn, hpair⟩ := hmem
    obtain ⟨column, rfl, hcolumnName⟩ := Option.map_eq_some_iff.1 hpair
    have hread : t.headers.mapM NodeColumn.ofHeader = .ok columns := by
      cases hread : t.headers.mapM NodeColumn.ofHeader with
      | ok columns' =>
        rw [hread] at hcolumns
        cases hcolumns
        rfl
      | error fault =>
        rw [hread] at hcolumns
        cases hcolumns
    obtain ⟨header, hheader, hof⟩ := (mem_mapM hread).1 hcolumn
    refine ⟨header, hheader, fun c hc => NodeColumn.mem_of_mem_name hof ?_⟩
    rw [(Prod.mk.inj hcolumnName).2]
    exact hc

theorem keyParts_of_node? {group : NodeGroup} {value : Attribute → String} {relation : Relation}
    {n : Node Unit} (h : group.node? value = .ok (some (relation, n))) :
    ∀ x ∈ n.keyParts, x = group.kind.text ∨ x = group.name ∨ x = "" ∨ ∃ attr, x = value attr := by
  unfold NodeGroup.node? at h
  split at h
  · cases h
  · obtain ⟨relation, -, h⟩ := bind_eq_ok.1 h
    obtain ⟨n, hn, h⟩ := bind_eq_ok.1 h
    cases h
    obtain ⟨detail, hdetail, rfl⟩ := map_eq_ok.1 hn
    generalize group.kind = kind at hdetail ⊢
    cases kind
    case tool =>
      obtain ⟨type, -, rfl⟩ := map_eq_ok.1 hdetail
      intro x hx
      simp only [Node.keyParts, Node.kind, NodeDetail.kind, Node.sectionTitle, Node.subsection,
        Node.description, Node.version, List.mem_cons, List.not_mem_nil, or_false] at hx
      grind
    all_goals
      cases hdetail
      intro x hx
      simp only [Node.keyParts, Node.kind, NodeDetail.kind, Node.sectionTitle, Node.subsection,
        Node.description, Node.version, List.mem_cons, List.not_mem_nil, or_false] at hx
      grind

theorem keyParts_of_rowNodes (h : Layout.ofHeaders t.headers = .ok layout) (hrow : row ∈ t.rows)
    {sep : Char} (hsep : t.Lacks sep) (hkind : ∀ kind : NodeKind, sep ∉ kind.text.toList)
    {nodes : List (Relation × Node Unit)} (hnodes : rowNodes layout.groups row = .ok nodes)
    {p : Relation × Node Unit} (hp : p ∈ nodes) : ∀ x ∈ p.2.keyParts, sep ∉ x.toList := by
  obtain ⟨found, hfound, rfl⟩ := map_eq_ok.1 hnodes
  obtain ⟨_, hp, rfl⟩ := List.mem_filterMap.1 hp
  obtain ⟨group, hgroup, hread⟩ := (mem_mapM hfound).1 hp
  intro x hx hmem
  rcases keyParts_of_node? hread x hx with rfl | rfl | rfl | ⟨attr, rfl⟩
  · exact hkind _ hmem
  · obtain ⟨header, hheader, hname⟩ := exists_header_of_group h hgroup
    exact hsep.1 header hheader (hname sep hmem)
  · cases hmem
  · obtain ⟨cell, hcell, hmem⟩ := Table.mem_of_mem_cellAt hmem
    exact hsep.2 row hrow cell hcell hmem

/-! ### Names of public identifiers -/

/-- No public identifier stands with two names in a table. -/
def OneName (t : Table) : Prop :=
  ∀ row ∈ t.rows, ∀ row' ∈ t.rows, ∀ p ∈ mentions t.headers row, ∀ p' ∈ mentions t.headers row',
    p.1 ≠ "" → p.1 = p'.1 → p.2 = p'.2

/-- Documents under one merge key have one natural key. -/
theorem naturalKey_of_mergeKey (h : Layout.ofHeaders t.headers = .ok layout)
    (hsep : t.Lacks '\u001f') (hnames : OneName t) {a b : Document Unit}
    (ha : a ∈ contents (t.rows.map (rowDocuments layout)))
    (hb : b ∈ contents (t.rows.map (rowDocuments layout)))
    (hkey : mergeKey a.entity = mergeKey b.entity) : a.entity.naturalKey = b.entity.naturalKey := by
  have hread : ∀ {d : Document Unit}, d ∈ contents (t.rows.map (rowDocuments layout)) →
      ∃ row ∈ t.rows, (∃ r, d.entity = .requirement r ∧
          (r.externalText, r.name) ∈ mentions t.headers row) ∨
        ∃ n, d.entity = .node n ∧ ∀ x ∈ n.keyParts, '\u001f' ∉ x.toList := by
    intro d hd
    obtain ⟨ds, hds, hmem⟩ := mem_contents.1 hd
    obtain ⟨row, hrow, hread⟩ := List.mem_map.1 hds
    have hpeers : layout.peers = peerIndices layout.headers := by
      rw [layout_peers h, layout_headers h]
    refine ⟨row, hrow, ?_⟩
    rw [← layout_headers h]
    refine (of_mem_rowDocuments hread hpeers hmem).imp_right ?_
    rintro ⟨nodes, hnodes, p, hp, hentity⟩
    exact ⟨p.2, hentity, keyParts_of_rowNodes h hrow hsep
      (fun kind => by cases kind <;> decide) hnodes hp⟩
  obtain ⟨row, hrow, ⟨r, hr, hmention⟩ | ⟨n, hn, hparts⟩⟩ := hread ha <;>
    obtain ⟨row', hrow', ⟨r', hr', hmention'⟩ | ⟨n', hn', hparts'⟩⟩ := hread hb
  · rw [hr, hr'] at hkey ⊢
    obtain ⟨hid, hname⟩ := eq_of_mergeKey_requirement hkey
    have htext : r.externalText = r'.externalText := congrArg ExternalId.textOf hid
    refine congrArg₂ NaturalKey.requirement htext ?_
    by_cases hnone : r.externalId = none
    · exact hname hnone
    · exact hnames row hrow row' hrow' _ hmention _ hmention'
        (Requirement.externalText_ne_empty hnone) htext
  · rw [hr, hn'] at hkey
    exact absurd hkey (mergeKey_requirement_ne_node r n')
  · rw [hn, hr'] at hkey
    exact absurd hkey.symm (mergeKey_requirement_ne_node r' n)
  · rw [hn, hn'] at hkey ⊢
    exact congrArg NaturalKey.node (key_eq_of_undivided (.inl hparts) hkey)

/-! ### Another order -/

/-- A table that is read without a failure is read without a failure with its rows in any other
order, and gives the same documents up to their order, the order of their links and hyperlinks. -/
theorem decode_perm {decoded : Decoded} (hdecode : decode t = .ok decoded)
    (hnone : decoded.failures = []) (hsep : t.Lacks '\u001f') (hnames : OneName t)
    (hheaders : t'.headers = t.headers) (hrows : t'.rows.Perm t.rows) :
    ∃ decoded', decode t' = .ok decoded' ∧ decoded'.failures = [] ∧
      (decoded'.documents.map gist).Perm (decoded.documents.map gist) := by
  obtain ⟨layout, hlayout, -⟩ := map_eq_ok.1 hdecode
  have hlayout' : Layout.ofHeaders t'.headers = .ok layout := hheaders ▸ hlayout
  rw [decode_eq hlayout] at hdecode
  cases hdecode
  refine ⟨_, decode_eq hlayout', ?_⟩
  have hresults := hrows.map (rowDocuments layout)
  have hcontents : ∀ d, d ∈ contents (t'.rows.map (rowDocuments layout)) ↔
      d ∈ contents (t.rows.map (rowDocuments layout)) := by
    intro d
    simp only [mem_contents, hresults.mem_iff]
  obtain ⟨hread, hmerge⟩ := addResults_empty_failures.1 hnone
  have hread' : ∀ result ∈ t'.rows.map (rowDocuments layout), ∃ ds, result = .ok ds :=
    fun result hresult => hread result (hresults.mem_iff.1 hresult)
  have hmerge' : Mergeable (contents (t'.rows.map (rowDocuments layout))) :=
    hmerge.subset fun d hd => (hcontents d).1 hd
  obtain ⟨hunites, -⟩ := unites_nil.addResults_of_mergeable (m := empty) 1 hread hmerge
  obtain ⟨hunites', hnone'⟩ := unites_nil.addResults_of_mergeable (m := empty) 1 hread' hmerge'
  refine ⟨hnone', ?_⟩
  have hperm := hunites'.perm hunites hcontents fun a ha b hb =>
    naturalKey_of_mergeKey hlayout hsep hnames ((hcontents a).1 ha) ((hcontents b).1 hb)
  simpa [Merged.decoded, Function.comp_def] using hperm

/-- Two requirements, of which the first one contains the second one, and a node of theirs. -/
def containing : Table where
  headers := [idHeader, nameHeader, descriptionHeader, "Linked_CRE_0:id", "Linked_CRE_0:name",
    "Linked_CRE_0:link_type", "Standard:S:section", "Standard:S:hyperlink"]
  rows := [["111-111", "A", "", "222-222", "B", "Contains", "1.1", "left"],
    ["222-222", "B", "Text", "", "", "", "1.1", "right"], ["", "", "", "", "", "", "1.1", "none"]]
  widths := by decide +kernel

/-- The same rows from below. -/
def containingReversed : Table where
  headers := containing.headers
  rows := containing.rows.reverse
  widths := fun row hrow => containing.widths row (List.mem_reverse.1 hrow)

theorem decode_perm_containing :
    ∃ decoded, decode containing = .ok decoded ∧
      ∃ decoded', decode containingReversed = .ok decoded' ∧ decoded'.failures = [] ∧
        (decoded'.documents.map gist).Perm (decoded.documents.map gist) := by
  have hread : (decode containing).toOption.map (·.failures) = some [] := by decide +kernel
  cases hdecode : decode containing with
  | error failure =>
    rw [hdecode] at hread
    cases hread
  | ok decoded =>
    rw [hdecode] at hread
    have hlacks : containing.Lacks '\u001f' := by
      unfold Table.Lacks
      decide +kernel
    have hnames : OneName containing := by
      unfold OneName
      decide +kernel
    exact ⟨decoded, rfl, decode_perm hdecode (Option.some.inj hread) hlacks hnames rfl
      (List.reverse_perm _)⟩

end Sheet

end Crosswalk
