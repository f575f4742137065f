import Crosswalk.Proofs.Exchange.Written

/-!
# Decoding what was encoded

What is read of the sheet of some documents: every requirement with its own links and with nothing
else, what it contains with a link back to it, and the nodes without links. As far as merge keys tell
the entities apart, nothing conflicts and no row is skipped.
-/

namespace Crosswalk

variable {ι : Type}

/-- The link as it stands in a sheet. -/
def Link.bare (l : Link ι) : Link Unit :=
  .mk l.relation (.ofEntity l.peer.entity.stub)

namespace Sheet

/-- Documents whose texts survive in a sheet. -/
structure Writable (documents : List (Document ι)) : Prop where
  requirement : ∀ p ∈ requirementsOf documents, p.1.Plain
  peer : ∀ p ∈ requirementsOf documents, ∀ q ∈ linkedRequirements p.2, q.2.Plain
  node : ∀ p ∈ requirementsOf documents, ∀ q ∈ linkedNodes p.2, q.2.Plain
  standalone : ∀ n ∈ standaloneNodes documents, n.Plain ∧
    ∃ attr ∈ Attribute.ofKind n.kind, attr ≠ .linkType ∧ attr.valueOf n ≠ ""
  bounded : ∀ p ∈ requirementsOf documents, (linkedRequirements p.2).length < UInt64.size

/-! ### The headers that are written -/

/-- How many columns of linked requirements are written. -/
def peerCount (documents : List (Document ι)) : Nat :=
  ((requirementsOf documents).map fun p => (linkedRequirements p.2).length).foldl max 0

/-- The groups of node columns that are written. -/
def nodeGroups (documents : List (Document ι)) : List (NodeKind × String) :=
  groupsOf (standaloneNodes documents ++
    (requirementsOf documents).flatMap fun p => (linkedNodes p.2).map (·.2))

variable {documents : List (Document ι)} {p : Requirement ι × List (Link ι)}

theorem headersOf_eq (documents : List (Document ι)) :
    headersOf documents = sheetHeaders (peerCount documents) (nodeGroups documents) :=
  rfl

theorem length_le_peerCount (hp : p ∈ requirementsOf documents) :
    (linkedRequirements p.2).length ≤ peerCount documents :=
  le_foldl_max (.inr (List.mem_map_of_mem (f := fun p => (linkedRequirements p.2).length) hp))

theorem groupOf_mem_nodeGroups (hp : p ∈ requirementsOf documents) {q : Relation × Node ι}
    (hq : q ∈ linkedNodes p.2) : groupOf q.2 ∈ nodeGroups documents :=
  mem_groupsOf.2 ⟨q.2, List.mem_append_right _
    (List.mem_flatMap.2 ⟨p, hp, List.mem_map_of_mem hq⟩), rfl⟩

theorem groupOf_mem_nodeGroups_of_standalone {n : Node ι} (hn : n ∈ standaloneNodes documents) :
    groupOf n ∈ nodeGroups documents :=
  mem_groupsOf.2 ⟨n, List.mem_append_left _ hn, rfl⟩

theorem mem_linkedNodes {links : List (Link ι)} {q : Relation × Node ι} :
    q ∈ linkedNodes links ↔ ∃ k ∈ links, k.relation = q.1 ∧ k.peer.entity = .node q.2 := by
  obtain ⟨relation, n⟩ := q
  unfold linkedNodes
  rw [List.mem_filterMap]
  refine exists_congr fun k => and_congr_right fun _ => ?_
  cases k.peer.entity <;> simp [Entity.node?]

theorem mem_linkedRequirements {links : List (Link ι)} {q : Relation × Requirement ι} :
    q ∈ linkedRequirements links ↔
      ∃ k ∈ links, k.relation = q.1 ∧ k.peer.entity = .requirement q.2 := by
  obtain ⟨relation, r⟩ := q
  unfold linkedRequirements
  rw [List.mem_filterMap]
  refine exists_congr fun k => and_congr_right fun _ => ?_
  cases k.peer.entity <;> simp [Entity.requirement?]

namespace Writable

theorem nodeGroups_trimmed (h : Writable documents) :
    ∀ g ∈ nodeGroups documents, Text.trim g.2 = g.2 ∧ g.2 ≠ "" := by
  intro g hg
  obtain ⟨n, hn, rfl⟩ := mem_groupsOf.1 hg
  have hplain : n.Plain := by
    rcases List.mem_append.1 hn with hn | hn
    · exact (h.standalone n hn).1
    · obtain ⟨p, hp, hmem⟩ := List.mem_flatMap.1 hn
      obtain ⟨q, hq, rfl⟩ := List.mem_map.1 hmem
      exact h.node p hp q hq
  exact ⟨hplain.name, hplain.name_ne⟩

theorem peerCount_lt (h : Writable documents) : peerCount documents < UInt64.size := by
  refine foldl_max_lt (by decide) fun n hn => ?_
  obtain ⟨p, hp, rfl⟩ := List.mem_map.1 hn
  exact h.bounded p hp

/-! ### What the rows hold -/

theorem holdsNodes (h : Writable documents) (hp : p ∈ requirementsOf documents) (n : Nat) :
    HoldsNodes (peerCount documents) (nodeGroups documents)
      (rowOf (headersOf documents) (rowCells p.1 p.2 n)) Relation.text
      (nthNodes (linkedNodes p.2) n) where
  cells := fun column hcolumn =>
    (Table.cell_map _ hcolumn).trans (by rw [lookup_rowCells_header])
  once := nthNodes_once _ n
  grouped := fun q hq => groupOf_mem_nodeGroups hp (mem_of_mem_nthNodes hq)
  plain := fun q hq => h.node p hp q (mem_of_mem_nthNodes hq)
  trimmed := fun q _ => by cases q.1 <;> decide +kernel
  read := fun q _ => relationOr_text q.1 .linkedTo
  filled := fun q _ => .inl (by cases q.1 <;> decide)

theorem holdsPeers (h : Writable documents) (hp : p ∈ requirementsOf documents) (n : Nat) :
    HoldsPeers (headersOf documents) (rowOf (headersOf documents) (rowCells p.1 p.2 n))
      (peersAt p.2 n) := by
  intro i attr hattr
  by_cases hmem : peerHeader i attr ∈ headersOf documents
  · refine (Table.cell_map _ hmem).trans ?_
    rw [lookup_rowCells_peerHeader hattr]
    cases hq : (peersAt p.2 n)[i]? with
    | none =>
      rw [Option.map_none, Option.getD_none]
      decide +kernel
    | some q =>
      have hplain := h.peer p hp q (mem_of_mem_peersAt (List.mem_of_getElem? hq))
      have htext : Text.trim q.1.text = q.1.text := by cases q.1 <;> decide +kernel
      rw [Option.map_some, Option.getD_some]
      unfold peerValue
      split
      · exact hplain.externalId
      · split
        · exact hplain.name
        · exact htext
  · -- there are as many columns as a requirement has linked ones at most
    have hnone : (peersAt p.2 n)[i]? = none := by
      rw [List.getElem?_eq_none_iff]
      by_contra hi
      have hlength := length_peersAt_le p.2 n
      have hcount := length_le_peerCount hp
      have hindex : i < peerCount documents := by omega
      exact hmem (mem_sheetHeaders.2 (.inr (.inl ⟨i, hindex, attr, hattr, rfl⟩)))
    rw [Table.cell_eq_empty _ hmem, hnone]
    rfl

theorem standalone_holdsNodes (h : Writable documents) {n : Node ι}
    (hn : n ∈ standaloneNodes documents) :
    HoldsNodes (peerCount documents) (nodeGroups documents)
      (rowOf (headersOf documents) (nodeCells "" n)) (fun _ => "") [(.linkedTo, n)] where
  cells := fun column hcolumn => by
    refine (Table.cell_map _ hcolumn).trans ?_
    unfold nodesCells
    rw [List.flatMap_singleton]
  once := List.nodup_singleton _
  grouped := fun q hq => by
    rw [List.mem_singleton.1 hq]
    exact groupOf_mem_nodeGroups_of_standalone hn
  plain := fun q hq => by
    rw [List.mem_singleton.1 hq]
    exact (h.standalone n hn).1
  trimmed := fun _ _ => by decide +kernel
  read := fun q hq => by
    rw [List.mem_singleton.1 hq]
    rfl
  filled := fun q hq => by
    rw [List.mem_singleton.1 hq]
    exact .inr (h.standalone n hn).2

/-! ### What is read of the rows -/

theorem rowDocuments_standalone (h : Writable documents) {n : Node ι}
    (hn : n ∈ standaloneNodes documents) :
    ∃ ds, rowDocuments (sheetLayout (peerCount documents) (nodeGroups documents))
        (rowOf (headersOf documents) (nodeCells "" n)) = .ok ds ∧
      ∀ d, d ∈ ds ↔ d = .ofNode n.bare := by
  have hname : Table.cell (headersOf documents) (rowOf (headersOf documents) (nodeCells "" n))
      nameHeader = "" := by
    refine (Table.cell_map _ (mem_sheetHeaders.2 (.inl (by decide)))).trans ?_
    have hnone : (nodeCells "" n).lookup nameHeader = none := by
      rw [List.lookup_eq_none_iff]
      intro q hq
      obtain ⟨attr, -, rfl⟩ := List.mem_map.1 hq
      rw [bne_iff_ne]
      exact (header_ne_own _ (by decide)).symm
    rw [hnone]
    decide +kernel
  obtain ⟨ds, hds, hmem⟩ :=
    rowDocuments_of_no_name h.nodeGroups_trimmed (h.standalone_holdsNodes hn) hname
  refine ⟨ds, hds, fun d => ?_⟩
  rw [hmem]
  simp

/-- A row of a requirement is read as the part of its links that stands on the row. -/
theorem rowDocuments_requirement (h : Writable documents) (hp : p ∈ requirementsOf documents)
    (n : Nat) :
    ∃ links, rowDocuments (sheetLayout (peerCount documents) (nodeGroups documents))
        (rowOf (headersOf documents) (rowCells p.1 p.2 n)) =
          .ok (.mk (.requirement p.1.bare) links :: containedPeers p.1.bare links) ∧
      ∀ l, l ∈ links ↔
        (∃ q ∈ nthNodes (linkedNodes p.2) n, l = .mk q.1 (.ofNode q.2.bare)) ∨
          ∃ q ∈ peersAt p.2 n, l = .mk q.1 (.ofRequirement q.2.stub) := by
  have hlength : (peersAt p.2 n).length ≤ peerCount documents :=
    (length_peersAt_le p.2 n).trans (length_le_peerCount hp)
  have hown : ∀ own ∈ [idHeader, nameHeader, descriptionHeader],
      Table.cell (headersOf documents) (rowOf (headersOf documents) (rowCells p.1 p.2 n)) own =
        Text.trim (((requirementCells p.1).lookup own).getD "") := by
    intro own hmem
    rw [← lookup_rowCells_own hmem p.1 p.2 n]
    exact Table.cell_map _ (mem_sheetHeaders.2 (.inl hmem))
  obtain ⟨hid, hname, hdescription⟩ := lookup_requirementCells p.1
  have hplain := h.requirement p hp
  refine rowDocuments_of_name h.nodeGroups_trimmed hplain (h.holdsNodes hp n) (h.holdsPeers hp n)
    (fun q hq => h.peer p hp q (mem_of_mem_peersAt hq)) hlength h.peerCount_lt ?_ ?_ ?_
  · refine (hown _ (by decide)).trans ?_
    rw [hid]
    exact hplain.externalId
  · refine (hown _ (by decide)).trans ?_
    rw [hname]
    exact hplain.name
  · refine (hown _ (by decide)).trans ?_
    rw [hdescription]
    exact hplain.description

end Writable

/-! ### What is read of all rows -/

/-- The document of what a requirement contains, linked back to the requirement. -/
def containedDocument (r : Requirement ι) (k : Link ι) : Document Unit :=
  .mk k.peer.entity.stub [.mk .partOf (.ofRequirement r.bare)]

/-- Whether some documents are what is read of the sheet of others. -/
structure Reads (documents : List (Document ι)) (read : List (Document Unit)) : Prop where
  sort : ∀ d ∈ read,
    (∃ p ∈ requirementsOf documents, d.entity = .requirement p.1.bare ∧
      ∀ l ∈ d.links, ∃ k ∈ p.2, l = k.bare) ∨
    (∃ p ∈ requirementsOf documents, ∃ k ∈ p.2, k.relation = .contains ∧
      d = containedDocument p.1 k) ∨
    ∃ n ∈ standaloneNodes documents, d = .ofNode n.bare
  requirement : ∀ p ∈ requirementsOf documents, ∃ d ∈ read, d.entity = .requirement p.1.bare
  link : ∀ p ∈ requirementsOf documents, ∀ k ∈ p.2,
    ∃ d ∈ read, d.entity = .requirement p.1.bare ∧ k.bare ∈ d.links
  contained : ∀ p ∈ requirementsOf documents, ∀ k ∈ p.2, k.relation = .contains →
    containedDocument p.1 k ∈ read
  standalone : ∀ n ∈ standaloneNodes documents, .ofNode n.bare ∈ read

theorem mem_containedPeers {r : Requirement ι} {links : List (Link Unit)} {k : Link ι}
    (hk : k.bare ∈ links) (hcontains : k.relation = .contains) :
    containedDocument r k ∈ containedPeers r.bare links :=
  List.mem_map.2 ⟨k.bare, List.mem_filter.2 ⟨hk, decide_eq_true hcontains⟩, rfl⟩

theorem eq_of_mem_containedPeers {r : Requirement ι} {all : List (Link ι)}
    {links : List (Link Unit)} (hlinks : ∀ l ∈ links, ∃ k ∈ all, l = k.bare) {d : Document Unit}
    (hd : d ∈ containedPeers r.bare links) :
    ∃ k ∈ all, k.relation = .contains ∧ d = containedDocument r k := by
  obtain ⟨l, hl, rfl⟩ := List.mem_map.1 hd
  obtain ⟨hmem, hcontains⟩ := List.mem_filter.1 hl
  obtain ⟨k, hk, rfl⟩ := hlinks l hmem
  exact ⟨k, hk, of_decide_eq_true hcontains, rfl⟩

theorem eq_bare_of_row {links : List (Link ι)} {n : Nat} {l : Link Unit}
    (h : (∃ q ∈ nthNodes (linkedNodes links) n, l = .mk q.1 (.ofNode q.2.bare)) ∨
      ∃ q ∈ peersAt links n, l = .mk q.1 (.ofRequirement q.2.stub)) :
    ∃ k ∈ links, l = k.bare := by
  rcases h with ⟨q, hq, rfl⟩ | ⟨q, hq, rfl⟩
  · obtain ⟨k, hk, hrelation, hpeer⟩ := mem_linkedNodes.1 (mem_of_mem_nthNodes hq)
    refine ⟨k, hk, ?_⟩
    unfold Link.bare
    rw [hrelation, hpeer]
    rfl
  · obtain ⟨k, hk, hrelation, hpeer⟩ := mem_linkedRequirements.1 (mem_of_mem_peersAt hq)
    refine ⟨k, hk, ?_⟩
    unfold Link.bare
    rw [hrelation, hpeer]
    rfl

/-- Every link of a requirement stands on one of its rows. -/
theorem exists_row {links : List (Link ι)} {k : Link ι} (hk : k ∈ links) :
    ∃ n < rowCount (linkedNodes links),
      (∃ q ∈ nthNodes (linkedNodes links) n, k.bare = .mk q.1 (.ofNode q.2.bare)) ∨
        ∃ q ∈ peersAt links n, k.bare = .mk q.1 (.ofRequirement q.2.stub) := by
  cases hpeer : k.peer.entity with
  | node m =>
    have hq : (k.relation, m) ∈ linkedNodes links := mem_linkedNodes.2 ⟨k, hk, rfl, hpeer⟩
    obtain ⟨n, hn, hmem⟩ := exists_mem_nthNodes hq
    refine ⟨n, hn, .inl ⟨_, hmem, ?_⟩⟩
    unfold Link.bare
    rw [hpeer]
    rfl
  | requirement r =>
    have hq : (k.relation, r) ∈ linkedRequirements links :=
      mem_linkedRequirements.2 ⟨k, hk, rfl, hpeer⟩
    have hpos : 0 < rowCount (linkedNodes links) := by
      unfold rowCount
      omega
    refine ⟨0, hpos, .inr ⟨_, hq, ?_⟩⟩
    unfold Link.bare
    rw [hpeer]
    rfl

/-- The rows below the headers of a written sheet. -/
def sheetRows (documents : List (Document ι)) : List (List String) :=
  (requirementsOf documents).flatMap
      (fun p => requirementRows (headersOf documents) p.1 p.2) ++
    (standaloneNodes documents).map fun n => rowOf (headersOf documents) (nodeCells "" n)

theorem mem_sheetRows {row : List String} :
    row ∈ sheetRows documents ↔
      (∃ p ∈ requirementsOf documents, ∃ n < rowCount (linkedNodes p.2),
        row = rowOf (headersOf documents) (rowCells p.1 p.2 n)) ∨
      ∃ n ∈ standaloneNodes documents, row = rowOf (headersOf documents) (nodeCells "" n) := by
  unfold sheetRows
  rw [List.mem_append, List.mem_flatMap, List.mem_map]
  simp only [requirementRows_eq, List.mem_map, List.mem_range, eq_comm]

theorem decode_encode_eq (h : Writable documents) :
    decode (encode documents) =
      .ok (addRows (sheetLayout (peerCount documents) (nodeGroups documents)) .empty 1
        (sheetRows documents)).decoded := by
  have hwidth : ∀ row ∈ sheetRows documents,
      row.length = (Table.ofHeaders (headersOf documents)).headers.length := by
    intro row hrow
    rcases mem_sheetRows.1 hrow with ⟨p, -, n, -, rfl⟩ | ⟨n, -, rfl⟩ <;> exact List.length_map ..
  have hrows := rows_pushAll (Table.ofHeaders (headersOf documents)) hwidth
  have hheaders := headers_pushAll (Table.ofHeaders (headersOf documents)) (sheetRows documents)
  have hlayout : Layout.ofHeaders (sheetHeaders (peerCount documents) (nodeGroups documents)) =
      .ok (sheetLayout (peerCount documents) (nodeGroups documents)) :=
    ofHeaders_sheetHeaders h.nodeGroups_trimmed h.peerCount_lt.le
  change Except.map _ (Layout.ofHeaders
    (pushAll (Table.ofHeaders (headersOf documents)) (sheetRows documents)).headers) = _
  rw [hheaders]
  change Except.map _ (Layout.ofHeaders (headersOf documents)) = _
  rw [headersOf_eq, hlayout]
  change Except.ok (addRows _ .empty 1
    (pushAll (Table.ofHeaders (headersOf documents)) (sheetRows documents)).rows).decoded = _
  rw [hrows]
  rfl

theorem Writable.shown (h : Writable documents) {E : Entity ι → Prop}
    (hrequirements : ∀ p ∈ requirementsOf documents, E (.requirement p.1) ∧
      ∀ k ∈ p.2, E k.peer.entity)
    (hnodes : ∀ n ∈ standaloneNodes documents, E (.node n)) {row : List String}
    (hrow : row ∈ sheetRows documents) :
    ∃ ds, rowDocuments (sheetLayout (peerCount documents) (nodeGroups documents)) row = .ok ds ∧
      ∀ d ∈ ds, ∃ e, E e ∧ e.Shows d.entity := by
  rcases mem_sheetRows.1 hrow with ⟨p, hp, n, -, rfl⟩ | ⟨n, hn, rfl⟩
  · obtain ⟨links, hread, hlinks⟩ := h.rowDocuments_requirement hp n
    refine ⟨_, hread, fun d hd => ?_⟩
    rcases List.mem_cons.1 hd with rfl | hd
    · exact ⟨_, (hrequirements p hp).1, .inl rfl⟩
    · obtain ⟨k, hk, -, rfl⟩ :=
        eq_of_mem_containedPeers (fun l hl => eq_bare_of_row ((hlinks l).1 hl)) hd
      exact ⟨_, (hrequirements p hp).2 k hk, .inr rfl⟩
  · obtain ⟨ds, hread, hmem⟩ := h.rowDocuments_standalone hn
    refine ⟨ds, hread, fun d hd => ?_⟩
    rw [(hmem d).1 hd]
    exact ⟨_, hnodes n hn, .inl rfl⟩

theorem Writable.reads (h : Writable documents) {read : List (Document Unit)}
    (hmem : ∀ d, d ∈ read ↔ ∃ row ∈ sheetRows documents, ∃ ds,
      rowDocuments (sheetLayout (peerCount documents) (nodeGroups documents)) row = .ok ds ∧
        d ∈ ds) : Reads documents read := by
  have hrow : ∀ p ∈ requirementsOf documents, ∀ n < rowCount (linkedNodes p.2),
      ∃ links, .mk (.requirement p.1.bare) links ∈ read ∧
        (∀ k, k ∈ containedPeers p.1.bare links → k ∈ read) ∧
        ∀ l, l ∈ links ↔
          (∃ q ∈ nthNodes (linkedNodes p.2) n, l = .mk q.1 (.ofNode q.2.bare)) ∨
            ∃ q ∈ peersAt p.2 n, l = .mk q.1 (.ofRequirement q.2.stub) := by
    intro p hp n hn
    obtain ⟨links, hread, hlinks⟩ := h.rowDocuments_requirement hp n
    have hin := mem_sheetRows.2 (.inl ⟨p, hp, n, hn, rfl⟩)
    refine ⟨links, (hmem _).2 ⟨_, hin, _, hread, List.mem_cons_self⟩, fun k hk => ?_, hlinks⟩
    exact (hmem _).2 ⟨_, hin, _, hread, List.mem_cons_of_mem _ hk⟩
  refine ⟨fun d hd => ?_, fun p hp => ?_, fun p hp k hk => ?_, fun p hp k hk hcontains => ?_,
    fun n hn => ?_⟩
  · obtain ⟨row, hrow, ds, hds, hd⟩ := (hmem d).1 hd
    rcases mem_sheetRows.1 hrow with ⟨p, hp, n, -, rfl⟩ | ⟨n, hn, rfl⟩
    · obtain ⟨links, hread, hlinks⟩ := h.rowDocuments_requirement hp n
      obtain rfl := Except.ok.inj (hds.symm.trans hread)
      have hbare : ∀ l ∈ links, ∃ k ∈ p.2, l = k.bare := fun l hl =>
        eq_bare_of_row ((hlinks l).1 hl)
      rcases List.mem_cons.1 hd with rfl | hd
      · exact .inl ⟨p, hp, rfl, hbare⟩
      · exact .inr (.inl ⟨p, hp, eq_of_mem_containedPeers hbare hd⟩)
    · obtain ⟨ds', hread, hmem'⟩ := h.rowDocuments_standalone hn
      obtain rfl := Except.ok.inj (hds.symm.trans hread)
      exact .inr (.inr ⟨n, hn, (hmem' d).1 hd⟩)
  · have hpos : 0 < rowCount (linkedNodes p.2) := by
      unfold rowCount
      omega
    obtain ⟨links, hlinks, -, -⟩ := hrow p hp 0 hpos
    exact ⟨_, hlinks, rfl⟩
  · obtain ⟨n, hn, hstands⟩ := exists_row hk
    obtain ⟨links, hread, -, hlinks⟩ := hrow p hp n hn
    exact ⟨_, hread, rfl, (hlinks _).2 hstands⟩
  · obtain ⟨n, hn, hstands⟩ := exists_row hk
    obtain ⟨links, -, hcontained, hlinks⟩ := hrow p hp n hn
    exact hcontained _ (mem_containedPeers ((hlinks _).2 hstands) hcontains)
  · obtain ⟨ds, hread, hmem'⟩ := h.rowDocuments_standalone hn
    exact (hmem _).2 ⟨_, mem_sheetRows.2 (.inr ⟨n, hn, rfl⟩), ds, hread, (hmem' _).2 rfl⟩

/-- The sheet of some documents is read without a failure, and what is read is merged. -/
theorem decode_encode_reads (h : Writable documents) {E : Entity ι → Prop}
    (hkeys : ∀ e e', E e → E e' → mergeKey e = mergeKey e' → e = e')
    (hrequirements : ∀ p ∈ requirementsOf documents, E (.requirement p.1) ∧
      ∀ k ∈ p.2, E k.peer.entity)
    (hnodes : ∀ n ∈ standaloneNodes documents, E (.node n)) :
    ∃ read entries, decode (encode documents) = .ok ⟨entries.map (·.2), []⟩ ∧
      Merged.Merges E read entries ∧ Reads documents read := by
  have hshown : ∀ row ∈ sheetRows documents, ∃ ds,
      rowDocuments (sheetLayout (peerCount documents) (nodeGroups documents)) row = .ok ds ∧
        ∀ d ∈ ds, ∃ e, E e ∧ e.Shows d.entity :=
    fun row hrow => h.shown hrequirements hnodes hrow
  obtain ⟨read, hmerges, hfailures, hmem⟩ :=
    (Merged.merges_nil E).addRows hkeys (m := .empty) 1 hshown
  rw [List.nil_append] at hmerges
  refine ⟨read, _, ?_, hmerges, h.reads hmem⟩
  rw [decode_encode_eq h]
  unfold Merged.decoded
  rw [hfailures]
  rfl

end Sheet

end Crosswalk
