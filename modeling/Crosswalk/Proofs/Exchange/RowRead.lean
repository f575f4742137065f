import Crosswalk.Proofs.Exchange.Reading

/-!
# What is read from a row

A row of a sheet without a name is read as its nodes. Any other row is read as the requirement that
it names, linked to its nodes and to every requirement that its columns of linked requirements name,
and as the peers that this requirement contains.
-/

namespace Crosswalk

namespace Sheet

variable {layout : Layout} {headers row : List String} {i : Nat} {l : Link Unit}
  {ds : List (Document Unit)} {d : Document Unit}

theorem addRows_eq (layout : Layout) (m : Merged) (number : Nat) (rows : List (List String)) :
    addRows layout m number rows = m.addResults number (rows.map (rowDocuments layout)) := by
  induction rows generalizing m number with
  | nil => rfl
  | cons row rows ih => simp [addRows, Merged.addResults, ih]

theorem decode_eq {t : Table} (h : Layout.ofHeaders t.headers = .ok layout) :
    decode t = .ok (Merged.empty.addResults 1 (t.rows.map (rowDocuments layout))).decoded := by
  rw [decode, h, ← addRows_eq]
  rfl

theorem layout_peers (h : Layout.ofHeaders headers = .ok layout) :
    layout.peers = peerIndices headers := by
  obtain ⟨columns, -, h⟩ := bind_eq_ok.1 h
  split at h
  · cases h
  · cases h
    rfl

/-! ### Linked requirements -/

theorem rowPeer?_some (h : rowPeer? headers row i = .ok (some l)) :
    ∃ relation externalId, relationOr (Table.cell headers row (peerHeader i "link_type")) .related =
        .ok relation ∧
      ExternalId.textOf externalId = Table.cell headers row (peerHeader i "id") ∧
      Table.cell headers row (peerHeader i "name") ≠ "" ∧
      l = .mk relation (.ofRequirement
        ⟨(), externalId, Table.cell headers row (peerHeader i "name"), "", .empty⟩) := by
  unfold rowPeer? at h
  by_cases hname : Table.cell headers row (peerHeader i "name") = ""
  · -- without a name there is no link, or the row is refused
    simp only [hname, true_and, if_true] at h
    split at h <;> cases h
  · simp only [hname, false_and, if_false] at h
    obtain ⟨externalId, hid, h⟩ := bind_eq_ok.1 h
    obtain ⟨relation, hrelation, h⟩ := bind_eq_ok.1 h
    cases h
    exact ⟨relation, externalId, hrelation, readExternalId_ok (trim_cell ..) hid, hname, rfl⟩

theorem isSome_rowPeer? {found : Option (Link Unit)} (h : rowPeer? headers row i = .ok found)
    (hname : Table.cell headers row (peerHeader i "name") ≠ "") : ∃ l, found = some l := by
  unfold rowPeer? at h
  simp only [hname, false_and, if_false] at h
  obtain ⟨externalId, -, h⟩ := bind_eq_ok.1 h
  obtain ⟨relation, -, h⟩ := bind_eq_ok.1 h
  cases h
  exact ⟨_, rfl⟩

/-! ### Rows -/

/-- The requirement that a row names, but for the identifier, which may not be one. -/
def ownRequirement (headers row : List String) (externalId : Option ExternalId) : Requirement Unit :=
  ⟨(), externalId, Table.cell headers row nameHeader, Table.cell headers row descriptionHeader,
    .empty⟩

theorem rowDocuments_cases (h : rowDocuments layout row = .ok ds) :
    ∃ nodes, rowNodes layout.groups row = .ok nodes ∧
      ((Table.cell layout.headers row nameHeader = "" ∧ ds = nodes.map fun p => .ofNode p.2) ∨
        (Table.cell layout.headers row nameHeader ≠ "" ∧ ∃ externalId peers,
          ExternalId.textOf externalId = Table.cell layout.headers row idHeader ∧
          layout.peers.mapM (rowPeer? layout.headers row) = .ok peers ∧ ∃ links,
            links = (nodes.map fun p => Link.mk p.1 (.ofNode p.2)) ++ peers.filterMap id ∧
            ds = .mk (.requirement (ownRequirement layout.headers row externalId)) links ::
              containedPeers (ownRequirement layout.headers row externalId) links)) := by
  obtain ⟨nodes, hnodes, h⟩ := bind_eq_ok.1 h
  refine ⟨nodes, hnodes, ?_⟩
  by_cases hname : Table.cell layout.headers row nameHeader = ""
  · simp only [hname, if_true] at h
    cases h
    exact .inl ⟨hname, rfl⟩
  · simp only [hname, if_false] at h
    obtain ⟨externalId, hid, h⟩ := bind_eq_ok.1 h
    obtain ⟨peers, hpeers, h⟩ := bind_eq_ok.1 h
    cases h
    exact .inr ⟨hname, externalId, peers, readExternalId_ok (trim_cell ..) hid, hpeers, _, rfl, rfl⟩

theorem entity_of_mem_containedPeers {r : Requirement Unit} {links : List (Link Unit)}
    (h : d ∈ containedPeers r links) : ∃ l ∈ links, d.entity = l.peer.entity := by
  obtain ⟨l, hl, rfl⟩ := List.mem_map.1 h
  exact ⟨l, (List.mem_filter.1 hl).1, Document.entity_addLink⟩

/-- The requirements that a row mentions, by identifier and name: its own one and the linked ones. -/
def mentions (headers row : List String) : List (String × String) :=
  ((Table.cell headers row idHeader, Table.cell headers row nameHeader) ::
    (peerIndices headers).map fun i => (Table.cell headers row (peerHeader i "id"),
      Table.cell headers row (peerHeader i "name"))).filter fun p => p.2 ≠ ""

/-- What is read from a row is a requirement that it mentions or one of its nodes. -/
theorem of_mem_rowDocuments (h : rowDocuments layout row = .ok ds)
    (hpeers : layout.peers = peerIndices layout.headers) (hd : d ∈ ds) :
    (∃ r, d.entity = .requirement r ∧ (r.externalText, r.name) ∈ mentions layout.headers row) ∨
      ∃ nodes, rowNodes layout.groups row = .ok nodes ∧ ∃ p ∈ nodes, d.entity = .node p.2 := by
  obtain ⟨nodes, hnodes, ⟨-, rfl⟩ | ⟨hname, externalId, peers, hid, hread, links, hlinks, rfl⟩⟩ :=
    rowDocuments_cases h
  · obtain ⟨p, hp, rfl⟩ := List.mem_map.1 hd
    exact .inr ⟨nodes, hnodes, p, hp, rfl⟩
  · rcases List.mem_cons.1 hd with rfl | hd
    · refine .inl ⟨_, rfl, List.mem_filter.2 ⟨List.mem_cons.2 (.inl ?_), decide_eq_true hname⟩⟩
      exact Prod.ext hid rfl
    · obtain ⟨l, hl, hentity⟩ := entity_of_mem_containedPeers hd
      rw [hlinks, List.mem_append] at hl
      rcases hl with hl | hl
      · obtain ⟨p, hp, rfl⟩ := List.mem_map.1 hl
        exact .inr ⟨nodes, hnodes, p, hp, hentity⟩
      · obtain ⟨found, hfound, rfl : found = some l⟩ := List.mem_filterMap.1 hl
        obtain ⟨i, hi, hpeer⟩ := (mem_mapM hread).1 hfound
        obtain ⟨relation, externalId, -, hid, hname, rfl⟩ := rowPeer?_some hpeer
        refine .inl ⟨_, hentity, List.mem_filter.2 ⟨List.mem_cons_of_mem _ ?_, decide_eq_true hname⟩⟩
        exact List.mem_map.2 ⟨i, hpeers ▸ hi, Prod.ext hid.symm rfl⟩

/-- The requirement of a row is linked to every requirement that has a name in a column for which
is looked. -/
theorem told_of_rowDocuments (h : rowDocuments layout row = .ok ds)
    (hname : Table.cell layout.headers row nameHeader ≠ "") (hi : i ∈ layout.peers)
    (hpeer : Table.cell layout.headers row (peerHeader i "name") ≠ "") :
    ∃ externalId, ExternalId.textOf externalId = Table.cell layout.headers row idHeader ∧
      ∃ d ∈ ds, d.entity = .requirement (ownRequirement layout.headers row externalId) ∧
        ∃ relation, relationOr (Table.cell layout.headers row (peerHeader i "link_type")) .related =
            .ok relation ∧
          (relation, NaturalKey.requirement (Table.cell layout.headers row (peerHeader i "id"))
            (Table.cell layout.headers row (peerHeader i "name"))) ∈ d.told := by
  obtain ⟨nodes, -, ⟨hblank, -⟩ | ⟨-, externalId, peers, hid, hread, links, hlinks, rfl⟩⟩ :=
    rowDocuments_cases h
  · exact absurd hblank hname
  · obtain ⟨found, hrow⟩ := ok_of_mapM hread i hi
    obtain ⟨l, rfl⟩ := isSome_rowPeer? hrow hpeer
    have hl : l ∈ links := by
      rw [hlinks, List.mem_append, List.mem_filterMap]
      exact .inr ⟨some l, (mem_mapM hread).2 ⟨i, hi, hrow⟩, rfl⟩
    obtain ⟨relation, peerId, hrelation, hpeerId, -, rfl⟩ := rowPeer?_some hrow
    refine ⟨externalId, hid, _, List.mem_cons_self, rfl, relation, hrelation, _, hl, ?_⟩
    exact congrArg (fun id => (relation, NaturalKey.requirement id _)) hpeerId

end Sheet

end Crosswalk
