import Crosswalk.Proofs.Exchange.RowRead

/-!
# Columns of linked requirements

A column of names of linked requirements is looked for under the header that is written for its
number. Where a header is spelled so, every name in the column becomes a link. Other spellings of the
number are accepted, but their column is not looked at.
-/

namespace Crosswalk.Sheet

open Merged

variable {layout : Layout}

/-- A row with a name and with a name in a column of linked requirements is listed with its number,
or its requirement is read with a link to the requirement in that column. The header is to be spelled
as it is written, with a number that is not the greatest one. -/
theorem decode_linked {t : Table} (h : Layout.ofHeaders t.headers = .ok layout) :
    ∃ decoded, decode t = .ok decoded ∧ ∀ (n : Nat) (row : List String), t.rows[n]? = some row →
      Table.cell t.headers row nameHeader ≠ "" →
      ∀ header ∈ t.headers, ∀ i, peerColumn? header = some (i, "name") →
        header = peerHeader i "name" → i + 1 < UInt64.size →
        Table.cell t.headers row header ≠ "" →
        n + 1 ∈ decoded.failures.map (·.1) ∨
          ∃ d ∈ decoded.documents, ∃ name,
            d.entity.title? = some (Table.cell t.headers row idHeader, name) ∧
            (Table.cell t.headers row idHeader = "" → name = Table.cell t.headers row nameHeader) ∧
            ∃ l ∈ d.links,
              relationOr (Table.cell t.headers row (peerHeader i "link_type")) .related =
                .ok l.relation ∧
              l.peer.entity.title? = some (Table.cell t.headers row (peerHeader i "id"),
                Table.cell t.headers row header) := by
  refine ⟨_, decode_eq h, ?_⟩
  rintro n row hrow hname header hheader i - rfl hi hpeer
  obtain ⟨more, -, hunites, hrows⟩ := unites_nil.addResults (m := empty) 1
    (t.rows.map (rowDocuments layout))
  have hresult : (t.rows.map (rowDocuments layout))[n]? = some (rowDocuments layout row) := by
    simp [hrow]
  rw [← layout_headers h] at hname hheader hpeer ⊢
  rw [Nat.add_comm]
  refine (hrows n _ hresult).imp_right ?_
  rintro ⟨ds, hds, hsub⟩
  have hindex : i ∈ layout.peers := by
    rw [layout_peers h, ← layout_headers h]
    exact mem_peerIndices (by decide) hi hheader
  obtain ⟨externalId, hid, d, hd, hentity, relation, hrelation, htold⟩ :=
    told_of_rowDocuments hds hname hindex hpeer
  obtain ⟨p, hp, ⟨name, htitle, hnone⟩, l, hl, hlrelation, hlpeer⟩ :=
    hunites.exists_told (hsub hd) hentity htold
  refine ⟨p.2, List.mem_map_of_mem hp, name, ?_, fun hblank => hnone ?_, l, hl, ?_, hlpeer⟩
  · rw [htitle, ← hid]
    rfl
  · rw [← hid] at hblank
    exact ExternalId.textOf_injective (b := none) hblank
  · rw [hrelation, hlrelation]

/-- A requirement that is linked to another one. -/
def oneLinked : Table where
  headers := [nameHeader, peerHeader 0 "name"]
  rows := [["A", "B"]]
  widths := by decide +kernel

theorem decode_linked_one :
    ∃ decoded, decode oneLinked = .ok decoded ∧
      (1 ∈ decoded.failures.map (·.1) ∨ ∃ d ∈ decoded.documents, d.entity.title? = some ("", "A") ∧
        ∃ l ∈ d.links, l.relation = .related ∧ l.peer.entity.title? = some ("", "B")) := by
  have hheaders : (Layout.ofHeaders oneLinked.headers).toBool = true := by decide +kernel
  cases h : Layout.ofHeaders oneLinked.headers with
  | error failure =>
    rw [h] at hheaders
    cases hheaders
  | ok layout =>
    have hcells : Table.cell oneLinked.headers ["A", "B"] idHeader = "" ∧
        Table.cell oneLinked.headers ["A", "B"] nameHeader = "A" ∧
        Table.cell oneLinked.headers ["A", "B"] (peerHeader 0 "id") = "" ∧
        Table.cell oneLinked.headers ["A", "B"] (peerHeader 0 "name") = "B" ∧
        Table.cell oneLinked.headers ["A", "B"] (peerHeader 0 "link_type") = "" := by
      decide +kernel
    obtain ⟨hid, hname, hpeerId, hpeer, htype⟩ := hcells
    obtain ⟨decoded, hdecode, hlinked⟩ := decode_linked h
    have hrow := hlinked 0 ["A", "B"] rfl (by rw [hname]; decide) (peerHeader 0 "name")
      (by decide +kernel) 0 (by decide +kernel) rfl (by decide) (by rw [hpeer]; decide)
    rw [hid, hname, hpeerId, hpeer, htype] at hrow
    refine ⟨decoded, hdecode, hrow.imp_right ?_⟩
    rintro ⟨d, hd, name, htitle, hblank, l, hl, hrelation, hpeer⟩
    rw [hblank rfl] at htitle
    have hrelated : Except.ok Relation.related = Except.ok (ε := Failure) l.relation := hrelation
    exact ⟨d, hd, htitle, l, hl, (Except.ok.inj hrelated).symm, hpeer⟩

/-- A requirement that is linked to another one, with a number that is not spelled as written. -/
def paddedNumber : Table where
  headers := [nameHeader, "Linked_CRE_01:name"]
  rows := [["A", "B"]]
  widths := by decide

/-- A column whose number has a leading zero is accepted, and its name is lost. -/
theorem exists_peer_lost :
    ∃ decoded, decode paddedNumber = .ok decoded ∧ decoded.failures = [] ∧
      decoded.documents.map (·.entity.title?) = [some ("", "A")] ∧
      ¬ ∀ (n : Nat) (row : List String), paddedNumber.rows[n]? = some row →
        Table.cell paddedNumber.headers row nameHeader ≠ "" →
        ∀ header ∈ paddedNumber.headers, ∀ i, peerColumn? header = some (i, "name") →
          Table.cell paddedNumber.headers row header ≠ "" →
          n + 1 ∈ decoded.failures.map (·.1) ∨
            ∃ d ∈ decoded.documents, ∃ r, d.entity = .requirement r ∧
              r.name = Table.cell paddedNumber.headers row nameHeader ∧
              ∃ l ∈ d.links, ∃ q, l.peer.entity = .requirement q ∧
                q.name = Table.cell paddedNumber.headers row header := by
  have hread : (decode paddedNumber).toOption.map (fun decoded =>
      (decoded.failures, decoded.documents.map (·.entity.title?),
        decoded.documents.flatMap (·.links.map (·.relation)))) =
      some ([], [some ("", "A")], []) := by decide +kernel
  cases hdecode : decode paddedNumber with
  | error failure =>
    rw [hdecode] at hread
    cases hread
  | ok decoded =>
    rw [hdecode] at hread
    obtain ⟨hfailures, hrest⟩ := Prod.mk.inj (Option.some.inj hread)
    obtain ⟨htitles, hlinks⟩ := Prod.mk.inj hrest
    refine ⟨decoded, rfl, hfailures, htitles, fun hall => ?_⟩
    have hlinked := hall 0 ["A", "B"] rfl (by decide +kernel) "Linked_CRE_01:name" (by decide) 1
      (by decide +kernel) (by decide +kernel)
    rcases hlinked with hfailed | ⟨d, hd, r, -, -, l, hl, -⟩
    · rw [hfailures] at hfailed
      cases hfailed
    · have hlink : l.relation ∈ decoded.documents.flatMap (·.links.map (·.relation)) :=
        List.mem_flatMap.2 ⟨d, hd, List.mem_map_of_mem hl⟩
      rw [hlinks] at hlink
      cases hlink

end Crosswalk.Sheet
