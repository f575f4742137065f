import Crosswalk.Proofs.Entity.Growth
import Crosswalk.Proofs.Exchange.MergeKey
import Crosswalk.Proofs.Text.Trim

/-!
# What becomes of a row

The requirement that a row names is read, or the row is listed among the failures. Documents only
come in and are only filled in, so what was read under a merge key stays, under the name with which
the key was read first: rows with one public identifier and two names are merged under the first one.
-/

namespace Crosswalk

variable {ι κ : Type}

/-! ### Titles -/

namespace Entity

/-- What a sheet calls a requirement: its public identifier, empty if it has none, and its name. -/
def title? : Entity ι → Option (String × String)
  | .requirement r => some (r.externalText, r.name)
  | .node _ => none

/-- What merging never changes. -/
def heading (e : Entity ι) : String × Option (String × String) :=
  (mergeKey e, e.title?)

/-- What is merged with a requirement is a requirement with its public identifier, and with its name
where there is none. -/
theorem title?_of_mergeKey {e : Entity ι} {r : Requirement ι}
    (h : mergeKey e = mergeKey (.requirement r)) :
    ∃ name, e.title? = some (r.externalText, name) ∧ (r.externalId = none → name = r.name) := by
  cases e with
  | requirement q =>
    obtain ⟨hid, hname⟩ := eq_of_mergeKey_requirement h
    refine ⟨q.name, ?_, fun hnone => hname (hid.trans hnone)⟩
    rw [title?, Requirement.externalText, Requirement.externalText, hid]
  | node n => exact absurd h.symm (mergeKey_requirement_ne_node r n)

end Entity

theorem Requirement.externalId_enrich {stored filled : Requirement ι} {incoming : Requirement κ}
    {changed : Bool} (h : stored.enrich incoming = .ok (filled, changed))
    (heq : stored.externalId = incoming.externalId) : filled.externalId = stored.externalId := by
  obtain ⟨externalId, _, _, _, _, _, hid, -, -, rfl, -⟩ := enrich_ok h
  have htext : incoming.externalText = stored.externalText := by
    rw [externalText, externalText, heq]
  rw [fillExternalId, htext, fillField_self] at hid
  cases hid
  rfl

namespace Merged

variable {entries entries' : List (String × Document Unit)} {m m' m'' : Merged}
  {d stored filled : Document Unit} {ds ds' : List (Document Unit)}

theorem fillEntity_heading {stored incoming filled : Entity Unit}
    (hkey : mergeKey stored = mergeKey incoming) (h : fillEntity stored incoming = .ok filled) :
    filled.heading = stored.heading := by
  cases stored with
  | requirement r =>
    cases incoming with
    | requirement q =>
      obtain ⟨⟨r', changed⟩, henrich, rfl⟩ := map_eq_ok.1 h
      have hid := Requirement.externalId_enrich henrich (eq_of_mergeKey_requirement hkey).1
      have hname := Requirement.enrich_name henrich
      simp only [Entity.heading, mergeKey, Entity.title?, Requirement.externalText, hid, hname]
    | node n =>
      cases h
      rfl
  | node n =>
    cases incoming with
    | requirement q =>
      cases h
      rfl
    | node n' =>
      obtain ⟨⟨filled, changed⟩, henrich, rfl⟩ := map_eq_ok.1 h
      have hkeys := Node.enrich_key henrich
      simp only [Node.key, NodeKey.mk.injEq] at hkeys
      obtain ⟨hname, hsection, hsubsection, hkind, hdescription, hversion⟩ := hkeys
      simp only [Entity.heading, mergeKey, Entity.title?, hname, hsection, hsubsection, hkind,
        hdescription, hversion]

theorem fillDocument_heading (hkey : mergeKey stored.entity = mergeKey d.entity)
    (h : fillDocument stored d = .ok filled) : filled.entity.heading = stored.entity.heading := by
  obtain ⟨entity, hentity, rfl⟩ := map_eq_ok.1 h
  rw [Document.entity_foldl_addLink]
  exact fillEntity_heading hkey hentity

/-! ### Adding documents -/

/-- The headings of the documents read so far, in their order. -/
def headings (entries : List (String × Document Unit)) : List (String × Option (String × String)) :=
  entries.map fun p => p.2.entity.heading

/-- Every document is filed under its own merge key. -/
def Filed (entries : List (String × Document Unit)) : Prop :=
  ∀ p ∈ entries, p.1 = mergeKey p.2.entity

theorem filed_empty : Filed empty.entries :=
  fun _ hp => absurd hp List.not_mem_nil

theorem filed_cons {p : String × Document Unit} :
    Filed (p :: entries) ↔ p.1 = mergeKey p.2.entity ∧ Filed entries :=
  List.forall_mem_cons

/-- A document whose merge key is known changes no heading, and another one comes in behind. -/
theorem addEntry_headings (hfiled : Filed entries)
    (h : addEntry (mergeKey d.entity) d entries = .ok entries') :
    Filed entries' ∧
      ((headings entries' = headings entries ∧
          ∃ title?, (mergeKey d.entity, title?) ∈ headings entries) ∨
        headings entries' = headings entries ++ [d.entity.heading]) := by
  induction entries generalizing entries' with
  | nil =>
    cases h
    exact ⟨filed_cons.2 ⟨rfl, hfiled⟩, .inr rfl⟩
  | cons p entries ih =>
    obtain ⟨key, stored⟩ := p
    obtain ⟨hkey, hrest⟩ := filed_cons.1 hfiled
    rw [addEntry] at h
    split at h
    · -- the merge key is known: the document is filled in
      rename_i heq
      have hkeys : mergeKey stored.entity = mergeKey d.entity := hkey.symm.trans heq
      obtain ⟨filled, hfill, rfl⟩ := map_eq_ok.1 h
      have hheading := fillDocument_heading hkeys hfill
      refine ⟨filed_cons.2 ⟨hkey.trans (congrArg Prod.fst hheading).symm, hrest⟩, .inl ⟨?_, ?_⟩⟩
      · exact congrArg (· :: headings entries) hheading
      · exact ⟨stored.entity.title?, List.mem_cons.2 (.inl (congrArg (·, _) hkeys.symm))⟩
    · obtain ⟨rest, hadd, rfl⟩ := map_eq_ok.1 h
      obtain ⟨hfiled', hheadings⟩ := ih hrest hadd
      refine ⟨filed_cons.2 ⟨hkey, hfiled'⟩, hheadings.imp ?_ fun hmore => congrArg (_ :: ·) hmore⟩
      rintro ⟨hsame, title?, hmem⟩
      exact ⟨congrArg (_ :: ·) hsame, title?, List.mem_cons_of_mem _ hmem⟩

/-- How reading documents goes on: headings and failures stay, and new headings are those of
documents that were read. -/
structure Grows (ds : List (Document Unit)) (m m' : Merged) : Prop where
  filed : Filed m'.entries
  headings : Merged.headings m.entries <+: Merged.headings m'.entries
  known : Merged.headings m'.entries ⊆ Merged.headings m.entries ++ ds.map (·.entity.heading)
  failures : m.failures <+: m'.failures

theorem Grows.refl (h : Filed m.entries) : m.Grows [] m :=
  ⟨h, List.prefix_rfl, List.subset_append_left _ _, List.prefix_rfl⟩

theorem Grows.trans (h : Grows ds m m') (h' : Grows ds' m' m'') : Grows (ds ++ ds') m m'' where
  filed := h'.filed
  headings := h.headings.trans h'.headings
  known := by
    intro heading hheading
    rw [List.map_append, ← List.append_assoc]
    rcases List.mem_append.1 (h'.known hheading) with hold | hnew
    · exact List.mem_append_left _ (h.known hold)
    · exact List.mem_append_right _ hnew
  failures := h.failures.trans h'.failures

/-- More documents may have been read than came in. -/
theorem Grows.mono (h : Grows ds m m') (hsub : ds ⊆ ds') : Grows ds' m m' where
  filed := h.filed
  headings := h.headings
  known := List.Subset.trans h.known (List.append_subset.2 ⟨List.subset_append_left _ _,
    List.subset_append_of_subset_right _ (List.map_subset _ hsub)⟩)
  failures := h.failures

theorem Grows.fail (h : Filed m.entries) (failure : Nat × Failure) :
    m.Grows [] { m with failures := m.failures ++ [failure] } :=
  ⟨h, List.prefix_rfl, List.subset_append_left _ _, List.prefix_append _ _⟩

theorem Grows.addEntry (hfiled : Filed m.entries)
    (h : Merged.addEntry (mergeKey d.entity) d m.entries = .ok entries') :
    m.Grows [d] { m with entries := entries' } := by
  obtain ⟨hfiled', ⟨hsame, -⟩ | hmore⟩ := addEntry_headings hfiled h
  · refine ⟨hfiled', ?_, ?_, List.prefix_rfl⟩
    · exact hsame ▸ List.prefix_rfl
    · rw [hsame]
      exact List.subset_append_left _ _
  · refine ⟨hfiled', ?_, ?_, List.prefix_rfl⟩
    · rw [hmore]
      exact List.prefix_append _ _
    · rw [hmore]
      exact List.Subset.refl _

theorem Grows.addAll (h : Filed m.entries) (row : Nat) (ds : List (Document Unit)) :
    m.Grows ds (m.addAll row ds) := by
  induction ds generalizing m with
  | nil => exact .refl h
  | cons d ds ih =>
    rw [Merged.addAll]
    split
    · rename_i entries hadd
      have hfirst := Grows.addEntry h hadd
      exact hfirst.trans (ih hfirst.filed)
    · exact (Grows.fail h _).mono (List.nil_subset _)

/-! ### Titles that have been read -/

def Has (m : Merged) (title : String × String) : Prop :=
  ∃ p ∈ m.entries, p.2.entity.title? = some title

theorem has_iff {title : String × String} :
    m.Has title ↔ some title ∈ (headings m.entries).map (·.2) := by
  unfold Has headings
  rw [List.map_map, List.mem_map]
  rfl

theorem Grows.has (h : Grows ds m m') {title : String × String} (hm : m.Has title) :
    m'.Has title :=
  has_iff.2 ((h.headings.map _).subset (has_iff.1 hm))

theorem Grows.of_has (h : Grows ds m m') {title : String × String} (hm : m'.Has title) :
    m.Has title ∨ ∃ d ∈ ds, d.entity.title? = some title := by
  obtain ⟨heading, hheading, htitle⟩ := List.mem_map.1 (has_iff.1 hm)
  rcases List.mem_append.1 (h.known hheading) with hold | hnew
  · exact .inl (has_iff.2 (List.mem_map.2 ⟨heading, hold, htitle⟩))
  · obtain ⟨d, hd, rfl⟩ := List.mem_map.1 hnew
    exact .inr ⟨d, hd, htitle⟩

/-- A requirement that is the first one in a row is read, perhaps under the name that its public
identifier has already, or the row fails. -/
theorem addAll_requirement (h : Filed m.entries) (row : Nat) (r : Requirement Unit)
    (links : List (Link Unit)) (ds : List (Document Unit)) :
    row ∈ (m.addAll row (.mk (.requirement r) links :: ds)).failures.map (·.1) ∨
      ∃ name, (m.addAll row (.mk (.requirement r) links :: ds)).Has (r.externalText, name) ∧
        (name = r.name ∨ r.externalId ≠ none ∧ m.Has (r.externalText, name)) := by
  rw [addAll]
  split
  · rename_i entries hadd
    right
    have hfirst := Grows.addEntry h hadd
    have hrest := Grows.addAll hfirst.filed row ds
    obtain ⟨-, ⟨-, title?, hmem⟩ | hmore⟩ := addEntry_headings h hadd
    · -- what is known under the merge key has the identifier, and the name unless there is one
      obtain ⟨p, hp, hheading⟩ := List.mem_map.1 hmem
      obtain ⟨name, htitle, hname⟩ := Entity.title?_of_mergeKey (congrArg Prod.fst hheading)
      have hhas : m.Has (r.externalText, name) := ⟨p, hp, htitle⟩
      refine ⟨name, hrest.has (hfirst.has hhas), ?_⟩
      by_cases hid : r.externalId = none
      · exact .inl (hname hid)
      · exact .inr ⟨hid, hhas⟩
    · refine ⟨r.name, hrest.has (has_iff.2 ?_), .inl rfl⟩
      rw [hmore, List.map_append]
      exact List.mem_append_right _ (List.mem_singleton_self _)
  · left
    exact List.mem_map.2 ⟨_, List.mem_append_right _ (List.mem_singleton_self _), rfl⟩

end Merged

/-! ### Rows -/

namespace Sheet

open Merged

variable {layout : Layout} {m : Merged} {row : List String} {ds : List (Document Unit)}

/-- The documents in some rows, as far as they can be read. -/
def documentsOf (layout : Layout) (rows : List (List String)) : List (Document Unit) :=
  rows.flatMap fun row => (rowDocuments layout row).toOption.getD []

theorem addRow_grows (h : Filed m.entries) (number : Nat)
    (result : Except Failure (List (Document Unit))) :
    m.Grows (result.toOption.getD []) (m.addRow number result) := by
  cases result with
  | ok ds => exact .addAll h number ds
  | error failure => exact .fail h _

theorem addRows_grows (layout : Layout) (h : Filed m.entries) (number : Nat)
    (rows : List (List String)) :
    m.Grows (documentsOf layout rows) (addRows layout m number rows) := by
  induction rows generalizing m number with
  | nil => exact .refl h
  | cons row rows ih =>
    have hrow := addRow_grows h number (rowDocuments layout row)
    exact hrow.trans (ih hrow.filed (number + 1))

theorem addRows_append (layout : Layout) (m : Merged) (number : Nat)
    (rows rows' : List (List String)) :
    addRows layout m number (rows ++ rows') =
      addRows layout (addRows layout m number rows) (number + rows.length) rows' := by
  induction rows generalizing m number with
  | nil => rfl
  | cons row rows ih =>
    rw [List.cons_append, addRows, addRows, ih, List.length_cons, Nat.add_right_comm, Nat.add_assoc]

theorem readExternalId_ok {s : String} {id : Option ExternalId} (htrim : Text.trim s = s)
    (h : readExternalId s = .ok id) : ExternalId.textOf id = s := by
  unfold readExternalId at h
  split at h
  · rename_i hs
    cases h
    exact hs.symm
  · split at h
    · rename_i externalId hid
      cases h
      exact (ExternalId.text_of_ofText? hid).trans htrim
    · cases h

theorem trim_cell (headers row : List String) (header : String) :
    Text.trim (Table.cell headers row header) = Table.cell headers row header := by
  unfold Table.cell Table.cellAt
  split
  · exact Text.trim_trim _
  · decide +kernel

/-- The first document in a row with a name is the requirement that it names. -/
theorem rowDocuments_named (hname : Table.cell layout.headers row nameHeader ≠ "")
    (h : rowDocuments layout row = .ok ds) :
    ∃ r links rest, ds = .mk (.requirement r) links :: rest ∧
      r.externalText = Table.cell layout.headers row idHeader ∧
      r.name = Table.cell layout.headers row nameHeader := by
  unfold rowDocuments at h
  obtain ⟨nodes, -, h⟩ := bind_eq_ok.1 h
  simp only [hname, if_false] at h
  obtain ⟨externalId, hid, h⟩ := bind_eq_ok.1 h
  obtain ⟨peers, -, h⟩ := bind_eq_ok.1 h
  cases h
  exact ⟨_, _, _, rfl, readExternalId_ok (trim_cell ..) hid, rfl⟩

/-- A row with the name of a requirement: the requirement is read, perhaps under the name that its
public identifier has already, or the row fails. -/
theorem addRow_named (h : Filed m.entries) (number : Nat)
    (hname : Table.cell layout.headers row nameHeader ≠ "") :
    number ∈ (m.addRow number (rowDocuments layout row)).failures.map (·.1) ∨
      ∃ name, (m.addRow number (rowDocuments layout row)).Has
          (Table.cell layout.headers row idHeader, name) ∧
        (name = Table.cell layout.headers row nameHeader ∨
          Table.cell layout.headers row idHeader ≠ "" ∧
            m.Has (Table.cell layout.headers row idHeader, name)) := by
  cases hread : rowDocuments layout row with
  | error failure =>
    exact .inl (List.mem_map.2 ⟨_, List.mem_append_right _ (List.mem_singleton_self _), rfl⟩)
  | ok ds =>
    obtain ⟨r, links, rest, rfl, hid, hrname⟩ := rowDocuments_named hname hread
    rw [← hid, ← hrname]
    refine (addAll_requirement h number r links rest).imp_right ?_
    rintro ⟨name, hhas, hcase⟩
    exact ⟨name, hhas, hcase.imp_right (And.imp_left Requirement.externalText_ne_empty)⟩

theorem addRows_named (before after : List (List String))
    (hname : Table.cell layout.headers row nameHeader ≠ "") :
    before.length + 1 ∈ (addRows layout .empty 1 (before ++ row :: after)).failures.map (·.1) ∨
      ∃ name, (addRows layout .empty 1 (before ++ row :: after)).Has
          (Table.cell layout.headers row idHeader, name) ∧
        (name = Table.cell layout.headers row nameHeader ∨
          Table.cell layout.headers row idHeader ≠ "" ∧ ∃ d ∈ documentsOf layout before,
            d.entity.title? = some (Table.cell layout.headers row idHeader, name)) := by
  rw [addRows_append, Nat.add_comm, addRows]
  -- the rows above, the row itself, and the rows below, which take nothing back
  have hbefore := addRows_grows layout filed_empty 1 before
  have hrow := addRow_grows hbefore.filed (before.length + 1) (rowDocuments layout row)
  have hafter := addRows_grows layout hrow.filed (before.length + 1 + 1) after
  rcases addRow_named hbefore.filed (before.length + 1) hname with hfailed | ⟨name, hhas, hcase⟩
  · exact .inl ((hafter.failures.map _).subset hfailed)
  · refine .inr ⟨name, hafter.has hhas, hcase.imp_right (And.imp_right fun hold => ?_)⟩
    rcases hbefore.of_has hold with ⟨p, hp, -⟩ | hread
    · cases hp
    · exact hread

/-- Whether one of the first rows of a table has a requirement with a title. -/
def ReadBefore (t : Table) (layout : Layout) (n : Nat) (title : String × String) : Prop :=
  ∃ row ∈ t.rows.take n, ∃ ds, rowDocuments layout row = .ok ds ∧
    ∃ d ∈ ds, d.entity.title? = some title

theorem mem_documentsOf {rows : List (List String)} {d : Document Unit} :
    d ∈ documentsOf layout rows ↔
      ∃ row ∈ rows, ∃ ds, rowDocuments layout row = .ok ds ∧ d ∈ ds := by
  unfold documentsOf
  rw [List.mem_flatMap]
  refine exists_congr fun row => and_congr_right fun _ => ?_
  cases rowDocuments layout row <;> simp [Except.toOption]

theorem layout_headers {headers : List String} (h : Layout.ofHeaders headers = .ok layout) :
    layout.headers = headers := by
  obtain ⟨columns, -, h⟩ := bind_eq_ok.1 h
  split at h
  · cases h
  · cases h
    rfl

/-- A table whose headers announce columns is read. A row with the name of a requirement then either
is listed with its number, or a requirement with the public identifier and the name of the row is
read, unless the identifier was read before under another name: then it is read under that one. -/
theorem decode_kept {t : Table} (h : Layout.ofHeaders t.headers = .ok layout) :
    ∃ decoded, decode t = .ok decoded ∧ ∀ (n : Nat) (row : List String), t.rows[n]? = some row →
      Table.cell t.headers row nameHeader ≠ "" →
      n + 1 ∈ decoded.failures.map (·.1) ∨
        ∃ d ∈ decoded.documents, ∃ name,
          d.entity.title? = some (Table.cell t.headers row idHeader, name) ∧
          (name = Table.cell t.headers row nameHeader ∨
            Table.cell t.headers row idHeader ≠ "" ∧
              ReadBefore t layout n (Table.cell t.headers row idHeader, name)) := by
  have hdecode : decode t = .ok (addRows layout .empty 1 t.rows).decoded := by
    rw [decode, h]
    rfl
  refine ⟨_, hdecode, fun n row hrow hname => ?_⟩
  rw [← layout_headers h] at hname ⊢
  obtain ⟨hn, hget⟩ := List.getElem?_eq_some_iff.1 hrow
  have hsplit : t.rows.take n ++ row :: t.rows.drop (n + 1) = t.rows := by
    rw [← hget, List.getElem_cons_drop, List.take_append_drop]
  have hnamed := addRows_named (t.rows.take n) (t.rows.drop (n + 1)) hname
  rw [hsplit, List.length_take_of_le hn.le] at hnamed
  refine hnamed.imp_right ?_
  rintro ⟨name, ⟨p, hp, htitle⟩, hcase⟩
  refine ⟨p.2, List.mem_map_of_mem hp, name, htitle, hcase.imp_right (And.imp_right ?_)⟩
  rintro ⟨d, hd, hearlier⟩
  obtain ⟨earlier, hmem, ds, hread, hds⟩ := mem_documentsOf.1 hd
  exact ⟨earlier, hmem, ds, hread, d, hds, hearlier⟩

/-- A row with a public identifier and one without. -/
def distinctNames : Table where
  headers := [idHeader, nameHeader]
  rows := [["111-111", "Access"], ["", "Login"]]
  widths := by decide

/-- Both rows are kept. -/
theorem decode_kept_distinctNames :
    ∃ layout, Layout.ofHeaders distinctNames.headers = .ok layout ∧
      ∃ decoded, decode distinctNames = .ok decoded ∧ decoded.failures = [] ∧
        (∃ d ∈ decoded.documents, d.entity.title? = some ("111-111", "Access")) ∧
        ∃ d ∈ decoded.documents, d.entity.title? = some ("", "Login") := by
  have hheaders : (Layout.ofHeaders distinctNames.headers).toBool = true := by decide +kernel
  have hread : (decode distinctNames).toOption.map (·.failures) = some [] := by decide +kernel
  have hid : Table.cell distinctNames.headers ["111-111", "Access"] idHeader = "111-111" := by
    decide +kernel
  have hname : Table.cell distinctNames.headers ["111-111", "Access"] nameHeader = "Access" := by
    decide +kernel
  have hid' : Table.cell distinctNames.headers ["", "Login"] idHeader = "" := by decide +kernel
  have hname' : Table.cell distinctNames.headers ["", "Login"] nameHeader = "Login" := by
    decide +kernel
  cases h : Layout.ofHeaders distinctNames.headers with
  | error failure =>
    rw [h] at hheaders
    cases hheaders
  | ok layout =>
    obtain ⟨decoded, hdecode, hkept⟩ := decode_kept h
    rw [hdecode] at hread
    have hfailures : decoded.failures = [] := Option.some.inj hread
    have hfirst := hkept 0 ["111-111", "Access"] rfl (by rw [hname]; decide)
    have hsecond := hkept 1 ["", "Login"] rfl (by rw [hname']; decide)
    rw [hid, hname, hfailures] at hfirst
    rw [hid', hname', hfailures] at hsecond
    refine ⟨layout, rfl, decoded, hdecode, hfailures, ?_, ?_⟩
    · rcases hfirst with hfailed | ⟨d, hd, name, htitle, rfl | ⟨-, row, hrow, -⟩⟩
      · cases hfailed
      · exact ⟨d, hd, htitle⟩
      · cases hrow
    · rcases hsecond with hfailed | ⟨d, hd, name, htitle, rfl | ⟨hne, -⟩⟩
      · cases hfailed
      · exact ⟨d, hd, htitle⟩
      · exact absurd rfl hne

/-- Two rows with one public identifier and two names. -/
def twoNames : Table where
  headers := [idHeader, nameHeader]
  rows := [["111-111", "Access"], ["111-111", "Login"]]
  widths := by decide

/-- The second of the two names is lost without a failure. -/
theorem exists_row_lost :
    ∃ decoded, decode twoNames = .ok decoded ∧ decoded.failures = [] ∧
      decoded.documents.map (·.entity.title?) = [some ("111-111", "Access")] ∧
      ¬ ∀ (n : Nat) (row : List String), twoNames.rows[n]? = some row →
        Table.cell twoNames.headers row nameHeader ≠ "" →
        n + 1 ∈ decoded.failures.map (·.1) ∨
          ∃ d ∈ decoded.documents, ∃ r, d.entity = .requirement r ∧
            r.name = Table.cell twoNames.headers row nameHeader ∧
            (Table.cell twoNames.headers row idHeader ≠ "" →
              r.externalText = Table.cell twoNames.headers row idHeader) := by
  have hread : (decode twoNames).toOption.map
      (fun decoded => (decoded.failures, decoded.documents.map (·.entity.title?))) =
        some ([], [some ("111-111", "Access")]) := by decide +kernel
  cases hdecode : decode twoNames with
  | error failure =>
    rw [hdecode] at hread
    cases hread
  | ok decoded =>
    rw [hdecode] at hread
    obtain ⟨hfailures, htitles⟩ := Prod.mk.inj (Option.some.inj hread)
    refine ⟨decoded, rfl, hfailures, htitles, fun hall => ?_⟩
    have hlogin := hall 1 ["111-111", "Login"] rfl (by decide +kernel)
    rcases hlogin with hfailed | ⟨d, hd, r, hr, hname, -⟩
    · rw [hfailures] at hfailed
      cases hfailed
    · have htitle : d.entity.title? ∈ [some ("111-111", "Access")] :=
        htitles ▸ List.mem_map_of_mem hd
      rw [List.mem_singleton, hr, Entity.title?, hname, Option.some.injEq, Prod.mk.injEq] at htitle
      exact absurd htitle.2 (by decide +kernel)

end Sheet

end Crosswalk
