import Crosswalk.Proofs.Exchange.RowRead
import Crosswalk.Proofs.Outline.Levels

/-!
# Parents from the rows above

A row with one name only has the last requirement above at a shallower level as its parent. Of a row
above with several names only the deepest one counts there, so the parent is the name seen last
whenever that stands deepest on its row.
-/

namespace Crosswalk.Outline

open Merged

variable {layout : Layout} {names row : List String} {rows : List (List String)} {d : Nat}
  {name : String} {parent : Option String} {ds : List (Document Unit)}

/-! ### Names seen last -/

theorem lastName?_eq_map (names : List String) :
    lastName? names = (Table.lastIndex? (· != "") names).map fun i => names.getD i "" := by
  induction names with
  | nil => rfl
  | cons s names ih =>
    rw [← List.singleton_append, lastName?_append, ih]
    cases h : Table.lastIndex? (· != "") names with
    | some i => simp [Table.lastIndex?, h]
    | none => by_cases hs : s = "" <;> simp [Table.lastIndex?, h, lastName?, hs]

theorem lastName?_take (h : ∀ i, d ≤ i → names.getD i "" = "") :
    lastName? (names.take d) = lastName? names := by
  have hdrop : lastName? (names.drop d) = none := by
    refine lastName?_blank fun s hs => ?_
    obtain ⟨i, hi⟩ := List.mem_iff_getElem?.1 hs
    rw [List.getElem?_drop] at hi
    have hblank := h (d + i) (Nat.le_add_right ..)
    rwa [List.getD_eq_getElem?_getD, hi] at hblank
  conv_rhs => rw [← List.take_append_drop d names, lastName?_append, hdrop, Option.none_or]

/-- A requirement of its row is seen before a depth if nothing on the row stands at it or deeper. -/
theorem own?_eq_lastName? (h : ∀ i, d ≤ i → names.getD i "" = "") :
    own? names d = lastName? (names.take d) := by
  rw [lastName?_take h, lastName?_eq_map, own?]
  cases hdepth : Table.lastIndex? (· != "") names with
  | none => rfl
  | some depth =>
    have hlt : depth < d := by
      by_contra hle
      exact (own_of_lastIndex? hdepth).2 (h depth (Nat.le_of_not_lt hle))
    simp [hlt]

theorem own?_eq_none (h : lastName? (names.take d) = none) : own? names d = none := by
  unfold own?
  cases hdepth : Table.lastIndex? (· != "") names with
  | none => rfl
  | some depth =>
    obtain ⟨hlt, hname⟩ := own_of_lastIndex? hdepth
    have hle : ¬ depth < d := by
      intro hd
      have hmem : names.getD depth "" ∈ names.take d := by
        rw [List.getD_eq_getElem names "" hlt, List.mem_take_iff_getElem]
        exact ⟨depth, by omega, rfl⟩
      have hfilter : names.getD depth "" ∈ (names.take d).filter (· != "") :=
        List.mem_filter.2 ⟨hmem, by simpa using hname⟩
      rw [List.getLast?_eq_none_iff.1 h] at hfilter
      cases hfilter
    simp [hle]

/-- The deepest name at a level shallower than a depth, on the latest of some rows that has one. -/
def lastAbove? (layout : Layout) (rows : List (List String)) (d : Nat) : Option String :=
  rows.reverse.findSome? fun row => lastName? ((rowNames layout row).take d)

/-- The latest of some rows that has a name at a level shallower than a depth has none at the depth
or deeper. -/
def EndsAbove (layout : Layout) (rows : List (List String)) (d : Nat) : Prop :=
  ∀ row, rows.reverse.find? (fun row => (lastName? ((rowNames layout row).take d)).isSome) =
      some row → ∀ i, d ≤ i → (rowNames layout row).getD i "" = ""

theorem lastOwn?_eq (h : EndsAbove layout rows d) : lastOwn? layout rows d = lastAbove? layout rows d := by
  unfold EndsAbove at h
  unfold lastOwn? lastAbove?
  generalize rows.reverse = above at h ⊢
  induction above with
  | nil => rfl
  | cons row above ih =>
    rw [List.findSome?_cons, List.findSome?_cons]
    cases hlast : lastName? ((rowNames layout row).take d) with
    | none =>
      rw [own?_eq_none hlast]
      refine ih fun row' hrow' => h row' ?_
      rw [List.find?_cons, hlast]
      exact hrow'
    | some name =>
      have hends := h row (by rw [List.find?_cons, hlast]; rfl)
      rw [own?_eq_lastName? hends, hlast]

/-! ### Parents -/

/-- The names of the requirements that contain a requirement, as some documents tell. -/
def parentsIn (r : Requirement Unit) (ds : List (Document Unit)) : List String :=
  (ds.filter fun d => d.links.any fun l =>
    l.relation = .contains && l.peer.entity = .requirement r).map (·.name)

/-- The only parent that is read from a row is the one that was found for it. -/
theorem rowDocuments_parent (h : rowDocuments layout row name parent = .ok ds) :
    ∃ r, ds.head?.map (·.entity) = some (.requirement r) ∧
      r.externalText = Table.cell layout.headers row idHeader ∧ r.name = name ∧
      parentsIn r ds = parent.toList ∧
      ∀ p ∈ parent, .mk (.requirement (named p)) [.mk .contains (.ofRequirement r)] ∈ ds := by
  obtain ⟨externalId, hid, h⟩ := bind_eq_ok.1 h
  obtain ⟨nodes, -, h⟩ := bind_eq_ok.1 h
  cases h
  refine ⟨_, rfl, Sheet.readExternalId_ok (Sheet.trim_cell ..) hid, rfl, ?_, ?_⟩
  · unfold parentsIn
    rw [List.filter_cons_of_neg]
    · cases parent <;> simp [Document.links, Link.relation, Link.peer, Document.ofRequirement,
        Document.ofEntity, Document.entity, Document.name, Entity.name, named]
    · -- the requirement itself is linked to nodes, and only related to requirements
      simp [Document.links, Link.relation, Link.peer, Document.ofRequirement, Document.ofNode,
        Document.ofEntity, Document.entity]
  · rintro p rfl
    simp

/-! ### Decoding -/

/-- A row with one name is listed with its number, or it is read with one parent: the deepest name
at a shallower level on the latest row above that has one, as far as that row has no deeper name.
Then a requirement with that name contains the requirement of the row. Where no row above has such a
name there is no parent. -/
theorem decode_parent {t : Table} (h : Layout.ofHeaders t.headers = .ok layout) :
    ∃ decoded, decode t = .ok decoded ∧
      decoded = (Merged.empty.addResults 1 (readings layout (start layout) t.rows)).decoded ∧
      ∀ (n : Nat) (row : List String) (d : Nat), t.rows[n]? = some row →
        OnlyAt (rowNames layout row) d → EndsAbove layout (t.rows.take n) d →
        n + 1 ∈ decoded.failures.map (·.1) ∨
          ∃ ds r, (readings layout (start layout) t.rows)[n]? = some (.ok ds) ∧
            ds.head?.map (·.entity) = some (.requirement r) ∧
            r.externalText = Table.cell t.headers row idHeader ∧
            r.name = (rowNames layout row).getD d "" ∧
            parentsIn r ds = (lastAbove? layout (t.rows.take n) d).toList ∧
            ∀ p ∈ lastAbove? layout (t.rows.take n) d, ∃ d ∈ decoded.documents,
              d.entity.title? = some ("", p) ∧ ∃ l ∈ d.links, l.relation = .contains ∧
                l.peer.entity.title? = some (r.externalText, r.name) := by
  refine ⟨_, decode_eq h, rfl, fun n row d hrow honly hends => ?_⟩
  obtain ⟨more, -, hunites, hrows⟩ := unites_nil.addResults (m := empty) 1
    (readings layout (start layout) t.rows)
  have hresult : (readings layout (start layout) t.rows)[n]? = some (rowDocuments layout row
      ((rowNames layout row).getD d "") (lastAbove? layout (t.rows.take n) d)) := by
    rw [getElem?_readings, hrow, ← lastOwn?_eq hends, ← lastName?_foldl_below, ← honly.parent?]
    simp [rowReading, honly.lastIndex?]
  rw [Nat.add_comm]
  refine (hrows n _ hresult).imp_right ?_
  rintro ⟨ds, hds, hsub⟩
  obtain ⟨r, hhead, hid, hname, hparents, hmem⟩ := rowDocuments_parent hds
  rw [(layout_eq h).1] at hid
  refine ⟨ds, r, by rw [hresult, hds], hhead, hid, hname, hparents, fun p hp => ?_⟩
  have htold : (Relation.contains, NaturalKey.requirement r.externalText r.name) ∈
      (Document.mk (.requirement (named p)) [.mk .contains (.ofRequirement r)]).told :=
    ⟨_, List.mem_singleton_self _, rfl⟩
  obtain ⟨kept, hkept, ⟨name, htitle, hnone⟩, hlink⟩ :=
    hunites.exists_told (hsub (hmem p hp)) rfl htold
  rw [hnone rfl] at htitle
  exact ⟨kept.2, List.mem_map_of_mem hkept, htitle, hlink⟩

/-- A requirement below another one. -/
def nested : Table where
  headers := levelHeaders 2
  rows := [["A", ""], ["", "B"]]
  widths := by decide

theorem decode_parent_nested :
    ∃ decoded, decode nested = .ok decoded ∧
      (2 ∈ decoded.failures.map (·.1) ∨ ∃ d ∈ decoded.documents, d.entity.title? = some ("", "A") ∧
        ∃ l ∈ d.links, l.relation = .contains ∧ l.peer.entity.title? = some ("", "B")) := by
  obtain ⟨decoded, hdecode, -, hrows⟩ :=
    decode_parent (t := nested) (ofHeaders_levelHeaders (by decide) (by decide))
  have hnames : rowNames ⟨levelHeaders 2, List.range 2, []⟩ ["", "B"] = ["", "B"] := by
    decide +kernel
  have hid : Table.cell nested.headers ["", "B"] idHeader = "" := by decide +kernel
  have honly : OnlyAt (rowNames ⟨levelHeaders 2, List.range 2, []⟩ ["", "B"]) 1 := by
    rw [hnames]
    exact onlyAt_indented 1 0 (by decide)
  have hends : EndsAbove ⟨levelHeaders 2, List.range 2, []⟩ (nested.rows.take 1) 1 := by
    intro row hrow i hi
    obtain rfl : row = ["A", ""] := List.mem_singleton.1 (List.mem_of_find?_eq_some hrow)
    have hfirst : rowNames ⟨levelHeaders 2, List.range 2, []⟩ ["A", ""] = ["A", ""] := by
      decide +kernel
    rw [hfirst]
    rcases i with _ | _ | i
    · cases hi
    · rfl
    · rfl
  refine ⟨decoded, hdecode, (hrows 1 _ 1 rfl honly hends).imp_right ?_⟩
  rintro ⟨ds, r, -, -, hrid, hrname, -, hcontains⟩
  rw [hid] at hrid
  rw [hnames] at hrname
  obtain ⟨d, hd, htitle, l, hl, hrelation, hpeer⟩ := hcontains "A" (by decide +kernel)
  rw [hrid, hrname] at hpeer
  exact ⟨d, hd, htitle, l, hl, hrelation, hpeer⟩

/-- A row with two names between a requirement and one on the lower level. -/
def seenAsParent : Table where
  headers := levelHeaders 2
  rows := [["A", ""], ["B", "C"], ["", "D"]]
  widths := by decide

/-- A name that is seen as the parent on its row is passed over by the rows below. -/
theorem exists_parent_missed :
    ∃ layout decoded, Layout.ofHeaders seenAsParent.headers = .ok layout ∧
      decode seenAsParent = .ok decoded ∧ decoded.failures = [] ∧
      ¬ ∀ (n : Nat) (row : List String) (d : Nat), seenAsParent.rows[n]? = some row →
        OnlyAt (rowNames layout row) d →
        n + 1 ∈ decoded.failures.map (·.1) ∨
          ∀ p ∈ lastAbove? layout (seenAsParent.rows.take n) d, ∃ d' ∈ decoded.documents,
            d'.name = p ∧ ∃ l ∈ d'.links, l.relation = .contains ∧
              l.peer.name = (rowNames layout row).getD d "" := by
  have hlayout : Layout.ofHeaders seenAsParent.headers = .ok ⟨levelHeaders 2, List.range 2, []⟩ :=
    ofHeaders_levelHeaders (by decide) (by decide)
  have hnames : rowNames ⟨levelHeaders 2, List.range 2, []⟩ ["", "D"] = ["", "D"] := by
    decide +kernel
  refine ⟨_, _, hlayout, decode_eq hlayout, by decide +kernel, fun hall => ?_⟩
  have honly : OnlyAt (rowNames ⟨levelHeaders 2, List.range 2, []⟩ ["", "D"]) 1 := by
    rw [hnames]
    exact onlyAt_indented 1 0 (by decide)
  rcases hall 2 ["", "D"] 1 rfl honly with hfailed | hparent
  · revert hfailed
    decide +kernel
  · rw [hnames] at hparent
    obtain ⟨d, hd, hname, l, hl, -, hpeer⟩ := hparent "B" (by decide +kernel)
    -- the only document with that name contains another requirement alone
    have hother : ∀ d ∈ (Merged.empty.addResults 1 (readings ⟨levelHeaders 2, List.range 2, []⟩
        (start ⟨levelHeaders 2, List.range 2, []⟩) seenAsParent.rows)).decoded.documents,
        d.name = "B" → d.links.map (·.peer.name) = ["C"] := by
      decide +kernel
    have hmem := List.mem_map_of_mem (f := fun l : Link Unit => l.peer.name) hl
    rw [hother d hd hname, List.mem_singleton] at hmem
    exact absurd (hmem.symm.trans hpeer) (by decide)

end Crosswalk.Outline
