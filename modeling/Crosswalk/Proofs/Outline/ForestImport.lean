import Crosswalk.Proofs.Catalog.AnyOrder
import Crosswalk.Proofs.Outline.ForestMerge

/-!
# Importing a forest

The outline of a forest is read as one document for every name, which contains its children in their
order. These documents agree, since a parent always comes before its children, so importing them
drops no link and creates one for each pair of a parent and a child.
-/

namespace Crosswalk.Forest

open Outline

variable {f : Forest} {width : Nat}

/-- One document for every name, a parent before its children. -/
def documents (f : Forest) : List (Document Unit) :=
  f.families.map fun p => family p.1 p.2

/-! ### Decoding -/

theorem decode_outline (hpos : 0 < width) (hwidth : width < UInt64.size) (hfit : f.height ≤ width)
    (hnodup : f.names.Nodup) (hplain : f.Plain) :
    decode (f.outline width hfit) = .ok ⟨f.documents, []⟩ := by
  have hrows : readings (layout width) (start (layout width)) (f.rows width 0) =
      (f.members none).map .ok :=
    readings_rows hwidth hplain (by simp [start, layout]) (by omega) (by simp)
  have hfresh : f.ComesIn none [] := ⟨hnodup, .nil, by simp [Fresh], by simp⟩
  have hmerged := addResults_members hfresh 1 []
  rw [decode_eq (ofHeaders_levelHeaders hwidth hpos)]
  show Except.ok ((Merged.mk (filed []) []).addResults 1 (readings (layout width)
    (start (layout width)) (f.rows width 0))).decoded = _
  rw [hrows, hmerged]
  simp [Merged.decoded, filed, documents, Function.comp_def]

/-! ### Agreeing -/

/-- What a pair of a parent and a child asserts. -/
def assertion (edge : String × String) : Assertion :=
  ⟨.requirement edge.1, .requirement edge.2, .contains⟩

theorem of_mem_entitiesOf {e : Entity Unit} (h : e ∈ entitiesOf f.documents) :
    ∃ name ∈ f.names, e = .requirement (named name) := by
  obtain ⟨d, hd, he⟩ := List.mem_flatMap.1 h
  obtain ⟨p, hp, rfl⟩ := List.mem_map.1 hd
  obtain ⟨hname, hchildren⟩ := family_subset hp
  rcases List.mem_cons.1 he with rfl | he
  · exact ⟨p.1, hname, rfl⟩
  · obtain ⟨l, hl, rfl⟩ := List.mem_map.1 he
    obtain ⟨child, hchild, rfl⟩ := List.mem_map.1 hl
    exact ⟨child, hchildren hchild, rfl⟩

theorem assertionsOf_documents (hplain : f.Plain) :
    assertionsOf f.documents = f.edges.map assertion := by
  have htrim : ∀ e ∈ f.edges, Text.trim e.1 = e.1 ∧ Text.trim e.2 = e.2 := by
    intro e he
    obtain ⟨hp, hc⟩ := mem_names_of_edge (p := e.1) (c := e.2) he
    exact ⟨(hplain _ hp).1, (hplain _ hc).1⟩
  have hraw : assertionsOf f.documents = f.edges.map fun e =>
      ⟨.requirement (Text.trim e.1), .requirement (Text.trim e.2), .contains⟩ := by
    unfold assertionsOf documents edges
    rw [List.flatMap_map, List.map_flatMap]
    congr 1
    funext p
    simp [Document.assertions, family, Link.assertion, Document.links, Document.entity, Link.peer,
      Link.relation, Document.ofRequirement, Document.ofEntity, Entity.key, named]
  rw [hraw]
  refine List.map_congr_left fun e he => ?_
  rw [(htrim e he).1, (htrim e he).2]
  rfl

section

variable (hnodup : f.names.Nodup)

include hnodup

/-- No two pairs are of the same two names. -/
theorem eq_of_ends {e e' : String × String} (he : e ∈ f.edges) (he' : e' ∈ f.edges)
    (h : (assertion e).ends = (assertion e').ends) : e = e' := by
  have hlt := idxOf_lt_of_edge hnodup (p := e.1) (c := e.2) he
  have hlt' := idxOf_lt_of_edge hnodup (p := e'.1) (c := e'.2) he'
  simp only [Assertion.ends, assertion, Sym2.eq_iff, EntityKey.requirement.injEq] at h
  rcases h with ⟨hp, hc⟩ | ⟨hp, hc⟩
  · exact Prod.ext hp hc
  · rw [hp, hc] at hlt
    omega

theorem agreeing_documents (hplain : f.Plain) : Agreeing f.documents where
  named := by
    intro e he
    obtain ⟨name, hname, rfl⟩ := of_mem_entitiesOf he
    obtain ⟨htrim, hne⟩ := hplain name hname
    show Text.trim name ≠ ""
    rwa [htrim]
  agree := by
    intro e he e' he' _
    obtain ⟨name, -, rfl⟩ := of_mem_entitiesOf he
    obtain ⟨name', -, rfl⟩ := of_mem_entitiesOf he'
    exact ⟨.inl rfl, .inl rfl⟩
  joinable := by
    rw [assertionsOf_documents hplain]
    intro a ha
    obtain ⟨e, -, rfl⟩ := List.mem_map.1 ha
    exact .inl rfl
  same := by
    rw [assertionsOf_documents hplain]
    intro a ha b hb hends
    obtain ⟨e, he, rfl⟩ := List.mem_map.1 ha
    obtain ⟨e', he', rfl⟩ := List.mem_map.1 hb
    rw [eq_of_ends hnodup he he' hends]
    exact .inl rfl
  acyclic := by
    have harrows : (f.edges.map assertion).filterMap Assertion.arrow? = f.edges := by
      simp [List.filterMap_map, Function.comp_def, assertion, Assertion.arrow?]
    rw [assertionsOf_documents hplain, harrows]
    exact acyclic_edges hnodup

theorem card_linkedPairs (hplain : f.Plain) : (linkedPairs f.documents).card = f.edges.length := by
  have hends : ((f.edges.map assertion).map Assertion.ends).Nodup := by
    rw [List.map_map]
    exact (edges_nodup hnodup).map_on fun e he e' he' heq => eq_of_ends hnodup he he' heq
  unfold linkedPairs
  rw [assertionsOf_documents hplain, List.toFinset_card_of_nodup hends, List.length_map,
    List.length_map]

end

/-! ### Importing -/

/-- The outline of a forest with different names that are neither empty nor with blanks around them
is read as the forest, and importing what was read creates one link for each pair of a parent and a
child. There is a level at least, and fewer levels than a number of 64 bits counts. -/
theorem decode_importAll_outline (f : Forest) {width : Nat} (hpos : 0 < width)
    (hwidth : width < UInt64.size) (hfit : f.height ≤ width) (hnodup : f.names.Nodup)
    (hplain : f.Plain) (serial itemsPerPage : Nat) :
    decode (f.outline width hfit) = .ok ⟨f.documents, []⟩ ∧
      ∃ c, (Catalog.fresh serial itemsPerPage).importAll f.documents = .ok (c, {
          documents := f.names.length
          created := f.edges.length
          updated := 0
          unchanged := 0
          cyclesDropped := 0
          failures := [] }) ∧
        c.store.links.length = f.edges.length ∧ c.store.Asserts (f.edges.map assertion) := by
  obtain ⟨c, himport, hconsistent, -, hasserts⟩ :=
    Catalog.importAll_of_agreeing (agreeing_documents hnodup hplain) serial itemsPerPage
  have hcard := card_linkedPairs hnodup hplain
  have hlinks := hasserts.length_links hconsistent.sound
  have hlength : f.documents.length = f.names.length := by simp [documents, names]
  rw [assertionsOf_documents hplain] at himport hasserts
  rw [hcard, hlength, List.length_map, Nat.sub_self] at himport
  exact ⟨decode_outline hpos hwidth hfit hnodup hplain, c, himport, hlinks.trans hcard, hasserts⟩

/-- A requirement with two children, and another one beside it. -/
def threeBelow : Forest :=
  .cons "A" (.cons "B" .nil (.cons "C" .nil .nil)) (.cons "D" .nil .nil)

theorem decode_importAll_outline_threeBelow :
    decode (threeBelow.outline 2 (by decide)) =
        .ok ⟨[family "A" ["B", "C"], family "B" [], family "C" [], family "D" []], []⟩ ∧
      ∃ c, (Catalog.fresh 0 20).importAll threeBelow.documents = .ok (c, {
          documents := 4
          created := 2
          updated := 0
          unchanged := 0
          cyclesDropped := 0
          failures := [] }) ∧
        c.store.links.length = 2 ∧ c.store.Asserts (threeBelow.edges.map assertion) := by
  have hplain : threeBelow.Plain := by
    unfold Plain
    decide +kernel
  exact decode_importAll_outline threeBelow (by decide) (by decide) (by decide) (by decide) hplain 0 20

end Crosswalk.Forest
