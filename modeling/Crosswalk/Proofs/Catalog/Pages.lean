import Crosswalk.Catalog.Lookup
import Crosswalk.Proofs.Catalog.Run
import Mathlib

/-!
# Pages

The place of a page among the nodes that answer to a filter goes through machine integers, which have
a greatest value. Up to the greatest count of nodes that does not show: a page is the stretch of the
list that its number and its size say, the pages together are the list, and there is nothing behind
the last one.
-/

namespace Crosswalk

namespace Store

variable {α : Type} {items : List α} {page perPage : Nat}

/-! ### Stretches of a list -/

/-- The items on a page of some size, as far as there are so many. -/
def stretch (page perPage : Nat) (items : List α) : List α :=
  items.extract ((page - 1) * perPage) (page * perPage)

theorem stretch_eq_take_drop (hpage : 1 ≤ page) :
    stretch page perPage items = (items.drop ((page - 1) * perPage)).take perPage := by
  have hwidth : page * perPage - (page - 1) * perPage = perPage := by
    rw [← Nat.sub_mul, Nat.sub_sub_self hpage, Nat.one_mul]
  rw [stretch, List.extract_eq_take_drop, hwidth]

/-- The first stretches are the beginning of the list. -/
theorem flatMap_stretch (perPage count : Nat) (items : List α) :
    (List.range' 1 count).flatMap (fun page => stretch page perPage items) =
      items.take (count * perPage) := by
  induction count with
  | zero => simp
  | succ count ih =>
    rw [List.range'_1_concat, List.flatMap_append, ih, List.flatMap_singleton,
      stretch_eq_take_drop (Nat.le_add_right 1 count), Nat.add_sub_cancel_left, Nat.succ_mul,
      List.take_add]

theorem take_ceilDiv (hperPage : 0 < perPage) (items : List α) :
    items.take ((items.length ⌈/⌉ perPage) * perPage) = items := by
  refine List.take_of_length_le ?_
  rw [Nat.mul_comm]
  exact (ceilDiv_le_iff_le_mul hperPage).1 le_rfl

theorem stretch_eq_nil (hperPage : 0 < perPage) (hpage : items.length ⌈/⌉ perPage < page) :
    stretch page perPage items = [] := by
  have hlength : items.length ≤ (page - 1) * perPage := by
    rw [Nat.mul_comm]
    exact (ceilDiv_le_iff_le_mul hperPage).1 (Nat.le_sub_one_of_lt hpage)
  rw [stretch_eq_take_drop (Nat.one_le_of_lt hpage), List.drop_of_length_le hlength, List.take_nil]

/-! ### Machine integers -/

theorem maxCount_le_maxWord : maxCount ≤ maxWord := by
  decide

/-- The greatest position and the greatest count do not show in a list that is no longer. -/
theorem pageOf_eq_stretch (h : items.length ≤ maxCount) (page perPage : Nat) :
    pageOf page perPage items = stretch (max page 1) (max perPage 1) items := by
  rw [stretch_eq_take_drop (Nat.le_max_right page 1)]
  unfold pageOf
  dsimp only
  generalize hstart : (max page 1 - 1) * max perPage 1 = start
  have hword := maxCount_le_maxWord
  by_cases hfar : start ≤ maxCount
  · have hoffset : min (min start maxWord) maxCount = start := by omega
    rw [hoffset, List.take_eq_take_iff, List.length_drop]
    omega
  · have hoffset : min (min start maxWord) maxCount = maxCount := by omega
    rw [hoffset, List.drop_of_length_le h, List.drop_of_length_le (by omega), List.take_nil,
      List.take_nil]

theorem pageCount_eq_ceilDiv (perPage : Nat) (items : List α) :
    pageCount perPage items = items.length ⌈/⌉ max perPage 1 := rfl

/-! ### The nodes that answer to a filter -/

/-- A look-up by a kind always has an answer: the nodes that the filter accepts. -/
theorem exists_getNodes (s : Store) (filter : NodeFilter) (kind : NodeKind) :
    ∃ nodes, s.getNodes { filter with kind := some kind } = .ok nodes ∧
      nodes.Perm (s.nodes.filter (NodeFilter.accepts { filter with kind := some kind })) :=
  ⟨_, rfl, Text.sortOn_perm _ _⟩

end Store

namespace Catalog

variable {c : Catalog} {filter : Store.NodeFilter} {kind : NodeKind} {nodes : List (Node StoredId)}

/-- A page of the nodes that answer to a filter is a stretch of all of them. -/
theorem findNodes_eq_stretch (hkey : filter.hasOnlyKind = false)
    (hnodes : c.store.getNodes { filter with kind := some kind } = .ok nodes)
    (hfew : nodes.length ≤ Store.maxCount) (page perPage : Option Nat) (wanted : List String) :
    c.findNodes kind filter page perPage wanted =
      .ok ⟨nodes.length ⌈/⌉ max (perPage.getD c.itemsPerPage) 1, max (page.getD 1) 1,
        (Store.stretch (max (page.getD 1) 1) (max (perPage.getD c.itemsPerPage) 1) nodes).map
          fun n => (c.store.hydrate (.node n)).retainLinks wanted⟩ := by
  unfold findNodes
  simp only [hkey, hnodes, Bool.false_eq_true, if_false, Except.map, Store.pageCount_eq_ceilDiv,
    Store.pageOf_eq_stretch hfew, max_assoc, max_self]

/-- With fewer nodes than the greatest count, for every kind, filter, page and size of pages, a zero
standing for one: a page has the nodes at the positions from (page - 1) * size up to page * size in the
list of all nodes that answer to the filter, and the number of pages is that of nodes divided by the
size, rounded up. So all pages together have every such node once and in order, and a later page has
none and the same number of pages. -/
theorem findNodes_pages (hfew : c.store.nodes.length < 2 ^ 63 - 1)
    (hkey : filter.hasOnlyKind = false) (kind : NodeKind) (wanted : List String) :
    ∃ nodes, c.store.getNodes { filter with kind := some kind } = .ok nodes ∧
      nodes.Perm (c.store.nodes.filter (Store.NodeFilter.accepts { filter with kind := some kind })) ∧
      let shown (n : Node StoredId) := (c.store.hydrate (.node n)).retainLinks wanted
      ∀ perPage : Option Nat,
        let size := max (perPage.getD c.itemsPerPage) 1
        let total := nodes.length ⌈/⌉ size
        (∀ page : Option Nat,
          let number := max (page.getD 1) 1
          c.findNodes kind filter page perPage wanted =
            .ok ⟨total, number,
              (nodes.extract ((number - 1) * size) (number * size)).map shown⟩) ∧
        (∃ pages : List Page,
          (List.range' 1 total).map (fun number =>
            c.findNodes kind filter (some number) perPage wanted) = pages.map .ok ∧
          pages.flatMap (·.items) = nodes.map shown) ∧
        ∀ number, total < number →
          c.findNodes kind filter (some number) perPage wanted = .ok ⟨total, number, []⟩ := by
  obtain ⟨nodes, hnodes, hperm⟩ := Store.exists_getNodes c.store filter kind
  have hcount : nodes.length ≤ Store.maxCount := by
    have hmax : Store.maxCount = 2 ^ 63 - 1 := by decide
    have hstored := List.length_filter_le
      (Store.NodeFilter.accepts { filter with kind := some kind }) c.store.nodes
    have hlength := hperm.length_eq
    omega
  refine ⟨nodes, hnodes, hperm, ?_⟩
  intro shown perPage size total
  have hsize : 0 < size := Nat.lt_of_lt_of_le Nat.zero_lt_one (Nat.le_max_right _ 1)
  have hpage := fun page => findNodes_eq_stretch hkey hnodes hcount page perPage wanted
  have hnumber : ∀ number, 1 ≤ number →
      c.findNodes kind filter (some number) perPage wanted =
        .ok ⟨total, number, (Store.stretch number size nodes).map shown⟩ := by
    intro number hone
    rw [hpage, Option.getD_some, Nat.max_eq_left hone]
  refine ⟨hpage, ⟨(List.range' 1 total).map fun number =>
    ⟨total, number, (Store.stretch number size nodes).map shown⟩, ?_, ?_⟩, fun number hlast => ?_⟩
  · rw [List.map_map]
    exact List.map_congr_left fun number hmem => hnumber number (List.mem_range'_1.1 hmem).1
  · rw [List.flatMap_map, ← List.map_flatMap, Store.flatMap_stretch, Store.take_ceilDiv hsize]
  · rw [hnumber number (Nat.one_le_of_lt hlast), Store.stretch_eq_nil hsize hlast, List.map_nil]

/-- Three sections of one standard and one of another. -/
def sections : List (Operation Unit) :=
  [.putNode ⟨(), "ASVS", "", .empty, .standard "V2" "" "" ""⟩,
    .putNode ⟨(), "NIST", "", .empty, .standard "5.1" "" "" ""⟩,
    .putNode ⟨(), "ASVS", "", .empty, .standard "V1" "" "" ""⟩,
    .putNode ⟨(), "ASVS", "", .empty, .standard "V3" "" "" ""⟩]

/-- Two pages of two, of which the second holds one section; with the greatest numbers that a machine
word holds there is one page, and the page asked for lies behind it. -/
theorem findNodes_pages_sections :
    let c := (fresh 0 20).run sections
    let filter : Store.NodeFilter := { name := some "ASVS" }
    c.store.nodes.length < 2 ^ 63 - 1 ∧ filter.hasOnlyKind = false ∧
      (∃ items, items.length = 1 ∧
        c.findNodes .standard filter (some 2) (some 2) [] = .ok ⟨2, 2, items⟩) ∧
      c.findNodes .standard filter (some (2 ^ 64 - 1)) (some (2 ^ 64 - 1)) [] =
        .ok ⟨1, 2 ^ 64 - 1, []⟩ := by
  intro c filter
  have hfew : c.store.nodes.length < 2 ^ 63 - 1 := by decide +kernel
  have hkey : filter.hasOnlyKind = false := by decide
  obtain ⟨nodes, -, hperm, hpages⟩ := findNodes_pages hfew hkey .standard []
  have hthree : nodes.length = 3 := by
    rw [hperm.length_eq]
    decide +kernel
  have hsecond := (hpages (some 2)).1 (some 2)
  have hlast := (hpages (some (2 ^ 64 - 1))).2.2 (2 ^ 64 - 1)
  simp only [Option.getD_some, hthree] at hsecond hlast
  refine ⟨hfew, hkey, ⟨_, ?_, hsecond⟩, hlast (by decide)⟩
  simp [hthree]

end Catalog

end Crosswalk
