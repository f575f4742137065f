import Crosswalk.Exchange.SheetOf
import Crosswalk.Proofs.Exchange.Header
import Crosswalk.Proofs.Table

/-!
# The layout of a written sheet

From the headers of a written sheet the columns are read for which they were written: every group of
node columns, with the position of each attribute, and every linked requirement. So the cells that a
row of such a sheet has under its headers are the cells that are looked at.
-/

namespace Crosswalk

theorem Text.mapM_eq_map {α β ε : Type} {f : α → Except ε β} {g : α → β} {items : List α}
    (h : ∀ a ∈ items, f a = .ok (g a)) : items.mapM f = .ok (items.map g) := by
  induction items with
  | nil => rfl
  | cons a items ih =>
    rw [List.mapM_cons, h a List.mem_cons_self, ih fun b hb => h b (List.mem_cons_of_mem _ hb)]
    rfl

theorem lookup_filterMap {α β : Type} [DecidableEq α] {f : α → Option β} {items : List α} {a : α}
    (ha : a ∈ items) : (items.filterMap fun b => (f b).map (b, ·)).lookup a = f a := by
  induction items with
  | nil => exact absurd ha List.not_mem_nil
  | cons b items ih =>
    by_cases hab : a = b
    · subst hab
      cases hf : f a with
      | some x => simp [hf]
      | none =>
        rw [List.filterMap_cons_none (by rw [hf]; rfl), List.lookup_eq_none_iff]
        intro p hp
        obtain ⟨b, -, hb⟩ := List.mem_filterMap.1 hp
        obtain ⟨x, hx, rfl⟩ := Option.map_eq_some_iff.1 hb
        rw [bne_iff_ne]
        rintro rfl
        rw [hf] at hx
        cases hx
    · have hitems := ih ((List.mem_cons.1 ha).resolve_left hab)
      cases hf : f b with
      | some x =>
        have hbeq : (a == b) = false := beq_false_of_ne hab
        simp [hf, List.lookup_cons, hbeq, hitems]
      | none => rw [List.filterMap_cons_none (by rw [hf]; rfl), hitems]

theorem Attribute.mem_all (attr : Attribute) : attr ∈ all := by
  cases attr <;> decide

namespace Sheet

/-- The headers of a sheet with some columns of linked requirements and some groups. -/
def sheetHeaders (count : Nat) (groups : List (NodeKind × String)) : List String :=
  [idHeader, nameHeader, descriptionHeader] ++ peerHeaders count ++ groups.flatMap groupHeaders

/-- The node column that a header announces, if it does. -/
def columnOf (h : String) : Option NodeColumn :=
  match NodeColumn.ofHeader h with
  | .ok column => column
  | .error _ => none

variable {count : Nat} {groups : List (NodeKind × String)} {h : String} {column : NodeColumn}

theorem mem_sheetHeaders :
    h ∈ sheetHeaders count groups ↔
      h ∈ [idHeader, nameHeader, descriptionHeader] ∨
      (∃ i < count, ∃ attr ∈ peerAttributes, h = peerHeader i attr) ∨
      ∃ g ∈ groups, ∃ attr ∈ Attribute.ofKind g.1, h = NodeColumn.header ⟨g.1, g.2, attr⟩ := by
  unfold sheetHeaders peerHeaders groupHeaders
  rw [List.mem_append, List.mem_append, List.mem_flatMap, List.mem_flatMap, or_assoc]
  simp only [List.mem_map, List.mem_range, eq_comm]

theorem header_ne_peerHeader (column : NodeColumn) (i : Nat) (attr : String) :
    column.header ≠ peerHeader i attr := by
  intro heq
  have hhead := congrArg (fun s => s.toList.head?) heq
  have hkind : ∃ c, column.kind.text.toList.head? = some c ∧ c ≠ 'L' := by
    cases column.kind
    · exact ⟨'S', by decide, by decide⟩
    · exact ⟨'T', by decide, by decide⟩
    · exact ⟨'C', by decide, by decide⟩
  obtain ⟨c, hc, hne⟩ := hkind
  simp only [head?_peerHeader, NodeColumn.toList_header, List.head?_append, hc,
    Option.some_or] at hhead
  exact hne (Option.some.inj hhead)

theorem header_ne_own (column : NodeColumn) (hh : h ∈ [idHeader, nameHeader, descriptionHeader]) :
    column.header ≠ h := by
  intro heq
  have hcut := congrArg (fun s => (Text.cutFirst ':' s.toList).map (·.1)) heq
  simp only [NodeColumn.toList_header, Text.cutFirst_append column.kind.colon_not_mem,
    Option.map_some] at hcut
  simp only [List.mem_cons, List.not_mem_nil, or_false] at hh
  generalize column.kind = kind at hcut
  rcases hh with rfl | rfl | rfl <;> revert hcut <;> cases kind <;> decide +kernel

theorem header_mem_sheetHeaders :
    column.header ∈ sheetHeaders count groups ↔
      (column.kind, column.name) ∈ groups ∧ column.attr ∈ Attribute.ofKind column.kind := by
  rw [mem_sheetHeaders]
  constructor
  · rintro (hown | ⟨i, -, attr, -, heq⟩ | ⟨g, hg, attr, hattr, heq⟩)
    · exact absurd rfl (header_ne_own column hown)
    · exact absurd heq (header_ne_peerHeader column i attr)
    · obtain rfl := NodeColumn.header_injective heq
      exact ⟨hg, hattr⟩
  · rintro ⟨hg, hattr⟩
    exact .inr (.inr ⟨_, hg, _, hattr, rfl⟩)

/-! ### Reading the headers -/

section Reading

variable (hgroups : ∀ g ∈ groups, Text.trim g.2 = g.2 ∧ g.2 ≠ "")

include hgroups

theorem ofHeader_group {g : NodeKind × String} (hg : g ∈ groups) (attr : Attribute) :
    NodeColumn.ofHeader (NodeColumn.header ⟨g.1, g.2, attr⟩) = .ok (some ⟨g.1, g.2, attr⟩) :=
  NodeColumn.ofHeader_header (c := ⟨g.1, g.2, attr⟩) (hgroups g hg).1 (hgroups g hg).2

theorem ofHeader_of_mem (hh : h ∈ sheetHeaders count groups) :
    NodeColumn.ofHeader h = .ok (columnOf h) := by
  have hread : ∃ column, NodeColumn.ofHeader h = .ok column := by
    rcases mem_sheetHeaders.1 hh with hown | ⟨i, -, attr, -, rfl⟩ | ⟨g, hg, attr, -, rfl⟩
    · exact ⟨_, ofHeader_own hown⟩
    · exact ⟨_, ofHeader_peerHeader i attr⟩
    · exact ⟨_, ofHeader_group hgroups hg attr⟩
  obtain ⟨column, hcolumn⟩ := hread
  unfold columnOf
  rw [hcolumn]

theorem columnOf_eq_some (hh : h ∈ sheetHeaders count groups) :
    columnOf h = some column ↔ h = column.header := by
  constructor
  · intro hcolumn
    have hread := ofHeader_of_mem hgroups hh
    rw [hcolumn] at hread
    rcases mem_sheetHeaders.1 hh with hown | ⟨i, -, attr, -, rfl⟩ | ⟨g, hg, attr, -, rfl⟩
    · rw [ofHeader_own hown] at hread
      cases hread
    · rw [ofHeader_peerHeader] at hread
      cases hread
    · rw [ofHeader_group hgroups hg] at hread
      cases hread
      rfl
  · rintro rfl
    obtain ⟨hg, -⟩ := header_mem_sheetHeaders.1 hh
    have hread := ofHeader_group hgroups hg column.attr
    unfold columnOf
    rw [hread]

theorem unknownHeader?_eq_none (hcount : count ≤ UInt64.size) :
    unknownHeader? (sheetHeaders count groups) ((sheetHeaders count groups).map columnOf) =
      none := by
  have hall : ∀ h ∈ sheetHeaders count groups, (columnOf h).isSome = true ∨ isKnown h = true := by
    intro h hh
    rcases mem_sheetHeaders.1 hh with hown | ⟨i, hi, attr, hattr, rfl⟩ | ⟨g, -, attr, -, rfl⟩
    · refine .inr ?_
      have hcontains := List.contains_iff_mem.2 hown
      unfold isKnown
      rw [hcontains]
      simp
    · refine .inr ?_
      have hsize : i < UInt64.size := by omega
      have hcolumn := peerColumn?_peerHeader hattr hsize
      unfold isKnown
      rw [hcolumn]
      simp
    · rw [(columnOf_eq_some hgroups hh).2 rfl]
      exact .inl rfl
  generalize sheetHeaders count groups = headers at hall
  induction headers with
  | nil => rfl
  | cons h headers ih =>
    have hh := hall h List.mem_cons_self
    rw [List.map_cons, unknownHeader?, if_pos (by simpa using hh)]
    exact ih fun h' hh' => hall h' (List.mem_cons_of_mem _ hh')

theorem ofHeaders_sheetHeaders (hcount : count ≤ UInt64.size) :
    Layout.ofHeaders (sheetHeaders count groups) =
      .ok ⟨sheetHeaders count groups,
        NodeGroup.ofColumns ((sheetHeaders count groups).map columnOf),
        peerIndices (sheetHeaders count groups)⟩ := by
  have hcolumns : (sheetHeaders count groups).mapM NodeColumn.ofHeader =
      .ok ((sheetHeaders count groups).map columnOf) :=
    Text.mapM_eq_map fun h hh => ofHeader_of_mem hgroups hh
  unfold Layout.ofHeaders
  rw [hcolumns]
  simp only [Except.mapError, bind, Except.bind, unknownHeader?_eq_none hgroups hcount]
  rfl

/-! ### Groups -/

theorem mem_ofColumns {group : NodeGroup}
    (hgroup : group ∈ NodeGroup.ofColumns ((sheetHeaders count groups).map columnOf)) :
    (group.kind, group.name) ∈ groups ∧ ∀ attr, group.columns.lookup attr =
      Table.position? (sheetHeaders count groups)
        (NodeColumn.header ⟨group.kind, group.name, attr⟩) := by
  unfold NodeGroup.ofColumns at hgroup
  obtain ⟨⟨kind, name⟩, hmem, rfl⟩ := List.mem_map.1 hgroup
  refine ⟨(?_ : (kind, name) ∈ groups), fun attr => ?_⟩
  · rw [Text.mem_sortOn, List.mem_eraseDups, List.mem_filterMap] at hmem
    obtain ⟨column?, hmapped, hsome⟩ := hmem
    obtain ⟨h, hh, rfl⟩ := List.mem_map.1 hmapped
    obtain ⟨column, hcolumn, hpair⟩ := Option.map_eq_some_iff.1 hsome
    obtain rfl := (columnOf_eq_some hgroups hh).1 hcolumn
    rw [← hpair]
    exact (header_mem_sheetHeaders.1 hh).1
  · rw [lookup_filterMap (Attribute.mem_all attr), Table.lastIndex?_map]
    refine Table.lastIndex?_congr fun h hh => ?_
    exact decide_eq_decide.2 (columnOf_eq_some hgroups hh)

theorem exists_ofColumns {g : NodeKind × String} (hg : g ∈ groups) :
    ∃ group ∈ NodeGroup.ofColumns ((sheetHeaders count groups).map columnOf),
      (group.kind, group.name) = g := by
  have hattr : Attribute.hyperlink ∈ Attribute.ofKind g.1 := by cases g.1 <;> decide
  have hh : NodeColumn.header ⟨g.1, g.2, .hyperlink⟩ ∈ sheetHeaders count groups :=
    header_mem_sheetHeaders.2 ⟨hg, hattr⟩
  have hcolumn := (columnOf_eq_some hgroups hh).2 rfl
  unfold NodeGroup.ofColumns
  refine ⟨_, List.mem_map_of_mem (a := g) ?_, rfl⟩
  rw [Text.mem_sortOn, List.mem_eraseDups, List.mem_filterMap]
  exact ⟨_, List.mem_map_of_mem hh, by rw [hcolumn]; rfl⟩

end Reading

end Sheet

end Crosswalk
