import Crosswalk.Exchange.Outline
import Crosswalk.Proofs.Exchange.Written
import Crosswalk.Proofs.Text.Digit
import Crosswalk.Proofs.Text.Lines
import Crosswalk.Proofs.Text.Order

/-!
# Nodes on one row

The nodes of a document stand in a row as lines: every attribute has one cell, and the cell has a line
for every node. A cell loses its last line when that line is empty, and has no line when all are; so
the cells of a group differ in their numbers of lines. The relation is never empty, and its cell keeps
the count; what is missing in the others is read as empty. So all nodes of all documents come back, in
order.
-/

namespace Crosswalk.Outline

variable {ι : Type}

theorem map_range_getElem? {α β : Type} (f : α → β) (items : List α) :
    (List.range items.length).map (fun n => (items[n]?).map f) = items.map fun a => some (f a) := by
  refine List.ext_getElem (by simp) fun n hn hn' => ?_
  have hlt : n < items.length := by rwa [List.length_map] at hn'
  simp only [List.getElem_map, List.getElem_range, List.getElem?_eq_getElem hlt, Option.map_some]

/-! ### Bundles -/

/-- The nodes of one document, with their relations, in the order of their lines. They have what
there are columns for, and their texts survive as lines. -/
structure Bundle (ι : Type) where
  kind : NodeKind
  name : String
  entries : List (Relation × Node ι)
  name_trimmed : Text.trim name = name
  name_ne : name ≠ ""
  entries_ne : entries ≠ []
  grouped : ∀ p ∈ entries, Sheet.groupOf p.2 = (kind, name)
  untagged : ∀ p ∈ entries, p.2.tags = .empty
  unversioned : ∀ p ∈ entries, p.2.version = ""
  lined : ∀ p ∈ entries, ∀ attr ∈ Attribute.ofKind kind, Text.IsLine (attr.valueOf p.2)

namespace Bundle

def group (b : Bundle ι) : NodeKind × String :=
  (b.kind, b.name)

/-- The order of kinds, and within a kind the order of names. -/
def Before (a b : Bundle ι) : Prop :=
  a.kind.rank < b.kind.rank ∨ a.kind = b.kind ∧ a.name < b.name

/-- The text of an attribute of an entry, which for the relation is its text. -/
def textOf (p : Relation × Node ι) (attr : Attribute) : String :=
  if attr = .linkType then p.1.text else attr.valueOf p.2

/-- The cell of an attribute: a line for each entry. -/
def cell (b : Bundle ι) (attr : Attribute) : String :=
  Text.joinLines (b.entries.map fun p => textOf p attr)

/-- The columns of some bundles, one for every attribute of the kind. -/
def columns (bundles : List (Bundle ι)) : List (Bundle ι × Attribute) :=
  bundles.flatMap fun b => (Attribute.ofKind b.kind).map (b, ·)

def column (c : Bundle ι × Attribute) : NodeColumn :=
  ⟨c.1.kind, c.1.name, c.2⟩

def headers (bundles : List (Bundle ι)) : List String :=
  (columns bundles).map fun c => (column c).header

def row (bundles : List (Bundle ι)) : List String :=
  (columns bundles).map fun c => c.1.cell c.2

variable {bundles : List (Bundle ι)} {b : Bundle ι} {attr : Attribute}

theorem mem_columns : (b, attr) ∈ columns bundles ↔ b ∈ bundles ∧ attr ∈ Attribute.ofKind b.kind := by
  unfold columns
  rw [List.mem_flatMap]
  constructor
  · rintro ⟨b', hb', hmem⟩
    obtain ⟨attr', hattr', heq⟩ := List.mem_map.1 hmem
    cases heq
    exact ⟨hb', hattr'⟩
  · rintro ⟨hb, hattr⟩
    exact ⟨b, hb, List.mem_map_of_mem hattr⟩

theorem linkType_mem (kind : NodeKind) : Attribute.linkType ∈ Attribute.ofKind kind := by
  cases kind <;> decide

/-! ### Order -/

theorem Before.group_ne {a b : Bundle ι} (h : Before a b) : a.group ≠ b.group := by
  intro heq
  obtain ⟨hkind, hname⟩ := Prod.mk.inj heq
  rcases h with hlt | ⟨-, hlt⟩
  · rw [hkind] at hlt
    exact Nat.lt_irrefl _ hlt
  · rw [hname] at hlt
    exact String.lt_irrefl _ hlt

theorem Before.keyLe {a b : Bundle ι} (h : Before a b) :
    Text.keyLe (NodeGroup.orderKey a.group) (NodeGroup.orderKey b.group) = true := by
  unfold NodeGroup.orderKey group
  rw [Text.keyLe_pair]
  rcases h with hrank | ⟨hkind, hname⟩
  · have hlt : compare (toString a.kind.rank) (toString b.kind.rank) = .lt := by
      revert hrank
      cases a.kind <;> cases b.kind <;> decide
    rw [hlt]
    rfl
  · have heq : compare (toString b.kind.rank) (toString b.kind.rank) = .eq :=
      Std.ReflCmp.compare_self
    rw [hkind, heq, compare_lt_iff_lt.2 hname]
    rfl

theorem orderKey_injective {g g' : NodeKind × String}
    (h : NodeGroup.orderKey g = NodeGroup.orderKey g') : g = g' := by
  obtain ⟨hrank, hname⟩ := List.cons.inj h
  have hrank : g.1.rank = g'.1.rank := Text.toString_injective hrank
  refine Prod.ext ?_ (List.cons.inj hname).1
  revert hrank
  cases g.1 <;> cases g'.1 <;> decide

theorem groups_nodup (h : bundles.Pairwise Before) : (bundles.map group).Nodup :=
  List.pairwise_map.2 (h.imp Before.group_ne)

/-! ### Reading the headers -/

/-- Where the column of an attribute of a bundle stands. -/
def position? (bundles : List (Bundle ι)) (b : Bundle ι) (attr : Attribute) : Option Nat :=
  Table.lastIndex? (· = some ⟨b.kind, b.name, attr⟩) ((columns bundles).map fun c => some (column c))

/-- The group of columns that is read for a bundle. -/
def nodeGroup (bundles : List (Bundle ι)) (b : Bundle ι) : NodeGroup where
  kind := b.kind
  name := b.name
  columns := Attribute.all.filterMap fun attr => (position? bundles b attr).map (attr, ·)

theorem ofHeader_column (c : Bundle ι × Attribute) :
    NodeColumn.ofHeader (column c).header = .ok (some (column c)) :=
  NodeColumn.ofHeader_header (c := column c) c.1.name_trimmed c.1.name_ne

/-- The groups that are read are those of the bundles, in their order. -/
theorem ofHeaders_headers (h : bundles.Pairwise Before) :
    NodeGroup.ofHeaders (headers bundles) = .ok (bundles.map (nodeGroup bundles)) := by
  have hread : (headers bundles).mapM NodeColumn.ofHeader =
      .ok ((columns bundles).map fun c => some (column c)) := by
    rw [headers, List.mapM_map, Function.comp_def]
    exact Text.mapM_eq_map fun c _ => ofHeader_column c
  have hgroups : (((columns bundles).map fun c => some (column c)).filterMap fun c =>
      c.map fun c => (c.kind, c.name)) = (columns bundles).map fun c => c.1.group := by
    rw [List.filterMap_map]
    exact congrFun List.filterMap_eq_map (columns bundles)
  -- every bundle is announced by several columns, and becomes one group
  have hperm : ((columns bundles).map fun c => c.1.group).eraseDups.Perm (bundles.map group) := by
    refine (List.perm_ext_iff_of_nodup (nodup_eraseDups _) (groups_nodup h)).2 fun g => ?_
    rw [List.mem_eraseDups, List.mem_map, List.mem_map]
    constructor
    · rintro ⟨⟨b, attr⟩, hc, hg⟩
      exact ⟨b, (mem_columns.1 hc).1, hg⟩
    · rintro ⟨b, hb, hg⟩
      exact ⟨(b, .linkType), mem_columns.2 ⟨hb, linkType_mem b.kind⟩, hg⟩
  have hsorted : Text.sortOn NodeGroup.orderKey
      ((columns bundles).map fun c => c.1.group).eraseDups = bundles.map group := by
    rw [Text.sortOn_congr hperm fun _ _ _ _ => orderKey_injective]
    exact Text.sortOn_of_pairwise (List.pairwise_map.2 (h.imp Before.keyLe))
  rw [NodeGroup.ofHeaders, hread, Except.map, NodeGroup.ofColumns]
  dsimp only
  rw [hgroups, hsorted, List.map_map]
  rfl

/-- Where the column of an attribute stands, the row has the cell of that attribute. -/
theorem row_of_position? (h : bundles.Pairwise Before) (hb : b ∈ bundles) {i : Nat}
    (hi : position? bundles b attr = some i) :
    attr ∈ Attribute.ofKind b.kind ∧ (row bundles)[i]? = some (b.cell attr) := by
  obtain ⟨_, hfound, hcolumn⟩ := Table.exists_of_lastIndex? hi
  obtain rfl := of_decide_eq_true hcolumn
  rw [List.getElem?_map] at hfound
  obtain ⟨⟨b', attr'⟩, hc, heq⟩ := Option.map_eq_some_iff.1 hfound
  obtain ⟨hkind, hname, hattr⟩ := NodeColumn.mk.inj (Option.some.inj heq)
  obtain ⟨hb', hattr'⟩ := mem_columns.1 (List.mem_of_getElem? hc)
  obtain rfl : b' = b := Keyed.eq_of_key (groups_nodup h) hb' hb (Prod.ext hkind hname)
  obtain rfl : attr' = attr := hattr
  refine ⟨hattr', ?_⟩
  rw [row, List.getElem?_map, hc]
  rfl

theorem exists_position? (hb : b ∈ bundles) (hattr : attr ∈ Attribute.ofKind b.kind) :
    ∃ i, position? bundles b attr = some i := by
  refine Option.isSome_iff_exists.1 (Table.isSome_lastIndex? (a := some (column (b, attr))) ?_ ?_)
  · exact List.mem_map_of_mem (f := fun c => some (column c)) (mem_columns.2 ⟨hb, hattr⟩)
  · exact decide_eq_true rfl

/-! ### Reading the lines -/

theorem isLine_textOf {p : Relation × Node ι} (hp : p ∈ b.entries)
    (hattr : attr ∈ Attribute.ofKind b.kind) : Text.IsLine (textOf p attr) := by
  unfold textOf
  split
  · cases p.1 <;> exact ⟨by decide +kernel, by decide⟩
  · exact b.lined p hp attr hattr

/-- No relation is written as an empty line. -/
theorem textOf_linkType_ne (p : Relation × Node ι) : textOf p .linkType ≠ "" := by
  rw [textOf, if_pos rfl]
  cases p.1 <;> decide

theorem isLine_of_mem {t : String} (hattr : attr ∈ Attribute.ofKind b.kind)
    (ht : t ∈ b.entries.map fun p => textOf p attr) : Text.IsLine t := by
  obtain ⟨p, hp, rfl⟩ := List.mem_map.1 ht
  exact isLine_textOf hp hattr

theorem cellLines_eq {i : Nat} (hattr : attr ∈ Attribute.ofKind b.kind)
    (hi : (row bundles)[i]? = some (b.cell attr)) :
    cellLines (row bundles) i = Text.lines (b.cell attr) := by
  unfold cellLines
  rw [hi]
  exact Text.map_trim_lines_joinLines fun t ht => isLine_of_mem hattr ht

/-- The n-th line of a column is the text of the n-th entry. -/
theorem groupLine_eq (h : bundles.Pairwise Before) (hb : b ∈ bundles)
    (hattr : attr ∈ Attribute.ofKind b.kind) {n : Nat} {p : Relation × Node ι}
    (hp : b.entries[n]? = some p) :
    groupLine (nodeGroup bundles b) (row bundles) n attr = textOf p attr := by
  obtain ⟨i, hi⟩ := exists_position? hb hattr
  have hlookup : (nodeGroup bundles b).columns.lookup attr = some i := by
    rw [nodeGroup, lookup_filterMap (Attribute.mem_all attr)]
    exact hi
  unfold groupLine
  rw [hlookup]
  dsimp only
  rw [cellLines_eq hattr (row_of_position? h hb hi).2, cell,
    Text.getD_lines_joinLines fun t ht => isLine_of_mem hattr ht, List.getElem?_map, hp]
  rfl

theorem exists_column (hb : b ∈ bundles) (hattr : attr ∈ Attribute.ofKind b.kind) :
    ∃ i, (attr, i) ∈ (nodeGroup bundles b).columns := by
  obtain ⟨i, hi⟩ := exists_position? hb hattr
  exact ⟨i, List.mem_filterMap.2 ⟨attr, attr.mem_all, by rw [hi]; rfl⟩⟩

theorem of_mem_columns (h : bundles.Pairwise Before) (hb : b ∈ bundles) {i : Nat}
    (hi : (attr, i) ∈ (nodeGroup bundles b).columns) :
    attr ∈ Attribute.ofKind b.kind ∧ (row bundles)[i]? = some (b.cell attr) := by
  obtain ⟨attr', -, hmap⟩ := List.mem_filterMap.1 hi
  obtain ⟨j, hj, heq⟩ := Option.map_eq_some_iff.1 hmap
  cases heq
  exact row_of_position? h hb hj

/-- There are as many lines as entries: the column of relations has them all, and no other one has
more. -/
theorem lineCount_eq (h : bundles.Pairwise Before) (hb : b ∈ bundles) :
    lineCount (nodeGroup bundles b) (row bundles) = b.entries.length := by
  unfold lineCount
  apply Nat.le_antisymm
  · refine Nat.le_of_lt_succ (foldl_max_lt (Nat.succ_pos _) fun n hn => Nat.lt_succ_of_le ?_)
    obtain ⟨⟨attr, i⟩, hi, rfl⟩ := List.mem_map.1 hn
    obtain ⟨hattr, hcell⟩ := of_mem_columns h hb hi
    dsimp only
    rw [cellLines_eq hattr hcell]
    refine (Text.length_lines_joinLines_le fun t ht => isLine_of_mem hattr ht).trans ?_
    rw [List.length_map]
  · obtain ⟨i, hi⟩ := exists_column hb (linkType_mem b.kind)
    obtain ⟨hattr, hcell⟩ := of_mem_columns h hb hi
    refine le_foldl_max (.inr (List.mem_map.2 ⟨_, hi, ?_⟩))
    have hne : ∀ t ∈ b.entries.map fun p => textOf p .linkType, t ≠ "" := by
      intro t ht
      obtain ⟨p, -, rfl⟩ := List.mem_map.1 ht
      exact textOf_linkType_ne p
    dsimp only
    rw [cellLines_eq hattr hcell, cell,
      Text.lines_joinLines_of_ne (fun t ht => isLine_of_mem hattr ht) hne, List.length_map]

/-! ### Reading the nodes -/

theorem node?_eq (h : bundles.Pairwise Before) (hb : b ∈ bundles) {n : Nat}
    {p : Relation × Node ι} (hp : b.entries[n]? = some p) :
    (nodeGroup bundles b).node? (groupLine (nodeGroup bundles b) (row bundles) n) =
      .ok (some (p.1, p.2.withId ())) := by
  have hmem := List.mem_of_getElem? hp
  have hgroup := b.grouped p hmem
  have hkind : p.2.kind = b.kind := congrArg Prod.fst hgroup
  have hbare : p.2.bare = p.2.withId () := by
    unfold Node.bare Node.withId
    rw [b.untagged p hmem]
  have hrelation := groupLine_eq h hb (linkType_mem b.kind) hp
  obtain ⟨i, hi⟩ := exists_column hb (linkType_mem b.kind)
  rw [← hbare]
  refine Sheet.node?_eq_some hgroup.symm (b.unversioned p hmem) (fun attr hattr hne => ?_)
    ⟨_, hi, ?_⟩ ?_
  · rw [groupLine_eq h hb (hkind ▸ hattr) hp, textOf, if_neg hne]
  · exact hrelation ▸ textOf_linkType_ne p
  · rw [hrelation, textOf, if_pos rfl]
    exact Sheet.relationOr_text _ _

theorem groupNodes_eq (h : bundles.Pairwise Before) (hb : b ∈ bundles) :
    groupNodes (row bundles) (nodeGroup bundles b) =
      .ok (b.entries.map fun p => (p.1, p.2.withId ())) := by
  have hread : (List.range b.entries.length).mapM (fun n =>
        (nodeGroup bundles b).node? (groupLine (nodeGroup bundles b) (row bundles) n)) =
      .ok (b.entries.map fun p => some (p.1, p.2.withId ())) := by
    rw [← map_range_getElem?]
    refine Text.mapM_eq_map fun n hn => ?_
    have hp := List.getElem?_eq_getElem (List.mem_range.1 hn)
    rw [node?_eq h hb hp, hp]
    rfl
  rw [groupNodes, lineCount_eq h hb, hread]
  refine congrArg Except.ok ?_
  dsimp only
  rw [List.filterMap_map]
  exact congrFun List.filterMap_eq_map b.entries

end Bundle

/-- Whatever documents have nodes in a row and however many each has, all of their nodes come back
with their relations, in the order of documents and lines. -/
theorem standards_row (bundles : List (Bundle ι)) (h : bundles.Pairwise Bundle.Before) :
    standards (Bundle.headers bundles) (Bundle.row bundles) =
      .ok (bundles.flatMap fun b => b.entries.map fun p => (p.1, p.2.withId ())) := by
  have hread : (bundles.map (Bundle.nodeGroup bundles)).mapM (groupNodes (Bundle.row bundles)) =
      .ok (bundles.map fun b => b.entries.map fun p => (p.1, p.2.withId ())) := by
    rw [List.mapM_map, Function.comp_def]
    exact Text.mapM_eq_map fun b hb => Bundle.groupNodes_eq h hb
  unfold standards
  rw [Bundle.ofHeaders_headers h]
  show rowNodes _ _ = _
  rw [rowNodes, hread, List.flatMap_def]
  rfl

/-- Two sections of a standard with a colon in its name; the second one has no identifier. -/
def sections : Bundle Unit where
  kind := .standard
  name := "NIST: 800"
  entries :=
    [(.linkedTo, ⟨(), "NIST: 800", "", .empty, .standard "AC" "" "AC-1" ""⟩),
      (.related, ⟨(), "NIST: 800", "", .empty, .standard "IA" "" "" ""⟩)]
  name_trimmed := by decide
  name_ne := by decide
  entries_ne := by decide
  grouped := by decide
  untagged := by decide
  unversioned := by decide
  lined := by decide +kernel

/-- A piece of code of which only the document is known. -/
def snippet : Bundle Unit where
  kind := .code
  name := "Lib"
  entries := [(.tests, ⟨(), "Lib", "", .empty, .code ""⟩)]
  name_trimmed := by decide
  name_ne := by decide
  entries_ne := by decide
  grouped := by decide
  untagged := by decide
  unversioned := by decide
  lined := by decide +kernel

/-- The cells differ in their numbers of lines, and two have none. -/
theorem standards_row_sections :
    [sections, snippet].Pairwise Bundle.Before ∧
      Bundle.row [sections, snippet] =
        ["AC\nIA", "\n", "AC-1\n", "\n", "Linked To\nRelated", "", "Tests", ""] ∧
      standards (Bundle.headers [sections, snippet]) (Bundle.row [sections, snippet]) =
        .ok [(.linkedTo, ⟨(), "NIST: 800", "", .empty, .standard "AC" "" "AC-1" ""⟩),
          (.related, ⟨(), "NIST: 800", "", .empty, .standard "IA" "" "" ""⟩),
          (.tests, ⟨(), "Lib", "", .empty, .code ""⟩)] := by
  have hordered : [sections, snippet].Pairwise Bundle.Before :=
    List.pairwise_pair.2 (.inl (by decide))
  exact ⟨hordered, by decide, standards_row [sections, snippet] hordered⟩

end Crosswalk.Outline
