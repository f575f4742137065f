import Crosswalk.Proofs.Exchange.Merge
import Crosswalk.Proofs.Exchange.Row

/-!
# Reading a written sheet

A requirement is written on several rows: the n-th row holds the n-th node of each group, and the
first one the linked requirements. Each row is read as a part of the links, together the rows give
all of them, and what a requirement contains is read again as linked back to it.
-/

namespace Crosswalk

theorem nodup_eraseDups {α : Type} [BEq α] [LawfulBEq α] (items : List α) :
    items.eraseDups.Nodup := by
  have hfirsts := Keyed.firsts_nodup id items
  rw [List.map_id] at hfirsts
  exact hfirsts

theorem le_foldl_max {ns : List Nat} {start n : Nat} (h : n ≤ start ∨ n ∈ ns) :
    n ≤ ns.foldl max start := by
  induction ns generalizing start with
  | nil => exact h.resolve_right List.not_mem_nil
  | cons m ns ih =>
    refine ih ?_
    rcases h with h | h
    · exact .inl (h.trans (Nat.le_max_left ..))
    · rcases List.mem_cons.1 h with rfl | h
      · exact .inl (Nat.le_max_right ..)
      · exact .inr h

theorem foldl_max_lt {ns : List Nat} {start bound : Nat} (hstart : start < bound)
    (h : ∀ n ∈ ns, n < bound) : ns.foldl max start < bound := by
  induction ns generalizing start with
  | nil => exact hstart
  | cons n ns ih =>
    refine ih ?_ fun m hm => h m (List.mem_cons_of_mem _ hm)
    have hn := h n List.mem_cons_self
    omega

namespace Sheet

variable {ι : Type}

/-! ### Rows below the headers -/

theorem headers_pushAll (t : Table) (rows : List (List String)) :
    (pushAll t rows).headers = t.headers := by
  unfold pushAll
  induction rows generalizing t with
  | nil => rfl
  | cons row rows ih => exact ih (t.pushFitted row)

theorem rows_pushAll (t : Table) {rows : List (List String)}
    (h : ∀ row ∈ rows, row.length = t.headers.length) : (pushAll t rows).rows = t.rows ++ rows := by
  induction rows generalizing t with
  | nil => exact (List.append_nil _).symm
  | cons row rows ih =>
    have hrow : (t.pushFitted row).rows = t.rows ++ [row] := by
      unfold Table.pushFitted
      dsimp only
      rw [Table.fit_eq_self (h row List.mem_cons_self)]
    have hrows := ih (t.pushFitted row) fun row' hrow' => h row' (List.mem_cons_of_mem _ hrow')
    rw [hrow, List.append_assoc] at hrows
    exact hrows

/-! ### The nodes of a row -/

/-- The nodes that a row holds: of every group the one with the number of the row. -/
def nthNodes (nodes : List (Relation × Node ι)) (n : Nat) : List (Relation × Node ι) :=
  (byGroup nodes).filterMap (·[n]?)

/-- The number of rows that some nodes take. -/
def rowCount (nodes : List (Relation × Node ι)) : Nat :=
  max 1 (((byGroup nodes).map List.length).foldl max 0)

theorem mem_groupsOf {nodes : List (Node ι)} {g : NodeKind × String} :
    g ∈ groupsOf nodes ↔ ∃ n ∈ nodes, groupOf n = g := by
  unfold groupsOf
  rw [Text.mem_sortOn, List.mem_eraseDups, List.mem_map]

theorem groupsOf_nodup (nodes : List (Node ι)) : (groupsOf nodes).Nodup :=
  (Text.sortOn_perm _ _).nodup_iff.2 (nodup_eraseDups _)

variable {nodes : List (Relation × Node ι)} {p : Relation × Node ι} {n : Nat}

theorem mem_of_mem_nthNodes (h : p ∈ nthNodes nodes n) : p ∈ nodes := by
  obtain ⟨group, hgroup, hp⟩ := List.mem_filterMap.1 h
  obtain ⟨g, -, rfl⟩ := List.mem_map.1 hgroup
  exact (List.mem_filter.1 (List.mem_of_getElem? hp)).1

theorem exists_mem_nthNodes (hp : p ∈ nodes) : ∃ n < rowCount nodes, p ∈ nthNodes nodes n := by
  have hgroup : nodes.filter (fun q => groupOf q.2 = groupOf p.2) ∈ byGroup nodes :=
    List.mem_map_of_mem (f := fun g => nodes.filter fun q => groupOf q.2 = g)
      (mem_groupsOf.2 ⟨p.2, List.mem_map_of_mem hp, rfl⟩)
  have hmem : p ∈ nodes.filter fun q => groupOf q.2 = groupOf p.2 :=
    List.mem_filter.2 ⟨hp, decide_eq_true rfl⟩
  obtain ⟨n, hn, heq⟩ := List.getElem_of_mem hmem
  refine ⟨n, ?_, List.mem_filterMap.2 ⟨_, hgroup, ?_⟩⟩
  · have hle : (nodes.filter fun q => groupOf q.2 = groupOf p.2).length ≤
        ((byGroup nodes).map List.length).foldl max 0 :=
      le_foldl_max (.inr (List.mem_map_of_mem hgroup))
    unfold rowCount
    omega
  · rw [List.getElem?_eq_getElem hn, heq]

/-- A row holds at most one node of each group. -/
theorem nthNodes_once (nodes : List (Relation × Node ι)) (n : Nat) :
    ((nthNodes nodes n).map fun p => groupOf p.2).Nodup := by
  have hsub : ∀ gs : List (NodeKind × String),
      (((gs.map fun g => nodes.filter fun q => groupOf q.2 = g).filterMap (·[n]?)).map
        fun p => groupOf p.2).Sublist gs := by
    intro gs
    induction gs with
    | nil => exact .slnil
    | cons g gs ih =>
      rw [List.map_cons, List.filterMap_cons]
      cases hp : (nodes.filter fun q => groupOf q.2 = g)[n]? with
      | none => exact ih.cons g
      | some p =>
        have hgroup : groupOf p.2 = g :=
          of_decide_eq_true (List.mem_filter.1 (List.mem_of_getElem? hp)).2
        rw [List.map_cons, hgroup]
        exact ih.cons_cons g
  exact (groupsOf_nodup _).sublist (hsub _)

/-! ### The cells of a row -/

/-- The linked requirements that a row holds: all of them stand on the first one. -/
def peersAt (links : List (Link ι)) (n : Nat) : List (Relation × Requirement ι) :=
  if n = 0 then linkedRequirements links else []

theorem mem_of_mem_peersAt {links : List (Link ι)} {n : Nat} {q : Relation × Requirement ι}
    (h : q ∈ peersAt links n) : q ∈ linkedRequirements links := by
  unfold peersAt at h
  split at h
  · exact h
  · exact absurd h List.not_mem_nil

theorem length_peersAt_le (links : List (Link ι)) (n : Nat) :
    (peersAt links n).length ≤ (linkedRequirements links).length := by
  unfold peersAt
  split
  · exact le_rfl
  · exact Nat.zero_le _

/-- The cells of the row with a number. -/
def rowCells (r : Requirement ι) (links : List (Link ι)) (n : Nat) : List (String × String) :=
  requirementCells r ++ peerCells (peersAt links n) ++
    nodesCells Relation.text (nthNodes (linkedNodes links) n)

theorem requirementRows_eq (headers : List String) (r : Requirement ι) (links : List (Link ι)) :
    requirementRows headers r links =
      (List.range (rowCount (linkedNodes links))).map fun n => rowOf headers (rowCells r links n) := by
  unfold requirementRows
  refine List.map_congr_left fun n _ => ?_
  have hpeers : (if n = 0 then peerCells (linkedRequirements links) else []) =
      peerCells (peersAt links n) := by
    unfold peersAt
    split <;> rfl
  unfold rowCells nthNodes nodesCells
  rw [hpeers]
  refine congrArg (fun cells => rowOf headers (requirementCells r ++
    peerCells (peersAt links n) ++ cells)) ?_
  induction byGroup (linkedNodes links) with
  | nil => rfl
  | cons group groups ih =>
    rw [List.flatMap_cons, List.filterMap_cons, ih]
    cases group[n]? <;> rfl

theorem lookup_requirementCells (r : Requirement ι) :
    (requirementCells r).lookup idHeader = some r.externalText ∧
      (requirementCells r).lookup nameHeader = some r.name ∧
      (requirementCells r).lookup descriptionHeader = some r.description := by
  have hname : (nameHeader == idHeader) = false := by decide
  have hid : (descriptionHeader == idHeader) = false := by decide
  have hdescription : (descriptionHeader == nameHeader) = false := by decide
  unfold requirementCells
  simp [List.lookup_cons, hname, hid, hdescription]

theorem lookup_requirementCells_of_ne {h : String}
    (hne : ∀ own ∈ [idHeader, nameHeader, descriptionHeader], h ≠ own) (r : Requirement ι) :
    (requirementCells r).lookup h = none := by
  rw [List.lookup_eq_none_iff]
  intro p hp
  have hown : p.1 ∈ (requirementCells r).map (·.1) := List.mem_map_of_mem hp
  rw [bne_iff_ne]
  exact hne _ hown

theorem lookup_rowCells_own {h : String} (hh : h ∈ [idHeader, nameHeader, descriptionHeader])
    (r : Requirement ι) (links : List (Link ι)) (n : Nat) :
    (rowCells r links n).lookup h = (requirementCells r).lookup h := by
  obtain ⟨hid, hname, hdescription⟩ := lookup_requirementCells r
  unfold rowCells
  rw [List.append_assoc, List.lookup_append]
  simp only [List.mem_cons, List.not_mem_nil, or_false] at hh
  rcases hh with rfl | rfl | rfl
  · rw [hid]
    rfl
  · rw [hname]
    rfl
  · rw [hdescription]
    rfl

theorem lookup_rowCells_header (column : NodeColumn) (r : Requirement ι) (links : List (Link ι))
    (n : Nat) : (rowCells r links n).lookup column.header =
      (nodesCells Relation.text (nthNodes (linkedNodes links) n)).lookup column.header := by
  have hown := lookup_requirementCells_of_ne (fun _ hh => header_ne_own column hh) r
  have hpeer := lookup_peerCells_of_ne (header_ne_peerHeader column) (peersAt links n)
  unfold rowCells
  rw [List.lookup_append, List.lookup_append, hown, hpeer]
  rfl

theorem lookup_rowCells_peerHeader {attr : String} (hattr : attr ∈ peerAttributes)
    (r : Requirement ι) (links : List (Link ι)) (n i : Nat) :
    (rowCells r links n).lookup (peerHeader i attr) =
      ((peersAt links n)[i]?).map (peerValue attr) := by
  have hown := lookup_requirementCells_of_ne (fun _ hh => peerHeader_ne_own hh i attr) r
  have hnodes : (nodesCells Relation.text (nthNodes (linkedNodes links) n)).lookup
      (peerHeader i attr) = none := by
    rw [List.lookup_eq_none_iff]
    intro p hp
    obtain ⟨q, -, hmem⟩ := List.mem_flatMap.1 hp
    obtain ⟨attr', -, rfl⟩ := List.mem_map.1 hmem
    rw [bne_iff_ne]
    exact (header_ne_peerHeader _ i attr).symm
  unfold rowCells
  rw [List.lookup_append, List.lookup_append, hown, hnodes, Option.or_none, Option.none_or,
    lookup_peerCells hattr]

end Sheet

end Crosswalk
