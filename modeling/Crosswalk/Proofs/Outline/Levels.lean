import Crosswalk.Proofs.Exchange.Layout
import Crosswalk.Proofs.Outline.Reading

/-!
# Level columns

A table that has level columns only, numbered from one, is read with these columns as its levels. It
has no node columns, and the cells of all other columns are empty.
-/

namespace Crosswalk

namespace Text

theorem trim_of_no_blank {s : String} (h : ∀ c ∈ s.toList, isBlank c = false) : trim s = s := by
  have hkeep : ∀ cs : List Char, (∀ c ∈ cs, isBlank c = false) → cs.dropWhile isBlank = cs := by
    intro cs hcs
    cases cs with
    | nil => rfl
    | cons c cs => rw [List.dropWhile_cons_of_neg (by simp [hcs c List.mem_cons_self])]
  have hreverse : ∀ c ∈ s.toList.reverse, isBlank c = false := by simpa using h
  rw [trim, trimChars, hkeep _ h, trimEnd, hkeep _ hreverse, List.reverse_reverse,
    String.ofList_toList]

theorem isBlank_of_isAsciiDigit {c : Char} (h : isAsciiDigit c = true) : isBlank c = false := by
  simp only [isAsciiDigit, Bool.and_eq_true, decide_eq_true_eq, Char.le_def, UInt32.le_iff_toNat_le,
    Char.reduceVal, UInt32.reduceToNat] at h
  simp only [isBlank, Char.toNat, Bool.or_eq_false_iff, Bool.and_eq_false_iff, decide_eq_false_iff_not,
    beq_eq_false_iff_ne]
  omega

theorem trim_toString (n : Nat) : trim (toString n) = toString n :=
  trim_of_no_blank fun _ hc => isBlank_of_isAsciiDigit (isAsciiDigit_of_mem_toString hc)

end Text

namespace Outline

variable {width i : Nat} {h : String}

/-- The header of the level with an index; the first level has number one. -/
def levelHeader (i : Nat) : String :=
  "CRE hierarchy " ++ toString (i + 1)

def levelHeaders (width : Nat) : List String :=
  (List.range width).map levelHeader

theorem level?_levelHeader (hi : i + 1 < UInt64.size) : level? (levelHeader i) = some (i + 1) := by
  rw [level?, levelHeader, Text.after?_append]
  simp only [Option.bind_eq_bind, Option.bind_some, Text.trim_toString, Text.parseCount?_toString hi]

theorem ofHeader_levelHeader (i : Nat) : NodeColumn.ofHeader (levelHeader i) = .ok none := by
  have hcolon : ':' ∉ (levelHeader i).toList := by
    rw [levelHeader, String.toList_append, List.mem_append, not_or]
    exact ⟨by decide, fun h => absurd (Text.isAsciiDigit_of_mem_toString h) (by decide)⟩
  have hcut : Text.cutFirst ':' (levelHeader i).toList = none := by
    cases hcut : Text.cutFirst ':' (levelHeader i).toList with
    | none => rfl
    | some p => exact absurd (by rw [(Text.cutFirst_eq_some hcut).1]; simp) hcolon
  rw [NodeColumn.ofHeader, hcut]

section

variable (hwidth : width < UInt64.size)

include hwidth

theorem levelColumns_levelHeaders : levelColumns (levelHeaders width) = List.range width := by
  have hzip : (levelHeaders width).zipIdx = (List.range width).map fun i => (levelHeader i, i) := by
    refine List.ext_getElem (by simp [levelHeaders]) fun i _ _ => ?_
    simp [levelHeaders]
  have hlevels : (levelHeaders width).zipIdx.filterMap
      (fun p => (level? p.1).map (·, p.2)) = (List.range width).map fun i => (i + 1, i) := by
    rw [hzip, List.filterMap_map, ← List.filterMap_eq_map]
    refine List.filterMap_congr fun i hi => ?_
    have hlt := List.mem_range.1 hi
    simp [level?_levelHeader (show i + 1 < UInt64.size by omega)]
  have hsorted : ((List.range width).map fun i => (i + 1, i)).Pairwise
      fun a b : Nat × Nat => decide (a.1 ≤ b.1) = true := by
    rw [List.pairwise_map]
    exact List.pairwise_lt_range.imp fun h => decide_eq_true (by omega)
  unfold levelColumns
  dsimp only
  rw [hlevels, List.mergeSort_of_pairwise hsorted, List.map_map]
  exact List.map_id _

theorem ofHeaders_levelHeaders (hpos : 0 < width) :
    Layout.ofHeaders (levelHeaders width) = .ok ⟨levelHeaders width, List.range width, []⟩ := by
  have hcolumns : (levelHeaders width).mapM NodeColumn.ofHeader =
      .ok ((levelHeaders width).map fun _ => none) := by
    refine Text.mapM_eq_map fun h hh => ?_
    obtain ⟨i, -, rfl⟩ := List.mem_map.1 hh
    exact ofHeader_levelHeader i
  have hgroups : NodeGroup.ofColumns ((levelHeaders width).map fun _ => none) = [] := by
    simp [NodeGroup.ofColumns, Text.sortOn]
  have hsome : (List.range width).isEmpty = false := by
    simp
    omega
  unfold Layout.ofHeaders NodeGroup.ofHeaders
  rw [levelColumns_levelHeaders hwidth, hcolumns, hsome, Except.map, hgroups]
  rfl

/-- There is no other column than the levels. -/
theorem cell_levelHeaders (hh : level? h = none) (row : List String) :
    Table.cell (levelHeaders width) row h = "" := by
  refine Table.cell_eq_empty row fun hmem => ?_
  obtain ⟨i, hi, rfl⟩ := List.mem_map.1 hmem
  have hlt := List.mem_range.1 hi
  rw [level?_levelHeader (by omega)] at hh
  cases hh

end

end Outline

end Crosswalk
