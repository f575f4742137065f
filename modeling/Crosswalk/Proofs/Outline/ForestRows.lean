import Crosswalk.Proofs.Outline.Forest
import Crosswalk.Proofs.Outline.Levels

/-!
# A forest as an outline

A forest is written with one row a name, which stands in the column of its depth, a parent above its
children. While the rows of a subtree are read, the last names seen at the levels above it stay, so
each row is read below its parent. The parent is merged with what was read of it before and gets one
more child, and in the end there is one document for every name.
-/

namespace Crosswalk

open Outline

namespace Forest

/-! ### Rows -/

/-- The row of a name at a depth. -/
def indented (width depth : Nat) (name : String) : List String :=
  List.replicate depth "" ++ name :: List.replicate (width - depth - 1) ""

/-- The rows of a forest whose roots stand at a depth. -/
def rows (width : Nat) (depth : Nat) : Forest → List (List String)
  | nil => []
  | cons name children siblings =>
    indented width depth name :: (children.rows width (depth + 1) ++ siblings.rows width depth)

theorem length_of_mem_rows {f : Forest} {width depth : Nat} (hfit : depth + f.height ≤ width) :
    ∀ row ∈ f.rows width depth, row.length = width := by
  induction f generalizing depth with
  | nil => simp [rows]
  | cons name children siblings ihc ihs =>
    rw [height] at hfit
    intro row hrow
    rw [rows, List.mem_cons, List.mem_append] at hrow
    rcases hrow with rfl | hrow | hrow
    · simp [indented]
      omega
    · exact ihc (by omega) row hrow
    · exact ihs (by omega) row hrow

/-- The outline of a forest with a number of levels. -/
def outline (f : Forest) (width : Nat) (hfit : f.height ≤ width) : Table where
  headers := levelHeaders width
  rows := f.rows width 0
  widths := by
    intro row hrow
    rw [length_of_mem_rows (by simpa using hfit) row hrow]
    simp [levelHeaders]

/-! ### Reading the rows -/

/-- A requirement that contains some others. -/
def family (name : String) (children : List String) : Document Unit :=
  .mk (.requirement (named name))
    (children.map fun child => .mk .contains (.ofRequirement (named child)))

/-- What the row of a name below a parent is read as. -/
def member (parent : Option String) (name : String) : List (Document Unit) :=
  family name [] :: parent.toList.map fun p => family p [name]

/-- What the rows of a forest below a parent are read as. -/
def members (parent : Option String) : Forest → List (List (Document Unit))
  | nil => []
  | cons name children siblings =>
    member parent name :: (children.members (some name) ++ siblings.members parent)

/-- The names are neither empty nor with blanks around them. -/
def Plain (f : Forest) : Prop :=
  ∀ name ∈ f.names, Text.trim name = name ∧ name ≠ ""

theorem Plain.of_cons {name : String} {children siblings : Forest}
    (h : (cons name children siblings).Plain) :
    (Text.trim name = name ∧ name ≠ "") ∧ children.Plain ∧ siblings.Plain := by
  simp only [Plain, names_cons, List.forall_mem_cons, List.forall_mem_append] at h
  exact h

/-- The layout of a table of level columns. -/
def layout (width : Nat) : Layout :=
  ⟨levelHeaders width, List.range width, []⟩

variable {width depth : Nat} {name : String} {above : List String} {parent : Option String}

theorem rowNames_indented (hdepth : depth < width) (htrim : Text.trim name = name) :
    rowNames (layout width) (indented width depth name) = indented width depth name := by
  have hlength : (indented width depth name).length = width := by
    simp [indented]
    omega
  have hcell : ∀ s ∈ indented width depth name, Text.trim s = s := by
    intro s hs
    simp only [indented, List.mem_append, List.mem_cons, List.mem_replicate] at hs
    rcases hs with ⟨-, rfl⟩ | rfl | ⟨-, rfl⟩
    · rfl
    · exact htrim
    · rfl
  refine List.ext_getElem (by simp [rowNames, layout, hlength]) fun i hi hi' => ?_
  simp [rowNames, layout, Table.cellAt, hi', hcell _ (List.getElem_mem hi')]

theorem onlyAt_row (hdepth : depth < width) (htrim : Text.trim name = name) (hname : name ≠ "") :
    OnlyAt (rowNames (layout width) (indented width depth name)) depth := by
  rw [rowNames_indented hdepth htrim]
  exact onlyAt_indented depth _ hname

theorem getD_row (hdepth : depth < width) (htrim : Text.trim name = name) :
    (rowNames (layout width) (indented width depth name)).getD depth "" = name := by
  rw [rowNames_indented hdepth htrim]
  simp [indented]

theorem rowDocuments_layout (hwidth : width < UInt64.size) (row : List String) (name : String)
    (parent : Option String) :
    rowDocuments (layout width) row name parent = .ok (member parent name) := by
  have hid : Table.cell (levelHeaders width) row idHeader = "" :=
    cell_levelHeaders hwidth (by decide +kernel) row
  have htags : Table.cell (levelHeaders width) row tagsHeader = "" :=
    cell_levelHeaders hwidth (by decide +kernel) row
  have hrelated : Table.cell (levelHeaders width) row relatedHeader = "" :=
    cell_levelHeaders hwidth (by decide +kernel) row
  have hitems : items "" = [] := by decide +kernel
  unfold rowDocuments layout
  simp only [hid, htags, hrelated, hitems]
  cases parent <;> rfl

theorem rowReading_indented (hwidth : width < UInt64.size) (hdepth : depth < width)
    (htrim : Text.trim name = name) (hname : name ≠ "") :
    rowReading (layout width) above (indented width depth name) =
      .ok (member (lastName? (above.take depth)) name) := by
  have honly := onlyAt_row hdepth htrim hname
  rw [rowReading, honly.lastIndex?]
  dsimp only
  rw [honly.parent?, getD_row hdepth htrim, rowDocuments_layout hwidth]

theorem below_indented (hdepth : depth < width) (htrim : Text.trim name = name) (hname : name ≠ "") :
    below (layout width) above (indented width depth name) = descend above depth name := by
  rw [below, (onlyAt_row hdepth htrim hname).lastIndex?]
  dsimp only
  rw [getD_row hdepth htrim]

theorem length_below_rows {rows : List (List String)} (hlength : above.length = width) :
    (rows.foldl (below (layout width)) above).length = width := by
  have hlevels : (layout width).levels.length = width := List.length_range
  rw [length_foldl_below (hlength.trans hlevels.symm), hlevels]

/-- Where all levels down to a name stay, those above it stay. -/
theorem take_of_take_succ {after : List String} (hdepth : depth ≤ above.length)
    (h : after.take (depth + 1) = (descend above depth name).take (depth + 1)) :
    after.take depth = above.take depth := by
  have hkept := congrArg (List.take depth) h
  rw [List.take_take, List.take_take, Nat.min_eq_left (Nat.le_succ depth)] at hkept
  rw [hkept, take_descend_of_le (Nat.le_refl _) hdepth]

/-- The rows of a forest leave the last names above it as they are. -/
theorem take_below_rows {f : Forest} (hplain : f.Plain) (hlength : above.length = width)
    (hfit : depth + f.height ≤ width) :
    ((f.rows width depth).foldl (below (layout width)) above).take depth = above.take depth := by
  induction f generalizing depth above with
  | nil => rfl
  | cons name children siblings ihc ihs =>
    rw [height] at hfit
    obtain ⟨⟨htrim, hname⟩, hchildren, hsiblings⟩ := hplain.of_cons
    have hdepth : depth < width := by omega
    have hfitChildren : depth + 1 + children.height ≤ width := by omega
    have hbelow : (descend above depth name).length = width := by
      rw [length_descend (by omega), hlength]
    rw [rows, List.foldl_cons, List.foldl_append, below_indented hdepth htrim hname,
      ihs hsiblings (length_below_rows hbelow) (by omega)]
    exact take_of_take_succ (by omega) (ihc hchildren hbelow hfitChildren)

/-- Every row of a forest is read below its parent. -/
theorem readings_rows {f : Forest} (hwidth : width < UInt64.size) (hplain : f.Plain)
    (hlength : above.length = width) (hfit : depth + f.height ≤ width)
    (hparent : lastName? (above.take depth) = parent) :
    readings (layout width) above (f.rows width depth) = (f.members parent).map .ok := by
  induction f generalizing depth above parent with
  | nil => rfl
  | cons name children siblings ihc ihs =>
    rw [height] at hfit
    obtain ⟨⟨htrim, hname⟩, hchildren, hsiblings⟩ := hplain.of_cons
    have hdepth : depth < width := by omega
    have hfitChildren : depth + 1 + children.height ≤ width := by omega
    have hbelow : (descend above depth name).length = width := by
      rw [length_descend (by omega), hlength]
    have hlast : lastName? ((descend above depth name).take (depth + 1)) = some name :=
      lastName?_take_descend hname (Nat.lt_succ_self _) (by omega)
    have hstay : ((children.rows width (depth + 1)).foldl (below (layout width))
        (descend above depth name)).take depth = above.take depth :=
      take_of_take_succ (by omega) (take_below_rows hchildren hbelow hfitChildren)
    rw [rows, readings, readings_append, below_indented hdepth htrim hname,
      rowReading_indented hwidth hdepth htrim hname, hparent,
      ihc hchildren hbelow hfitChildren hlast,
      ihs hsiblings (length_below_rows hbelow) (by omega) (hstay ▸ hparent), members]
    simp

end Forest

end Crosswalk
