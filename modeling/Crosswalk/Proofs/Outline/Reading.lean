import Crosswalk.Exchange.Outline
import Crosswalk.Proofs.Exchange.Reading
import Crosswalk.Proofs.Table
import Mathlib.Data.List.GetD

/-!
# Reading an outline

The rows above decide what a row is read as only through the last names seen, one a level. What is
read from the rows one by one is merged as in any other table. At a depth, the last of the names at
shallower levels is the name of the latest row whose own requirement stands at a shallower level.
-/

namespace Crosswalk.Outline

variable {layout : Layout} {above names : List String} {row : List String}
  {rows earlier : List (List String)} {depth d : Nat} {name : String}

/-! ### Row by row -/

/-- What a row is read as, below some last names. -/
def rowReading (layout : Layout) (above row : List String) :
    Except Failure (List (Document Unit)) :=
  match Table.lastIndex? (· != "") (rowNames layout row) with
  | none => namelessRow layout row
  | some depth => rowDocuments layout row ((rowNames layout row).getD depth "")
      (parent? (rowNames layout row) above depth)

/-- The last names after a row. -/
def below (layout : Layout) (above row : List String) : List String :=
  match Table.lastIndex? (· != "") (rowNames layout row) with
  | none => above
  | some depth => descend above depth ((rowNames layout row).getD depth "")

/-- What some rows are read as, below some last names. -/
def readings (layout : Layout) (above : List String) :
    List (List String) → List (Except Failure (List (Document Unit)))
  | [] => []
  | row :: rows => rowReading layout above row :: readings layout (below layout above row) rows

theorem addRows_eq (layout : Layout) (m : Merged) (above : List String) (number : Nat)
    (rows : List (List String)) :
    addRows layout m above number rows = m.addResults number (readings layout above rows) := by
  induction rows generalizing m above number with
  | nil => rfl
  | cons row rows ih =>
    simp only [addRows, readings, Merged.addResults, rowReading, below]
    cases Table.lastIndex? (· != "") (rowNames layout row) <;> exact ih ..

theorem layout_eq {headers : List String} (h : Layout.ofHeaders headers = .ok layout) :
    layout.headers = headers ∧ layout.levels = levelColumns headers := by
  unfold Layout.ofHeaders at h
  split at h
  · cases h
  · obtain ⟨groups, -, h⟩ := bind_eq_ok.1 h
    cases h
    exact ⟨rfl, rfl⟩

/-- No names seen. -/
def start (layout : Layout) : List String :=
  layout.levels.map fun _ => ""

theorem decode_eq {t : Table} (h : Layout.ofHeaders t.headers = .ok layout) :
    decode t = .ok
      (Merged.empty.addResults 1 (readings layout (start layout) t.rows)).decoded := by
  rw [decode, h, ← addRows_eq]
  rfl

theorem readings_append (layout : Layout) (above : List String) (rows rows' : List (List String)) :
    readings layout above (rows ++ rows') =
      readings layout above rows ++ readings layout (rows.foldl (below layout) above) rows' := by
  induction rows generalizing above with
  | nil => rfl
  | cons row rows ih => simp [readings, ih]

theorem getElem?_readings (layout : Layout) (above : List String) (rows : List (List String))
    (n : Nat) : (readings layout above rows)[n]? =
      (rows[n]?).map (rowReading layout ((rows.take n).foldl (below layout) above)) := by
  induction rows generalizing above n with
  | nil => simp [readings]
  | cons row rows ih => cases n <;> simp [readings, ih]

/-! ### Last names -/

@[simp]
theorem lastName?_nil : lastName? [] = none := rfl

theorem lastName?_append (as bs : List String) :
    lastName? (as ++ bs) = (lastName? bs).or (lastName? as) := by
  simp [lastName?, List.getLast?_append]

@[simp]
theorem lastName?_replicate (n : Nat) : lastName? (List.replicate n "") = none := by
  simp [lastName?]

theorem lastName?_cons_replicate (hname : name ≠ "") (n : Nat) :
    lastName? (name :: List.replicate n "") = some name := by
  simp [lastName?, hname]

theorem lastName?_blank (h : ∀ s ∈ names, s = "") : lastName? names = none := by
  rw [List.eq_replicate_of_mem h, lastName?_replicate]

/-- The names seen before a depth, after a name that stands there or deeper. -/
theorem take_descend_of_le (hd : d ≤ depth) (hdepth : depth ≤ above.length) :
    (descend above depth name).take d = above.take d := by
  rw [descend, List.take_append_of_le_length (by simp; omega), List.take_take, Nat.min_eq_left hd]

/-- The name seen last before a depth, after a name that stands at a shallower level. -/
theorem lastName?_take_descend (hname : name ≠ "") (hd : depth < d) (hdepth : depth < above.length) :
    lastName? ((descend above depth name).take d) = some name := by
  obtain ⟨k, rfl⟩ : ∃ k, d = depth + (k + 1) := ⟨d - depth - 1, by omega⟩
  have hlength : (above.take depth).length = depth := by simp; omega
  rw [descend, List.take_append, hlength, Nat.add_sub_cancel_left, List.take_succ_cons,
    List.take_replicate, lastName?_append, lastName?_cons_replicate hname]
  rfl

@[simp]
theorem length_descend (hdepth : depth < above.length) :
    (descend above depth name).length = above.length := by
  simp [descend]
  omega

/-! ### The last requirement above -/

/-- The requirement of a row, if it stands at a level shallower than a depth. -/
def own? (names : List String) (d : Nat) : Option String :=
  (Table.lastIndex? (· != "") names).bind fun depth =>
    if depth < d then some (names.getD depth "") else none

/-- The latest of the requirements of some rows that stands at a level shallower than a depth. -/
def lastOwn? (layout : Layout) (rows : List (List String)) (d : Nat) : Option String :=
  rows.reverse.findSome? fun row => own? (rowNames layout row) d

theorem own_of_lastIndex? (h : Table.lastIndex? (· != "") names = some depth) :
    depth < names.length ∧ names.getD depth "" ≠ "" := by
  obtain ⟨s, hs, hne⟩ := Table.exists_of_lastIndex? h
  refine ⟨(List.getElem?_eq_some_iff.1 hs).1, ?_⟩
  rw [List.getD_eq_getElem?_getD, hs]
  simpa using hne

theorem length_rowNames : (rowNames layout row).length = layout.levels.length := by
  simp [rowNames]

theorem length_below (h : above.length = layout.levels.length) :
    (below layout above row).length = layout.levels.length := by
  unfold below
  split
  · exact h
  · rename_i depth hdepth
    have hlt := (own_of_lastIndex? hdepth).1
    rw [length_rowNames, ← h] at hlt
    rw [length_descend hlt, h]

theorem length_foldl_below (h : above.length = layout.levels.length) :
    (rows.foldl (below layout) above).length = layout.levels.length := by
  induction rows generalizing above with
  | nil => exact h
  | cons row rows ih => exact ih (length_below h)

/-- One more row: its own requirement is the last one, unless it does not stand before the depth. -/
theorem lastName?_below (h : above.length = layout.levels.length) :
    lastName? ((below layout above row).take d) =
      (own? (rowNames layout row) d).or (lastName? (above.take d)) := by
  unfold below own?
  cases hdepth : Table.lastIndex? (· != "") (rowNames layout row) with
  | none => rfl
  | some depth =>
    obtain ⟨hlt, hname⟩ := own_of_lastIndex? hdepth
    rw [length_rowNames, ← h] at hlt
    by_cases hd : depth < d
    · simp only [Option.bind_some, hd, if_true, lastName?_take_descend hname hd hlt, Option.some_or]
    · simp only [Option.bind_some, hd, if_false, take_descend_of_le (Nat.le_of_not_lt hd) hlt.le,
        Option.none_or]

/-- The last name seen above at a shallower level is that of the last requirement there. -/
theorem lastName?_foldl_below (layout : Layout) (rows : List (List String)) (d : Nat) :
    lastName? ((rows.foldl (below layout) (start layout)).take d) = lastOwn? layout rows d := by
  have hstart : (start layout).length = layout.levels.length := by simp [start]
  induction rows using List.reverseRecOn with
  | nil =>
    refine lastName?_blank fun s hs => ?_
    obtain ⟨-, -, rfl⟩ := List.mem_map.1 (List.mem_of_mem_take hs)
    rfl
  | append_singleton rows row ih =>
    rw [List.foldl_concat, lastName?_below (length_foldl_below hstart), ih]
    simp only [lastOwn?, List.reverse_append, List.reverse_cons, List.reverse_nil, List.nil_append,
      List.cons_append, List.findSome?_cons]
    cases own? (rowNames layout row) d <;> rfl

/-! ### Rows with one name -/

/-- A name stands at a level, and there is no other one. -/
def OnlyAt (names : List String) (d : Nat) : Prop :=
  names.getD d "" ≠ "" ∧ ∀ i, i ≠ d → names.getD i "" = ""

/-- A name that is indented to a depth. -/
theorem onlyAt_indented (depth rest : Nat) (hname : name ≠ "") :
    OnlyAt (List.replicate depth "" ++ name :: List.replicate rest "") depth := by
  refine ⟨by simpa using hname, fun i hi => ?_⟩
  rw [List.getD_eq_getElem?_getD]
  rcases Nat.lt_or_gt_of_ne hi with hlt | hgt
  · rw [List.getElem?_append_left (by simpa using hlt), List.getElem?_replicate, if_pos hlt]
    rfl
  · obtain ⟨j, rfl⟩ : ∃ j, i = depth + (j + 1) := ⟨i - depth - 1, by omega⟩
    rw [List.getElem?_append_right (by simp), List.length_replicate, Nat.add_sub_cancel_left,
      List.getElem?_cons_succ, List.getElem?_replicate]
    split <;> rfl

theorem OnlyAt.lastIndex? (h : OnlyAt names d) : Table.lastIndex? (· != "") names = some d := by
  have hmem : names.getD d "" ∈ names := by
    rw [List.getD_eq_getElem?_getD]
    cases hd : names[d]? with
    | none => exact absurd (by rw [List.getD_eq_getElem?_getD, hd]; rfl) h.1
    | some s => exact List.mem_of_getElem? hd
  obtain ⟨i, hi⟩ := Option.isSome_iff_exists.1
    (Table.isSome_lastIndex? (p := (· != "")) hmem (by simpa using h.1))
  have hname := (own_of_lastIndex? hi).2
  rw [hi]
  by_contra hne
  exact hname (h.2 i fun heq => hne (congrArg some heq))

/-- On a row with one name nothing stands before it. -/
theorem OnlyAt.parent? (h : OnlyAt names d) (above : List String) :
    Outline.parent? names above d = lastName? (above.take d) := by
  have hbefore : lastName? (names.take d) = none := by
    refine lastName?_blank fun s hs => ?_
    obtain ⟨i, hi, rfl⟩ := List.mem_take_iff_getElem.1 hs
    have hblank := h.2 i (by omega)
    rwa [List.getD_eq_getElem names "" (by omega)] at hblank
  rw [Outline.parent?, hbefore, Option.none_or]

end Crosswalk.Outline
