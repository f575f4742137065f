import Crosswalk.Table

/-!
# Looking up cells

The last position of an item holds the item, and there is one whenever the item occurs. Where a row
is computed from the headers, the cell under a header is the one computed for it, whichever of
several equal headers is meant.
-/

namespace Crosswalk.Table

variable {α β : Type}

theorem lastIndex?_map (p : β → Bool) (f : α → β) (items : List α) :
    lastIndex? p (items.map f) = lastIndex? (fun a => p (f a)) items := by
  induction items with
  | nil => rfl
  | cons a items ih => simp only [List.map_cons, lastIndex?, ih]

theorem lastIndex?_congr {p q : α → Bool} {items : List α} (h : ∀ a ∈ items, p a = q a) :
    lastIndex? p items = lastIndex? q items := by
  induction items with
  | nil => rfl
  | cons a items ih =>
    have ha := h a List.mem_cons_self
    have hitems := ih fun b hb => h b (List.mem_cons_of_mem _ hb)
    simp only [lastIndex?, ha, hitems]

theorem exists_of_lastIndex? {p : α → Bool} {items : List α} {i : Nat}
    (h : lastIndex? p items = some i) : ∃ a, items[i]? = some a ∧ p a = true := by
  induction items generalizing i with
  | nil => cases h
  | cons a items ih =>
    unfold lastIndex? at h
    cases hrest : lastIndex? p items with
    | some j =>
      rw [hrest] at h
      cases h
      exact ih hrest
    | none =>
      rw [hrest] at h
      by_cases ha : p a = true
      · simp only [ha, if_true] at h
        cases h
        exact ⟨a, rfl, ha⟩
      · simp [ha] at h

theorem isSome_lastIndex? {p : α → Bool} {items : List α} {a : α} (ha : a ∈ items)
    (hp : p a = true) : (lastIndex? p items).isSome = true := by
  induction items with
  | nil => exact absurd ha List.not_mem_nil
  | cons b items ih =>
    unfold lastIndex?
    cases hrest : lastIndex? p items with
    | some j => rfl
    | none =>
      rcases List.mem_cons.1 ha with rfl | ha
      · simp [hp]
      · have hsome := ih ha
        rw [hrest] at hsome
        cases hsome

variable {headers : List String} {h : String}

theorem isSome_position? : (position? headers h).isSome = true ↔ h ∈ headers := by
  constructor
  · intro hsome
    obtain ⟨i, hi⟩ := Option.isSome_iff_exists.1 hsome
    obtain ⟨a, ha, heq⟩ := exists_of_lastIndex? hi
    rw [decide_eq_true_eq] at heq
    exact heq ▸ List.mem_of_getElem? ha
  · exact fun hh => isSome_lastIndex? hh (decide_eq_true rfl)

/-- The cell under a header of a row that is computed from the headers. -/
theorem cell_map (f : String → String) (hh : h ∈ headers) :
    cell headers (headers.map f) h = Text.trim (f h) := by
  obtain ⟨i, hi⟩ := Option.isSome_iff_exists.1 (isSome_position?.2 hh)
  obtain ⟨a, ha, heq⟩ := exists_of_lastIndex? hi
  rw [decide_eq_true_eq] at heq
  unfold cell cellAt
  rw [hi]
  simp only [Option.bind_some, List.getElem?_map, ha, Option.map_some, heq]

theorem cell_eq_empty (row : List String) (hh : h ∉ headers) : cell headers row h = "" := by
  have hnone : position? headers h = none := by
    rw [← Option.not_isSome_iff_eq_none, isSome_position?]
    exact hh
  unfold cell cellAt
  rw [hnone]
  rfl

end Crosswalk.Table
