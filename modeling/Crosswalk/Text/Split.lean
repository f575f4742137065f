/-!
# Cutting and searching texts

A text is cut at the first or at the last occurrence of a separator, or at every one of them; its
lines end in a line feed or in a carriage return and a line feed. Searching asks whether a text
occurs in another one, as written or with the ASCII letters of both in lower case.
-/

namespace Crosswalk.Text

/-! ### At one separator -/

/-- The parts before and after the first occurrence of the separator. -/
def cutFirst (sep : Char) : List Char → Option (List Char × List Char)
  | [] => none
  | c :: cs => if c = sep then some ([], cs) else (cutFirst sep cs).map fun (a, b) => (c :: a, b)

/-- The parts before and after the last occurrence of the separator. -/
def cutLast (sep : Char) : List Char → Option (List Char × List Char)
  | [] => none
  | c :: cs =>
    match cutLast sep cs with
    | some (a, b) => some (c :: a, b)
    | none => if c = sep then some ([], cs) else none

theorem cutFirst_append {sep : Char} {a b : List Char} (h : sep ∉ a) :
    cutFirst sep (a ++ sep :: b) = some (a, b) := by
  induction a with
  | nil => simp [cutFirst]
  | cons c a ih =>
    simp only [List.mem_cons, not_or] at h
    simp [cutFirst, Ne.symm h.1, ih h.2]

theorem cutFirst_eq_some {sep : Char} {cs a b : List Char} (h : cutFirst sep cs = some (a, b)) :
    cs = a ++ sep :: b ∧ sep ∉ a := by
  induction cs generalizing a with
  | nil => simp [cutFirst] at h
  | cons c cs ih =>
    by_cases hc : c = sep
    · simp [cutFirst, hc] at h
      simp [h.1, h.2, hc]
    · simp only [cutFirst, hc, if_false, Option.map_eq_some_iff, Prod.mk.injEq] at h
      obtain ⟨⟨a', b'⟩, h', rfl, rfl⟩ := h
      obtain ⟨h₁, h₂⟩ := ih h'
      exact ⟨by simp [h₁], by simp [Ne.symm hc, h₂]⟩

theorem cutLast_eq_none {sep : Char} {cs : List Char} (h : sep ∉ cs) : cutLast sep cs = none := by
  induction cs with
  | nil => rfl
  | cons c cs ih =>
    simp only [List.mem_cons, not_or] at h
    simp [cutLast, ih h.2, Ne.symm h.1]

theorem cutLast_append {sep : Char} {a b : List Char} (h : sep ∉ b) :
    cutLast sep (a ++ sep :: b) = some (a, b) := by
  induction a with
  | nil => simp [cutLast, cutLast_eq_none h]
  | cons c a ih => simp [cutLast, ih]

theorem cutLast_eq_some {sep : Char} {cs a b : List Char} (h : cutLast sep cs = some (a, b)) :
    cs = a ++ sep :: b := by
  induction cs generalizing a with
  | nil => simp [cutLast] at h
  | cons c cs ih =>
    unfold cutLast at h
    split at h
    · rename_i a' b' hrest
      cases h
      rw [ih hrest, List.cons_append]
    · split at h
      · rename_i hc
        cases h
        rw [hc, List.nil_append]
      · cases h

/-! ### At every separator -/

/-- The parts between the separators, in order; one more than there are separators. -/
def split (sep : Char) (s : String) : List String :=
  (s.toList.splitOn sep).map String.ofList

def dropReturn (cs : List Char) : List Char :=
  if cs.getLast? = some '\r' then cs.dropLast else cs

/-- The lines of a text. A line feed, or a carriage return and a line feed, ends a line; what
follows the last of them is a line if it is not empty. -/
def lines (s : String) : List String :=
  let pieces := s.toList.splitOn '\n'
  let ended := pieces.dropLast.map fun piece => String.ofList (dropReturn piece)
  match pieces.getLast? with
  | some [] | none => ended
  | some piece => ended ++ [String.ofList piece]

/-! ### Searching -/

/-- Whether the first list occurs in the second one as an unbroken stretch. -/
def occursIn (needle : List Char) : List Char → Bool
  | [] => needle.isEmpty
  | c :: cs => needle.isPrefixOf (c :: cs) || occursIn needle cs

/-- Whether the first text is a part of the second one. -/
def contains (needle hay : String) : Bool :=
  occursIn needle.toList hay.toList

def lower (s : String) : String :=
  String.ofList (s.toList.map Char.toLower)

/-- Whether the first text is a part of the second one when the case of ASCII letters is ignored. -/
def containsFolded (needle hay : String) : Bool :=
  contains (lower needle) (lower hay)

/-- Whether two texts are equal when the case of ASCII letters is ignored. -/
def equalFolded (a b : String) : Bool :=
  lower a == lower b

/-- The text after a given beginning, if it begins so. -/
def after? (start s : String) : Option String :=
  if start.toList.isPrefixOf s.toList then some (String.ofList (s.toList.drop start.toList.length))
  else none

theorem occursIn_iff {needle hay : List Char} : occursIn needle hay = true ↔ needle <:+: hay := by
  induction hay with
  | nil => simp [occursIn]
  | cons c cs ih =>
    simp [occursIn, ih, List.infix_cons_iff]

end Crosswalk.Text
