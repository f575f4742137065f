import Crosswalk.Json
import Mathlib.Data.List.Nodup
import Mathlib.Data.List.Perm.Basic

/-!
# Objects with their fields in another order

The fields of an object have no order: what is written in one order may be handed on in another one,
sorted by name for instance, at every depth. What is found under a name is the same then, up to the
order of the fields within it, as long as no object has two fields of one name.
-/

namespace Crosswalk.Json

mutual

/-- The second value is the first one, with the fields of its objects in any order. -/
def Reordered : Json → Json → Prop
  | list js, k => ∃ ks, k = list ks ∧ ReorderedItems js ks
  | object fs, k => ∃ gs hs, k = object gs ∧ gs.Perm hs ∧ ReorderedFields fs hs
  | j, k => k = j
termination_by structural j => j

def ReorderedItems : List Json → List Json → Prop
  | [], ks => ks = []
  | j :: js, ks => ∃ k ks', ks = k :: ks' ∧ Reordered j k ∧ ReorderedItems js ks'
termination_by structural js => js

/-- The values of the fields may be reordered, the fields themselves stand in one order. -/
def ReorderedFields : List (String × Json) → List (String × Json) → Prop
  | [], gs => gs = []
  | (name, j) :: fs, gs => ∃ k gs', gs = (name, k) :: gs' ∧ Reordered j k ∧ ReorderedFields fs gs'
termination_by structural fs => fs

end

mutual

theorem Reordered.refl : (j : Json) → Reordered j j
  | null => rfl
  | bool _ => rfl
  | number _ _ => rfl
  | text _ => rfl
  | list js => ⟨js, rfl, ReorderedItems.refl js⟩
  | object fs => ⟨fs, fs, rfl, .refl fs, ReorderedFields.refl fs⟩
termination_by structural j => j

theorem ReorderedItems.refl : (js : List Json) → ReorderedItems js js
  | [] => rfl
  | j :: js => ⟨j, js, rfl, Reordered.refl j, ReorderedItems.refl js⟩
termination_by structural js => js

theorem ReorderedFields.refl : (fs : List (String × Json)) → ReorderedFields fs fs
  | [] => rfl
  | (_, j) :: fs => ⟨j, fs, rfl, Reordered.refl j, ReorderedFields.refl fs⟩
termination_by structural fs => fs

end

variable {fs gs hs : List (String × Json)} {name other : String}

theorem ReorderedFields.names_eq (h : ReorderedFields fs hs) :
    hs.map Prod.fst = fs.map Prod.fst := by
  induction fs generalizing hs with
  | nil =>
    cases h
    rfl
  | cons f fs ih =>
    obtain ⟨k, hs', rfl, -, hrest⟩ := h
    rw [List.map_cons, List.map_cons, ih hrest]

/-! ### What is found under a name -/

@[simp]
theorem field?_cons (f : String × Json) :
    field? name (f :: fs) = if name = f.1 then some f.2 else field? name fs := by
  unfold field?
  rw [List.lookup_cons]
  by_cases h : name = f.1
  · rw [if_pos h, h, beq_self_eq_true]
  · rw [if_neg h, beq_false_of_ne h]

@[simp]
theorem field?_append : field? name (fs ++ gs) = (field? name fs).or (field? name gs) := by
  induction fs with
  | nil => rfl
  | cons f fs ih =>
    rw [List.cons_append, field?_cons, field?_cons, ih]
    split <;> rfl

/-- A field that is left out under a condition. -/
theorem field?_optional {c : Prop} [Decidable c] {j : Json} :
    field? name (if c then [] else [(other, j)]) =
      if name = other then (if c then none else some j) else none := by
  by_cases hc : c
  · rw [if_pos hc, if_pos hc, ite_self]
    rfl
  · rw [if_neg hc, if_neg hc, field?_cons]
    rfl

/-- Under each name, the second fields hold what the first ones hold, in some order. -/
def SameFound (fs gs : List (String × Json)) : Prop :=
  ∀ name, Option.Rel Reordered (field? name fs) (field? name gs)

theorem SameFound.eq_none (h : SameFound fs gs) (hname : field? name fs = none) :
    field? name gs = none := by
  have hfound := h name
  rw [hname] at hfound
  cases hgs : field? name gs with
  | none => rfl
  | some k =>
    rw [hgs] at hfound
    cases hfound

theorem SameFound.exists_found (h : SameFound fs gs) {j : Json} (hname : field? name fs = some j) :
    ∃ k, field? name gs = some k ∧ Reordered j k := by
  have hfound := h name
  rw [hname] at hfound
  cases hgs : field? name gs with
  | none =>
    rw [hgs] at hfound
    cases hfound
  | some k =>
    rw [hgs] at hfound
    cases hfound with
    | some hjk => exact ⟨k, rfl, hjk⟩

theorem ReorderedFields.sameFound (h : ReorderedFields fs hs) : SameFound fs hs := by
  intro name
  induction fs generalizing hs with
  | nil =>
    cases h
    exact .none
  | cons f fs ih =>
    obtain ⟨k, hs', rfl, hvalue, hrest⟩ := h
    rw [field?_cons, field?_cons]
    split
    · exact .some hvalue
    · exact ih hrest

theorem mem_of_field? {j : Json} (h : field? name fs = some j) : (name, j) ∈ fs := by
  obtain ⟨before, after, rfl, -⟩ := List.lookup_eq_some_iff.1 h
  exact List.mem_append_right _ List.mem_cons_self

/-- Among fields with distinct names, what is found does not depend on their order. -/
theorem field?_perm (h : gs.Perm hs) (hnodup : (gs.map Prod.fst).Nodup) :
    field? name gs = field? name hs := by
  induction h with
  | nil => rfl
  | cons f _ ih => rw [field?_cons, field?_cons, ih (List.nodup_cons.1 hnodup).2]
  | swap f g fs =>
    have hne : g.1 ≠ f.1 := fun heq =>
      (List.nodup_cons.1 hnodup).1 (heq ▸ List.mem_cons_self)
    rw [field?_cons, field?_cons, field?_cons, field?_cons]
    -- one of the two names at most is the one that is looked for
    by_cases hg : name = g.1
    · rw [if_pos hg, if_neg (hg ▸ hne), if_pos hg]
    · rw [if_neg hg, if_neg hg]
  | trans hgh _ ih ih' =>
    exact (ih hnodup).trans (ih' ((hgh.map Prod.fst).nodup_iff.1 hnodup))

/-- A reordered object with distinct names is one in which the same is found. -/
theorem sameFound_of_reordered {k : Json} (h : Reordered (object fs) k)
    (hnodup : (fs.map Prod.fst).Nodup) : ∃ gs, k = object gs ∧ SameFound fs gs := by
  obtain ⟨gs, hs, rfl, hperm, hfields⟩ := h
  refine ⟨gs, rfl, fun name => ?_⟩
  rw [← hfields.names_eq] at hnodup
  rw [← field?_perm hperm.symm hnodup]
  exact hfields.sameFound name

/-! ### Values without objects -/

/-- The value holds no object whose fields could be reordered. -/
def Rigid (j : Json) : Prop :=
  ∀ k, Reordered j k → k = j

theorem rigid_text (s : String) : Rigid (text s) :=
  fun _ h => h

theorem rigid_ofTexts (texts : List String) : Rigid (ofTexts texts) := by
  rintro k ⟨ks, rfl, hitems⟩
  refine congrArg list ?_
  induction texts generalizing ks with
  | nil => exact hitems
  | cons s texts ih =>
    obtain ⟨k, ks', rfl, rfl, hrest⟩ := hitems
    rw [ih ks' hrest]
    rfl

theorem SameFound.eq_of_rigid (h : SameFound fs gs)
    (hrigid : ∀ j, field? name fs = some j → Rigid j) : field? name gs = field? name fs := by
  cases hfound : field? name fs with
  | none => exact h.eq_none hfound
  | some j =>
    obtain ⟨k, hk, hjk⟩ := h.exists_found hfound
    rw [hk, hrigid j hfound k hjk]

/-- A text is found as it was written. -/
theorem SameFound.text {s : String} (h : SameFound fs gs) (hs : field? name fs = some (.text s)) :
    field? name gs = some (.text s) := by
  obtain ⟨k, hk, rfl⟩ := h.exists_found hs
  exact hk

end Crosswalk.Json
