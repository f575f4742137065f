import Crosswalk.Text.Blank
import Mathlib.Data.List.DropRight
import Mathlib.Data.List.TakeWhile

/-!
# Trimming

A trimmed text neither starts nor ends with a blank character, so trimming it again changes nothing.
-/

namespace Crosswalk.Text

theorem trimEnd_trimEnd (cs : List Char) : trimEnd (trimEnd cs) = trimEnd cs :=
  List.rdropWhile_idempotent _ _

theorem trimEnd_prefix (cs : List Char) : trimEnd cs <+: cs :=
  List.rdropWhile_prefix isBlank cs

theorem dropWhile_trimEnd {cs : List Char} (h : cs.dropWhile isBlank = cs) :
    (trimEnd cs).dropWhile isBlank = trimEnd cs := by
  obtain ⟨rest, hrest⟩ := trimEnd_prefix cs
  cases ht : trimEnd cs with
  | nil => rfl
  | cons c ts =>
    rw [ht, List.cons_append] at hrest
    -- the first character is that of the whole list
    have hc : ¬ isBlank c = true := by
      have hself := List.dropWhile_eq_self_iff.1 h
      subst hrest
      exact hself (Nat.zero_lt_succ _)
    exact List.dropWhile_cons_of_neg hc

theorem trimChars_trimChars (cs : List Char) : trimChars (trimChars cs) = trimChars cs := by
  have h := dropWhile_trimEnd (List.dropWhile_idempotent isBlank cs)
  unfold trimChars
  rw [h, trimEnd_trimEnd]

theorem mem_of_mem_trim {s : String} {c : Char} (h : c ∈ (trim s).toList) : c ∈ s.toList := by
  rw [toList_trim, trimChars] at h
  have hend := trimEnd_prefix (s.toList.dropWhile isBlank)
  exact (List.dropWhile_suffix _).subset (hend.subset h)

theorem trim_trim (s : String) : trim (trim s) = trim s := by
  rw [trim, toList_trim, trimChars_trimChars]
  rfl

/-! ### Texts put together -/

theorem trimEnd_append {cs ds : List Char} (h : trimEnd ds ≠ []) :
    trimEnd (cs ++ ds) = cs ++ trimEnd ds := by
  unfold trimEnd at h ⊢
  have hrest : ¬ (ds.reverse.dropWhile isBlank).isEmpty = true := by
    simpa using h
  rw [List.reverse_append, List.dropWhile_append, if_neg hrest, List.reverse_append,
    List.reverse_reverse]

theorem trimEnd_of_trim {s : String} (h : trim s = s) : trimEnd s.toList = s.toList := by
  have hchars : trimChars s.toList = s.toList := by rw [← toList_trim, h]
  rw [← hchars]
  exact trimEnd_trimEnd _

/-- A text that needs no trimming, after something that does not start with a blank character. -/
theorem trim_append {start s : String} (hstart : start.toList.dropWhile isBlank = start.toList)
    (hsome : start ≠ "") (hs : trim s = s) (hne : s ≠ "") : trim (start ++ s) = start ++ s := by
  have hstart' : ¬ (start.toList.dropWhile isBlank).isEmpty = true := by
    simpa [hstart] using hsome
  have hend := trimEnd_of_trim hs
  rw [← String.toList_inj, toList_trim, String.toList_append, trimChars, List.dropWhile_append,
    if_neg hstart', hstart, trimEnd_append (by simpa [hend] using hne), hend]

end Crosswalk.Text
