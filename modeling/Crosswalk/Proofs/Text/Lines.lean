import Crosswalk.Proofs.Text.Trim
import Crosswalk.Text.Split
import Mathlib.Data.String.Basic

/-!
# Texts that are joined line by line

When some lines are joined with line feeds between and the text is cut into lines again, all of them
come back but a last one that is empty, and of nothing there are no lines. Whoever asks for the n-th
line, and for an empty one where there is none, does not see the difference.
-/

namespace Crosswalk.Text

/-- A text that survives as a line: it is trimmed and holds no line feed. -/
structure IsLine (s : String) : Prop where
  trimmed : trim s = s
  no_feed : '\n' ∉ s.toList

instance (s : String) : Decidable (IsLine s) :=
  decidable_of_iff (trim s = s ∧ '\n' ∉ s.toList) ⟨fun h => ⟨h.1, h.2⟩, fun h => ⟨h.1, h.2⟩⟩

def joinLines (texts : List String) : String :=
  "\n".intercalate texts

variable {texts : List String}

/-- A carriage return is blank, and so it does not end a trimmed text. -/
theorem IsLine.dropReturn_eq {s : String} (h : IsLine s) : dropReturn s.toList = s.toList := by
  unfold dropReturn
  refine if_neg fun hlast => ?_
  -- read backwards, what trimming the end leaves starts with a character that is not blank
  have hends : ∀ {cs : List Char}, (trimEnd cs).getLast? ≠ some '\r' := by
    intro cs hlast
    rw [trimEnd, List.getLast?_reverse] at hlast
    have hhead := List.head?_dropWhile_not isBlank cs.reverse
    rw [hlast] at hhead
    exact absurd hhead (by decide)
  have htrim := congrArg String.toList h.trimmed
  rw [toList_trim] at htrim
  rw [← htrim] at hlast
  exact hends hlast

/-- The lines come back, but for a last one that is empty. -/
theorem lines_joinLines_concat {s : String} (h : ∀ t ∈ texts, IsLine t) (hs : IsLine s) :
    lines (joinLines (texts ++ [s])) = if s = "" then texts else texts ++ [s] := by
  have hpieces : (joinLines (texts ++ [s])).toList.splitOn '\n' =
      texts.map String.toList ++ [s.toList] := by
    rw [joinLines, String.toList_intercalate]
    refine (List.splitOn_intercalate '\n' ?_ (by simp)).trans (List.map_append ..)
    intro cs hcs
    obtain ⟨t, ht, rfl⟩ := List.mem_map.1 hcs
    rcases List.mem_append.1 ht with ht | ht
    · exact (h t ht).no_feed
    · exact List.mem_singleton.1 ht ▸ hs.no_feed
  have hended : (texts.map String.toList).map (fun piece => String.ofList (dropReturn piece)) =
      texts := by
    rw [List.map_map]
    refine (List.map_congr_left fun t ht => ?_).trans (List.map_id texts)
    show String.ofList (dropReturn t.toList) = t
    rw [(h t ht).dropReturn_eq, String.ofList_toList]
  unfold lines
  dsimp only
  rw [hpieces, List.dropLast_concat, List.getLast?_concat, hended]
  by_cases hempty : s = ""
  · subst hempty
    rfl
  · have hne : s.toList ≠ [] := fun hnil => hempty (String.toList_eq_nil_iff.1 hnil)
    obtain ⟨c, cs, hcs⟩ := List.exists_cons_of_ne_nil hne
    rw [if_neg hempty, hcs]
    dsimp only
    rw [← hcs, String.ofList_toList]

/-- Either all lines come back or all but an empty one at the end. -/
theorem lines_joinLines (h : ∀ t ∈ texts, IsLine t) :
    lines (joinLines texts) = texts ∨ texts = lines (joinLines texts) ++ [""] := by
  cases texts using List.reverseRecOn with
  | nil => exact .inl (by decide)
  | append_singleton texts s =>
    rw [lines_joinLines_concat (fun t ht => h t (List.mem_append_left _ ht))
      (h s (List.mem_append_right _ List.mem_cons_self))]
    split
    · rename_i hempty
      exact .inr (by rw [hempty])
    · exact .inl rfl

theorem lines_joinLines_of_ne (h : ∀ t ∈ texts, IsLine t) (hne : ∀ t ∈ texts, t ≠ "") :
    lines (joinLines texts) = texts := by
  refine (lines_joinLines h).resolve_right fun htexts => ?_
  refine hne "" ?_ rfl
  rw [htexts]
  exact List.mem_append_right _ List.mem_cons_self

theorem length_lines_joinLines_le (h : ∀ t ∈ texts, IsLine t) :
    (lines (joinLines texts)).length ≤ texts.length := by
  rcases lines_joinLines h with heq | heq
  · exact (congrArg List.length heq).le
  · rw [congrArg List.length heq, List.length_append]
    exact Nat.le_add_right _ _

theorem map_trim_lines_joinLines (h : ∀ t ∈ texts, IsLine t) :
    (lines (joinLines texts)).map trim = lines (joinLines texts) := by
  refine (List.map_congr_left fun t ht => IsLine.trimmed (h t ?_)).trans (List.map_id _)
  rcases lines_joinLines h with heq | heq
  · exact heq ▸ ht
  · rw [heq]
    exact List.mem_append_left _ ht

/-- Where a line is missing, an empty text was joined. -/
theorem getD_lines_joinLines (h : ∀ t ∈ texts, IsLine t) (n : Nat) :
    (lines (joinLines texts))[n]?.getD "" = texts[n]?.getD "" := by
  rcases lines_joinLines h with heq | heq
  · rw [heq]
  · generalize lines (joinLines texts) = ls at heq
    subst heq
    rw [List.getElem?_append]
    split
    · rfl
    · rename_i hn
      rw [List.getElem?_eq_none (Nat.le_of_not_lt hn)]
      cases n - ls.length <;> rfl

end Crosswalk.Text
